import AtomHeap.Text.Utf8
/-!
# Wide text

Text as groups of four bytes, each the little-endian number of one character. Reading never fails:
a group that is no character's number reads as U+FFFD, and an incomplete group at the end is left
out.
-/

namespace AtomHeap.Text

def wideChar (c : Char) : List UInt8 :=
  [c.val.toUInt8, (c.val >>> 8).toUInt8, (c.val >>> 16).toUInt8, (c.val >>> 24).toUInt8]

def wideBytes (s : String) : List UInt8 := s.toList.flatMap wideChar

def charOfNat (n : Nat) : Char :=
  if h : n.isValidChar then Char.ofNatAux n h else replacement

/-- Reads wide bytes on after the characters read before them. -/
def readWide (before : Array Char) : List UInt8 → Array Char
  | a :: b :: c :: d :: rest =>
    let number := a.toNat + 256 * (b.toNat + 256 * (c.toNat + 256 * d.toNat))
    readWide (before.push (charOfNat number)) rest
  | _ => before

def ofWide (bytes : List UInt8) : String := String.ofList (readWide #[] bytes).toList

end AtomHeap.Text
