/-!
# UTF-8

Text as bytes, and bytes as text. Reading never fails: where the bytes are not UTF-8, each longest
piece that could still have begun a character reads as one U+FFFD.
-/

namespace AtomHeap.Text

/-- The character that stands for what cannot be read. -/
def replacement : Char := '\uFFFD'

def utf8Bytes (s : String) : List UInt8 := s.toList.flatMap String.utf8EncodeChar

/-- The character that the bytes start with, if they start with one. -/
def firstChar? (bytes : List UInt8) : Option Char :=
  ByteArray.utf8DecodeChar? ⟨(bytes.take 4).toArray⟩ 0

/-- Whether a byte may follow inside a character. -/
def isContinuation (b : UInt8) : Bool := 0x80 ≤ b && b ≤ 0xBF

/-- Whether `b` may come second in a character of at least three bytes that starts with `a`. -/
def mayFollow (a b : UInt8) : Bool :=
  if a = 0xE0 then 0xA0 ≤ b && b ≤ 0xBF
  else if a = 0xED then 0x80 ≤ b && b ≤ 0x9F
  else if a = 0xF0 then 0x90 ≤ b && b ≤ 0xBF
  else if a = 0xF4 then 0x80 ≤ b && b ≤ 0x8F
  else 0xE1 ≤ a && a ≤ 0xF3 && isContinuation b

/-- How many of the bytes, which start with no character, are the beginning of one; at least 1. -/
def brokenLength : List UInt8 → Nat
  | a :: b :: rest =>
    if mayFollow a b then
      match rest with
      | c :: _ => if 0xF0 ≤ a && isContinuation c then 3 else 2
      | [] => 2
    else 1
  | _ => 1

/-- Reads bytes on after the characters read before them. -/
def readUtf8 (before : Array Char) (bytes : List UInt8) : Array Char :=
  match bytes with
  | [] => before
  | b :: rest =>
    match firstChar? (b :: rest) with
    | some c => readUtf8 (before.push c) (rest.drop (c.utf8Size - 1))
    | none => readUtf8 (before.push replacement) (rest.drop (brokenLength (b :: rest) - 1))
termination_by bytes.length
decreasing_by all_goals simp only [List.length_drop, List.length_cons]; omega

def ofUtf8 (bytes : List UInt8) : String := String.ofList (readUtf8 #[] bytes).toList

end AtomHeap.Text
