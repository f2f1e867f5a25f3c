import AtomHeap.Text.Graphic
/-!
# Quoted text

Text between double quotes. A quote or backslash in it has a backslash in front; the usual controls
are written by letter, and whatever else has no shape of its own by its number.
-/

namespace AtomHeap.Text

/-- A hexadecimal numeral in lower case, without leading zeros. -/
def hexNumeral (n : Nat) : String := String.ofList (Nat.toDigits 16 n)

def escape (c : Char) : String :=
  if c = '\x00' then "\\0"
  else if c = '\t' then "\\t"
  else if c = '\r' then "\\r"
  else if c = '\n' then "\\n"
  else if c = '\\' then "\\\\"
  else if c = '"' then "\\\""
  else if isGraphic c then c.toString
  else "\\u\x7b" ++ hexNumeral c.toNat ++ "\x7d"

def quoted (s : String) : String := "\"" ++ String.join (s.toList.map escape) ++ "\""

end AtomHeap.Text
