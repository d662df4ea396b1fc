import StepTrace.Text.Quoted

/-!
# Writing JSON strings

A text is written between double quotes with printable basic characters only. Every other one is
written by its 16-bit units in hexadecimal digits, so a character beyond the first plane takes two
of them.
-/

namespace StepTrace.Json

/-- A unit by its code. -/
def unitText (unit : Nat) : Text := "\\u".toList ++ Text.hexadecimal 4 unit

/-- A character by its units. -/
def unitsText (c : Char) : Text :=
  let n := c.toNat
  if n < 0x10000 then unitText n
  else unitText (0xd800 + (n - 0x10000) / 0x400) ++ unitText (0xdc00 + (n - 0x10000) % 0x400)

/-- A character inside a string. -/
def writtenChar (c : Char) : Text :=
  match c with
  | '"' => "\\\"".toList
  | '\\' => "\\\\".toList
  | '\n' => "\\n".toList
  | '\r' => "\\r".toList
  | '\t' => "\\t".toList
  | '\x08' => "\\b".toList
  | '\x0c' => "\\f".toList
  | c => if 0x20 ≤ c.toNat ∧ c.toNat < 0x7f then [c] else unitsText c

/-- A text as a JSON string. -/
def written (t : Text) : Text := '"' :: t.flatMap writtenChar ++ ['"']

end StepTrace.Json
