import StepTrace.Text.Basic

/-!
# Quoted texts

A text is quoted with single quotes, or with double quotes when it holds a single quote and no
double one. The quote in use and the backslash are written behind a backslash, line feed, carriage
return and tab by a letter, and every other character that cannot be printed by its code in
hexadecimal digits.
-/

namespace StepTrace.Text

open CharClass

/-- The code of a character in at least `width` hexadecimal digits. -/
def hexadecimal (width n : Nat) : Text :=
  let digits := Nat.toDigits 16 n
  List.replicate (width - digits.length) '0' ++ digits

/-- A character that cannot be printed, by its code. -/
def escapedCode (c : Char) : Text :=
  let n := c.toNat
  if n < 0x100 then "\\x".toList ++ hexadecimal 2 n
  else if n < 0x10000 then "\\u".toList ++ hexadecimal 4 n
  else "\\U".toList ++ hexadecimal 8 n

/-- A character inside a quoted text. -/
def quotedChar (quote c : Char) : Text :=
  if c = quote ∨ c = '\\' then ['\\', c]
  else if c = '\n' then "\\n".toList
  else if c = '\r' then "\\r".toList
  else if c = '\t' then "\\t".toList
  else if isPrintable c then [c]
  else escapedCode c

/-- The quote a text is written with. -/
def quoteFor (t : Text) : Char := if t.contains '\'' && !t.contains '"' then '"' else '\''

/-- A text between quotes. -/
def quoted (t : Text) : Text :=
  let quote := quoteFor t
  quote :: t.flatMap (quotedChar quote) ++ [quote]

end StepTrace.Text
