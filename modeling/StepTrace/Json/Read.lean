import StepTrace.Value

/-!
# Reading JSON

A reader for error messages that are JSON texts. Beside the standard it accepts `NaN` and the two
infinities as numbers. Whole numbers stay whole, and one with too many digits stops the reader at
once. An object has one field for each key: of equal keys
the first gives the place and the last the value. Control characters inside a string are refused.

A string may hold half of a pair of 16-bit units, written by its code and without the other half.
Such a half is no character, so a string is a list of letters.
-/

namespace StepTrace

/-- A letter of a JSON string: a character, or half of a pair of units without the other half. -/
inductive Json.Letter where
  | char (c : Char)
  | half (unit : Nat)
deriving DecidableEq, Repr

/-- A JSON value. -/
inductive Json where
  | null
  | bool (value : Bool)
  | num (value : Number)
  | text (value : List Json.Letter)
  | list (items : List Json)
  | object (fields : List (List Json.Letter × Json))
deriving Repr, Inhabited

namespace Json

/-- Why a text is not read. -/
inductive Refusal where
  | malformed
  /-- A whole number has too many digits. -/
  | tooLong (digits : Nat)
deriving DecidableEq, Repr

/-- Nothing found means that the text is malformed. -/
def orMalformed (found : Option α) : Except Refusal α :=
  match found with
  | some a => .ok a
  | none => .error .malformed

/-- The letters of a text. -/
def letters (t : Text) : List Letter := t.map .char

/-- A text as a value. -/
def ofText (t : Text) : Json := .text (letters t)

/-! ## Objects -/

/-- Set a field: in its place, or at the end. -/
def setField (key : List Letter) (value : Json) :
    List (List Letter × Json) → List (List Letter × Json)
  | [] => [(key, value)]
  | (k, v) :: rest => if k = key then (k, value) :: rest else (k, v) :: setField key value rest

/-- The object with the given fields, set one after the other. -/
def ofFields (fields : List (List Letter × Json)) : Json :=
  .object (fields.foldl (fun set field => setField field.1 field.2 set) [])

/-- The field with a key. -/
def get? (key : Text) : Json → Option Json
  | .object fields => fields.lookup (letters key)
  | _ => none

/-! ## Strings -/

/-- The value of a hexadecimal digit. -/
def hexValue? (c : Char) : Option Nat :=
  if '0' ≤ c ∧ c ≤ '9' then some (c.toNat - '0'.toNat)
  else if 'a' ≤ c ∧ c ≤ 'f' then some (c.toNat - 'a'.toNat + 10)
  else if 'A' ≤ c ∧ c ≤ 'F' then some (c.toNat - 'A'.toNat + 10)
  else none

/-- The unit that four hexadecimal digits stand for, and what follows. -/
def unit? : Text → Option (Nat × Text)
  | a :: b :: c :: d :: t => do
    let high := (← hexValue? a) * 16 + (← hexValue? b)
    let low := (← hexValue? c) * 16 + (← hexValue? d)
    return (high * 256 + low, t)
  | _ => none

/-- The character that a letter behind a backslash stands for. -/
def escaped? : Char → Option Char
  | '"' => some '"'
  | '\\' => some '\\'
  | '/' => some '/'
  | 'b' => some '\x08'
  | 'f' => some '\x0c'
  | 'n' => some '\n'
  | 'r' => some '\r'
  | 't' => some '\t'
  | _ => none

/-- The second half of a pair of units. -/
def lowHalf? (t : Text) : Option (Nat × Text) := do
  let (unit, rest) ← unit? (← Text.after? ['\\', 'u'] t)
  if 0xdc00 ≤ unit ∧ unit < 0xe000 then some (unit, rest) else none

/-- The letter of a unit, joined with the half behind it, and what follows. -/
def unitLetter (unit : Nat) (t : Text) : Letter × Text :=
  if 0xd800 ≤ unit ∧ unit < 0xdc00 then
    match lowHalf? t with
    | some (low, rest) =>
      (.char (Char.ofNat (0x10000 + (unit - 0xd800) * 0x400 + (low - 0xdc00))), rest)
    | none => (.half unit, t)
  else if 0xdc00 ≤ unit ∧ unit < 0xe000 then (.half unit, t)
  else (.char (Char.ofNat unit), t)

/-- The rest of a string behind its first quote, with at most `left` characters, and what follows.
-/
def string? : (left : Nat) → Text → Option (List Letter × Text)
  | 0, _ => none
  | _ + 1, [] => none
  | left + 1, c :: t =>
    if c = '"' then some ([], t)
    else if c = '\\' then
      match t with
      | 'u' :: t => do
        let (unit, t) ← unit? t
        let (letter, t) := unitLetter unit t
        let (s, t) ← string? left t
        return (letter :: s, t)
      | e :: t => do
        let c ← escaped? e
        let (s, t) ← string? left t
        return (.char c :: s, t)
      | [] => none
    else if c.toNat < 0x20 then none
    else do
      let (s, t) ← string? left t
      return (.char c :: s, t)

/-! ## Numbers -/

/-- A basic decimal digit. -/
def isDigit (c : Char) : Bool := '0' ≤ c && c ≤ '9'

/-- The whole part of a number: a zero, or digits without a zero in front. -/
def whole? : Text → Option (Text × Text)
  | '0' :: t => some (['0'], t)
  | c :: t => if isDigit c then some (c :: t.takeWhile isDigit, t.dropWhile isDigit) else none
  | [] => none

/-- The digits behind a point, if there are any. -/
def fraction : Text → Text × Text
  | '.' :: t =>
    let digits := t.takeWhile isDigit
    if digits.isEmpty then ([], '.' :: t) else (digits, t.dropWhile isDigit)
  | t => ([], t)

/-- An exponent, if there is one. -/
def exponent : Text → Option Int × Text
  | c :: t =>
    let (negative, digits) := Literal.sign t
    if (c = 'e' ∨ c = 'E') ∧ digits.takeWhile isDigit ≠ [] then
      let n := Literal.value (digits.takeWhile isDigit)
      (some (if negative then -(n : Int) else n), digits.dropWhile isDigit)
    else (none, c :: t)
  | [] => (none, [])

/-- The most digits of a whole number. -/
def longestWhole : Nat := 4300

/-- A number without its sign, and what follows. -/
def number (negative : Bool) (t : Text) : Except Refusal (Number × Text) := do
  let (whole, t) ← orMalformed (whole? t)
  let (fraction, t) := fraction t
  let (exponent, t) := exponent t
  let places := if fraction.isEmpty then none else some fraction
  let literal : Literal := ⟨negative, whole, places, exponent⟩
  if !literal.isWhole then return (.float literal.toDouble, t)
  if longestWhole < whole.length then throw (.tooLong whole.length)
  return (.int literal.toInt, t)

/-! ## Values -/

/-- Drop the white space between tokens. -/
def skip (t : Text) : Text := t.dropWhile fun c => c == ' ' || c == '\t' || c == '\n' || c == '\r'

/-- The words for single values. -/
def words : List (Text × Json) :=
  [("null".toList, .null), ("true".toList, .bool true), ("false".toList, .bool false),
   ("NaN".toList, .num (.float .nan)), ("Infinity".toList, .num (.float (.infinite false))),
   ("-Infinity".toList, .num (.float (.infinite true)))]

/-- A word or a number at the front of a text. -/
def scalar (t : Text) : Except Refusal (Json × Text) :=
  match words.findSome? fun (w, v) => (Text.after? w t).map (v, ·) with
  | some found => .ok found
  | none =>
    match t with
    | '-' :: t => (number true t).map fun (n, t) => (.num n, t)
    | t => (number false t).map fun (n, t) => (.num n, t)

/-- The rest of a string behind its first quote, and what follows. -/
def string (t : Text) : Except Refusal (List Letter × Text) :=
  orMalformed (string? (t.length + 1) t)

mutual

/-- A value at the front of a text; `left` bounds the tokens still to be read. -/
def readValue : (left : Nat) → Text → Except Refusal (Json × Text)
  | 0, _ => .error .malformed
  | left + 1, t =>
    match t with
    | '"' :: t => (string t).map fun (s, t) => (.text s, t)
    | '\x7b' :: t =>
      match skip t with
      | '\x7d' :: t => .ok (.object [], t)
      | t => (readFields left t).map fun (fields, t) => (.ofFields fields, t)
    | '[' :: t =>
      match skip t with
      | ']' :: t => .ok (.list [], t)
      | t => (readItems left t).map fun (items, t) => (.list items, t)
    | t => scalar t

/-- The items of a list up to its closing bracket. -/
def readItems : (left : Nat) → Text → Except Refusal (List Json × Text)
  | 0, _ => .error .malformed
  | left + 1, t => do
    let (v, t) ← readValue left t
    match skip t with
    | ']' :: t => return ([v], t)
    | ',' :: t =>
      let (rest, t) ← readItems left (skip t)
      return (v :: rest, t)
    | _ => throw .malformed

/-- The fields of an object up to its closing brace. -/
def readFields : (left : Nat) → Text → Except Refusal (List (List Letter × Json) × Text)
  | 0, _ => .error .malformed
  | left + 1, t =>
    match t with
    | '"' :: t => do
      let (key, t) ← string t
      match skip t with
      | ':' :: t =>
        let (v, t) ← readValue left (skip t)
        match skip t with
        | '\x7d' :: t => return ([(key, v)], t)
        | ',' :: t =>
          let (rest, t) ← readFields left (skip t)
          return ((key, v) :: rest, t)
        | _ => throw .malformed
      | _ => throw .malformed
    | _ => .error .malformed

end

/-- Read a JSON text. Nothing but white space may follow the value. -/
def read (t : Text) : Except Refusal Json := do
  let (v, rest) ← readValue (t.length + 1) (skip t)
  if (skip rest).isEmpty then return v else throw .malformed

/-! ## Texts of a value -/

/-- The character shown for a letter. Half a pair cannot be shown and leaves the replacement
character. -/
def Letter.toChar : Letter → Char
  | .char c => c
  | .half _ => '\ufffd'

/-- A letter inside a quoted text. Half a pair is written by its code. -/
def Letter.quoted (quote : Char) : Letter → Text
  | .char c => Text.quotedChar quote c
  | .half unit => "\\u".toList ++ Text.hexadecimal 4 unit

/-- Letters between quotes. -/
def quotedLetters (s : List Letter) : Text :=
  let quote := Text.quoteFor (s.map Letter.toChar)
  quote :: s.flatMap (Letter.quoted quote) ++ [quote]

mutual

/-- The text of a value as it stands inside a list. -/
def source : Json → Text
  | .null => Value.source .null
  | .bool b => Value.source (.bool b)
  | .num n => Value.ofNumber n
  | .text s => quotedLetters s
  | .list items => Value.bracketed (sources items)
  | .object fields =>
    '\x7b' :: Text.joined ", ".toList (fieldSources fields) ++ ['\x7d']

/-- The texts of the items of a list. -/
def sources : List Json → List Text
  | [] => []
  | v :: rest => source v :: sources rest

/-- The texts of the fields of an object. -/
def fieldSources : List (List Letter × Json) → List Text
  | [] => []
  | (key, v) :: rest => (quotedLetters key ++ ": ".toList ++ source v) :: fieldSources rest

end

/-- The plain text of a value. -/
def plain : Json → Text
  | .text s => s.map Letter.toChar
  | v => source v

/-- The value counts as something: it is not null, false, zero or empty. -/
def isPresent : Json → Bool
  | .null => false
  | .bool b => b
  | .num n => !n.isZero
  | .text t => !t.isEmpty
  | .list items => !items.isEmpty
  | .object fields => !fields.isEmpty

end Json

end StepTrace
