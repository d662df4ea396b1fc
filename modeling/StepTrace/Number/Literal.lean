import StepTrace.Number.Basic
import StepTrace.Number.Decimal

/-!
# Numeric literals

A numeric literal is an optional sign, digits with or without a point (at least one digit), and an
optional exponent. Digits of every script count. A literal without point and exponent is a whole
number, read exactly when it has at most 310 characters. Every other literal is the nearest double.
Both are then in normal form.
-/

namespace StepTrace

open CharClass

/-- A numeric literal taken apart. -/
structure Literal where
  negative : Bool
  /-- The digits before the point. -/
  whole : Text
  /-- The digits after the point, if there is a point. -/
  fraction : Option Text
  /-- The exponent, if there is one. -/
  exponent : Option Int
deriving DecidableEq, Repr

namespace Literal

/-- An optional sign and what follows it. -/
def sign : Text → Bool × Text
  | '-' :: t => (true, t)
  | '+' :: t => (false, t)
  | t => (false, t)

/-- The value of a row of digits. -/
def value (digits : Text) : Nat :=
  digits.foldl (fun n c => 10 * n + (digitValue? c).getD 0) 0

/-- The exponent at the end of a literal: nothing at all, or a mark, an optional sign and digits. -/
def exponent? : Text → Option (Option Int)
  | [] => some none
  | c :: t =>
    if c = 'e' ∨ c = 'E' then
      let (negative, digits) := sign t
      if digits ≠ [] ∧ digits.all isDecimal then
        some (some (if negative then -(value digits : Int) else value digits))
      else none
    else none

/-- Take a trimmed literal apart. -/
def ofText? (t : Text) : Option Literal :=
  let (negative, body) := sign t
  let whole := body.takeWhile isDecimal
  match body.dropWhile isDecimal with
  | '.' :: rest =>
    let fraction := rest.takeWhile isDecimal
    if whole = [] ∧ fraction = [] then none
    else (exponent? (rest.dropWhile isDecimal)).map (⟨negative, whole, some fraction, ·⟩)
  | rest =>
    if whole = [] then none else (exponent? rest).map (⟨negative, whole, none, ·⟩)

/-- A literal that is a whole number as written. -/
def isWhole (l : Literal) : Bool := l.fraction.isNone && l.exponent.isNone

/-- The double nearest to `m · 10^e`. Far outside the range the powers are not computed. -/
def nearest (negative : Bool) (m : Nat) (e : Int) : Double :=
  if m = 0 then .finite negative 0
  else
    let lead := (Decimal.digitCount m : Int) + e
    if 310 < lead then .infinite negative
    else if lead < -330 then .finite negative 0
    else if 0 ≤ e then Double.rounded negative (m * Nat.pow 10 e.toNat * Double.one) 1
    else Double.rounded negative (m * Double.one) (Nat.pow 10 (-e).toNat)

/-- The double nearest to a literal. -/
def toDouble (l : Literal) : Double :=
  let fraction := l.fraction.getD []
  nearest l.negative (value (l.whole ++ fraction)) (l.exponent.getD 0 - fraction.length)

/-- The whole number of a literal without fraction and exponent. -/
def toInt (l : Literal) : Int :=
  if l.negative then -(value l.whole : Int) else value l.whole

end Literal

namespace Number

/-- The longest whole number that is read exactly, sign included. -/
def longestExact : Nat := 310

/-- The number that a text is a literal of. White space around it does not count. -/
def ofLiteral? (t : Text) : Option Number :=
  let body := t.trim
  (Literal.ofText? body).map fun l =>
    if l.isWhole ∧ body.length ≤ longestExact then normalize (.int l.toInt)
    else normalize (.float l.toDouble)

end Number

end StepTrace
