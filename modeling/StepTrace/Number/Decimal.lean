import StepTrace.Text.Basic
import StepTrace.Number.Double

/-!
# Decimal notation

A unit is `5¹⁰⁷⁴ · 10⁻¹⁰⁷⁴`, so the exact decimal expansion of a finite double is the natural number
`units · 5¹⁰⁷⁴` with 1074 places. Both notations are read off this number: the shortest one that
reads back to the same double, and the one with a set number of places.

The reals that round to a double reach half way to its two neighbours, and the ends belong to it
when its significand is even. The shortest notation is found by trying one digit, two digits and so
on: of the two neighbours of the value on that grid it takes one that lies in this interval, the
nearer one if both do.
-/

namespace StepTrace

/-- The decimal digits of a natural number. -/
def Text.ofNat (n : Nat) : Text := Nat.toDigits 10 n

/-- A whole number in decimal digits, with a minus sign if it is negative. -/
def Text.ofInt (n : Int) : Text :=
  if n < 0 then '-' :: Text.ofNat n.natAbs else Text.ofNat n.natAbs

namespace Decimal

/-- The places of the exact expansion. -/
def places : Nat := 1074

/-- The exact value of a unit, as a whole number with 1074 places. -/
def unit : Nat := Nat.pow 5 places

/-- The number of decimal digits of a positive number, estimated from its bits and then corrected.
-/
def digitCount (n : Nat) : Nat :=
  let k := n.log2 * 30103 / 100000
  if n < Nat.pow 10 k then k else if n < Nat.pow 10 (k + 1) then k + 1 else k + 2

/-! ## The shortest notation -/

/-- The reals that round to a double, in quarters of a unit. -/
structure Interval where
  low : Nat
  high : Nat
  closed : Bool
deriving DecidableEq, Repr

/-- The reals that round to a positive magnitude. Below a power of two the neighbour is only half as
far away, unless the spacing cannot shrink any more. -/
def Interval.of (units : Nat) : Interval :=
  let step := Double.spacing units
  let significand := units / step
  let narrow := significand == Nat.pow 2 52 && 1 < step
  { low := 4 * units - (if narrow then step else 2 * step)
    high := 4 * units + 2 * step
    closed := significand % 2 == 0 }

/-- A decimal expansion with 1074 places lies in the interval. -/
def Interval.holds (i : Interval) (n : Nat) : Bool :=
  let low := i.low * unit
  let high := i.high * unit
  if i.closed then low ≤ 4 * n && 4 * n ≤ high else low < 4 * n && 4 * n < high

/-- The multiple of the grid for the exact expansion `n` that lies in the interval. -/
def pick? (i : Interval) (n grid : Nat) : Option Nat :=
  let low := n / grid
  let high := low + 1
  match i.holds (low * grid), i.holds (high * grid) with
  | true, false => some low
  | false, true => some high
  | true, true =>
    let gap := 2 * (n - low * grid)
    if gap < grid then some low
    else if grid < gap then some high
    else if low % 2 = 0 then some low else some high
  | false, false => none

/-- A decimal number `0.d₁d₂… · 10^point`, the digits as one number. -/
structure Scaled where
  digits : Nat
  point : Int
deriving DecidableEq, Repr

/-- The first grid with a pick, from `tried` digits on. -/
def search (i : Interval) (n size : Nat) : (left tried : Nat) → Scaled
  | 0, _ => ⟨n, (size : Int) - places⟩
  | left + 1, tried =>
    match pick? i n (Nat.pow 10 (size - tried)) with
    | some d => ⟨d, (digitCount d : Int) + (size - tried : Nat) - places⟩
    | none => search i n size left (tried + 1)

/-- The shortest decimal that reads back to a positive magnitude. Seventeen digits are enough. -/
def shortest (units : Nat) : Scaled :=
  let n := units * unit
  search (Interval.of units) n (digitCount n) 17 1

/-- The digits without the zeros at the end. -/
def significant (n : Nat) : Text := (Text.ofNat n).dropTail (· == '0')

/-- The exponent with a sign and at least two digits. -/
def exponentText (e : Int) : Text :=
  let digits := Text.ofNat e.natAbs
  let padded := if digits.length < 2 then '0' :: digits else digits
  (if e < 0 then '-' else '+') :: padded

/-- Numbers from `10⁻⁴` up to `10¹⁶` are written positionally and always with a point, others with
one digit before the point and an exponent. -/
def layout (x : Scaled) : Text :=
  let digits := significant x.digits
  let count : Int := digits.length
  if -4 < x.point ∧ x.point ≤ 16 then
    if x.point ≤ 0 then
      "0.".toList ++ List.replicate (-x.point).toNat '0' ++ digits
    else if count ≤ x.point then
      digits ++ List.replicate (x.point - count).toNat '0' ++ ".0".toList
    else digits.take x.point.toNat ++ '.' :: digits.drop x.point.toNat
  else
    let mantissa := match digits with
      | [d] => [d]
      | d :: rest => d :: '.' :: rest
      | [] => []
    mantissa ++ 'e' :: exponentText (x.point - 1)

/-- The minus sign of a negative number. -/
def sign (negative : Bool) : Text := if negative then ['-'] else []

/-- A double in its shortest notation. -/
def ofDouble : Double → Text
  | .nan => "nan".toList
  | .infinite negative => sign negative ++ "inf".toList
  | .finite negative units =>
    sign negative ++ (if units = 0 then "0.0".toList else layout (shortest units))

/-! ## A set number of places -/

/-- A finite double with `count` places: its exact value rounded to nearest, a tie to even. -/
def fixed (count : Nat) (negative : Bool) (units : Nat) : Text :=
  let digits := Text.ofNat (Double.roundDiv (units * unit) (Nat.pow 10 (places - count)))
  let padded := List.replicate (count + 1 - digits.length) '0' ++ digits
  let whole := padded.take (padded.length - count)
  let fraction := padded.drop (padded.length - count)
  sign negative ++ whole ++ (if count = 0 then [] else '.' :: fraction)

end Decimal

end StepTrace
