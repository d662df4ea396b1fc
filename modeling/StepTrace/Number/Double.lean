/-!
# Doubles

A finite double is a whole number of units of `2⁻¹⁰⁷⁴`, the least positive one. So sums, products
and quotients are computed exactly on natural numbers, in units, and rounded once: to at most 53
significant bits, to nearest, a tie to the even neighbour. Numbers below `2⁵³` units are the
subnormal ones and the first normal ones, and need no case of their own.

A sum, product or quotient that rounds to `2¹⁰²⁴` or more is infinite.
-/

namespace StepTrace

/-- A double: no number, an infinity, or a sign and a magnitude in units of `2⁻¹⁰⁷⁴`. Zero has a
sign too. -/
inductive Double where
  | nan
  | infinite (negative : Bool)
  | finite (negative : Bool) (units : Nat)
deriving DecidableEq, Repr, Inhabited

namespace Double

/-! ## Rounding -/

/-- The number of units in 1. -/
def one : Nat := Nat.pow 2 1074

/-- The least magnitude in units that is too large. -/
def tooLarge : Nat := Nat.pow 2 2098

/-- The whole number nearest to `num / den`, a tie going to the even one. -/
def roundDiv (num den : Nat) : Nat :=
  let q := num / den
  let r := num % den
  if 2 * r < den then q
  else if den < 2 * r then q + 1
  else if q % 2 = 0 then q else q + 1

/-- The distance of neighbouring doubles at `units`: 53 significant bits are kept. -/
def spacing (units : Nat) : Nat := Nat.pow 2 (units.log2 - 52)

/-- The magnitude nearest to `num / den` units that a double can have. -/
def roundUnits (num den : Nat) : Nat :=
  let step := spacing (num / den)
  roundDiv num (den * step) * step

/-- The double nearest to `num / den` units, with its sign. -/
def rounded (negative : Bool) (num den : Nat) : Double :=
  let units := roundUnits num den
  if units < tooLarge then .finite negative units else .infinite negative

/-- The double itself, if it is finite. -/
def finite? : Double → Option Double
  | .finite negative units => some (.finite negative units)
  | _ => none

/-! ## Whole numbers -/

/-- The nearest double, if it is finite. -/
def ofInt? (n : Int) : Option Double := (rounded (n < 0) (n.natAbs * one) 1).finite?

/-- The largest whole number that is a double. -/
def largestInt : Nat := (Nat.pow 2 53 - 1) * Nat.pow 2 971

/-- The magnitude with its sign, in units. -/
def signed (negative : Bool) (units : Nat) : Int := if negative then -units else units

/-- The whole number that a double is equal to, if there is one. -/
def toInt? : Double → Option Int
  | .finite negative units => if units % one = 0 then some (signed negative (units / one)) else none
  | _ => none

/-- The greatest whole number that is not above the double, if it is finite. -/
def floor? : Double → Option Int
  | .finite negative units => some (signed negative units / one)
  | _ => none

/-! ## Arithmetic -/

/-- A sum of signed magnitudes. Opposite numbers give the positive zero, and two negative zeros the
negative one. -/
def add : Double → Double → Double
  | .finite s a, .finite t b =>
    let sum := signed s a + signed t b
    if sum = 0 then .finite (s && t) 0 else rounded (sum < 0) sum.natAbs 1
  | .infinite s, .infinite t => if s = t then .infinite s else .nan
  | .infinite s, .finite _ _ => .infinite s
  | .finite _ _, .infinite t => .infinite t
  | _, _ => .nan

/-- The double with the other sign. -/
def neg : Double → Double
  | .nan => .nan
  | .infinite s => .infinite !s
  | .finite s a => .finite (!s) a

/-- The difference of two doubles. -/
def sub (x y : Double) : Double := add x (neg y)

/-- The product of two doubles. -/
def mul : Double → Double → Double
  | .finite s a, .finite t b => rounded (s != t) (a * b) one
  | .infinite s, .infinite t => .infinite (s != t)
  | .infinite s, .finite t b => if b = 0 then .nan else .infinite (s != t)
  | .finite s a, .infinite t => if a = 0 then .nan else .infinite (s != t)
  | _, _ => .nan

/-- The quotient of two doubles, the second not zero. -/
def div : Double → Double → Double
  | .finite s a, .finite t b => rounded (s != t) (a * one) b
  | .infinite s, .finite t _ => .infinite (s != t)
  | .finite s _, .infinite t => .finite (s != t) 0
  | _, _ => .nan

/-! ## Order -/

/-- Either zero. -/
def isZero : Double → Bool
  | .finite _ 0 => true
  | _ => false

/-- Neither infinite nor no number. -/
def isFinite : Double → Bool
  | .finite _ _ => true
  | _ => false

end Double

end StepTrace
