import StepTrace.Number.Double

/-!
# Numbers

A number is a whole number of any size or a double. Arithmetic between two whole numbers is exact,
except that a quotient is the nearest double. As soon as one side is a double the other is turned
into the nearest double first. Results are brought to normal form: a double that is a whole number
becomes one, and a whole number beyond the largest double becomes an infinity. Comparison is exact
in every case.
-/

namespace StepTrace

/-- A whole number of any size or a double. -/
inductive Number where
  | int (value : Int)
  | float (value : Double)
deriving DecidableEq, Repr, Inhabited

/-- The four operators of arithmetic. -/
inductive Operator where
  | add
  | sub
  | mul
  | div
deriving DecidableEq, Repr

/-- The six comparisons. -/
inductive Comparison where
  | eq
  | ne
  | ge
  | le
  | gt
  | lt
deriving DecidableEq, Repr

namespace Operator

/-- The sign of an operator. -/
def toChar : Operator → Char
  | .add => '+'
  | .sub => '-'
  | .mul => '*'
  | .div => '/'

/-- The operator of a sign. -/
def ofChar? : Char → Option Operator
  | '+' => some .add
  | '-' => some .sub
  | '*' => some .mul
  | '/' => some .div
  | _ => none

end Operator

namespace Comparison

/-- Whether a comparison holds. Nothing is equal to or ordered with what is no number. -/
def holds : Comparison → Option Ordering → Bool
  | .eq, o => o == some .eq
  | .ne, o => o != some .eq
  | .ge, o => o == some .gt || o == some .eq
  | .le, o => o == some .lt || o == some .eq
  | .gt, o => o == some .gt
  | .lt, o => o == some .lt

end Comparison

namespace Number

/-- The number zero. -/
def zero : Number := .int 0

/-- Normal form: whole doubles become whole numbers, whole numbers that are too large infinities. -/
def normalize : Number → Number
  | .float x => match x.toInt? with
    | some n => .int n
    | none => .float x
  | .int n => if Double.largestInt < n.natAbs then .float (.infinite (n < 0)) else .int n

/-- The nearest double; a whole number may be too large for one. -/
def toDouble? : Number → Option Double
  | .int n => Double.ofInt? n
  | .float x => some x

/-- Below zero. -/
def isNegative : Number → Bool
  | .int n => n < 0
  | .float .nan => false
  | .float (.infinite negative) => negative
  | .float (.finite negative units) => negative && units != 0

/-- Equal to zero. -/
def isZero : Number → Bool
  | .int n => n == 0
  | .float x => x.isZero

/-! ## Arithmetic -/

/-- The nearest double to a quotient of whole numbers, unless it is too large. -/
def quotient? (a b : Int) : Option Double :=
  (Double.rounded ((a < 0) != (b < 0)) (a.natAbs * Double.one) b.natAbs).finite?

/-- An operator on two doubles. -/
def applyDouble : Operator → Double → Double → Double
  | .add => Double.add
  | .sub => Double.sub
  | .mul => Double.mul
  | .div => Double.div

/-- An operator on two numbers before the result is brought to normal form. Dividing by zero gives
the left side. A number too large for a double gives nothing. -/
def combine? (op : Operator) (left right : Number) : Option Number :=
  if op = .div ∧ right.isZero then some left
  else match op, left, right with
    | .add, .int a, .int b => some (.int (a + b))
    | .sub, .int a, .int b => some (.int (a - b))
    | .mul, .int a, .int b => some (.int (a * b))
    | .div, .int a, .int b => (quotient? a b).map .float
    | op, left, right => do
      let x ← left.toDouble?
      let y ← right.toDouble?
      return .float (applyDouble op x y)

/-- The sign of a result that is too large. -/
def overflowNegative (op : Operator) (left right : Number) : Bool :=
  match op with
  | .mul | .div => left.isNegative != right.isNegative
  | .add | .sub => left.isNegative

/-- An operator on two numbers, in normal form. What is too large becomes an infinity. -/
def apply (op : Operator) (left right : Number) : Number :=
  match combine? op left right with
  | some n => n.normalize
  | none => .float (.infinite (overflowNegative op left right))

/-- The operator with a sign on two numbers. An unknown sign leaves the left side as it is. -/
def applyBySign (sign : List Char) (left right : Number) : Number :=
  match sign with
  | [c] => (Operator.ofChar? c).elim left fun op => apply op left right
  | _ => left

/-! ## Comparison -/

/-- The order of a whole number and a double. -/
def compareIntDouble (n : Int) : Double → Option Ordering
  | .nan => none
  | .infinite negative => some (if negative then .gt else .lt)
  | .finite negative units => some (compare (n * Double.one) (Double.signed negative units))

/-- The order of two doubles. -/
def compareDoubles : Double → Double → Option Ordering
  | .nan, _ => none
  | _, .nan => none
  | .infinite s, .infinite t => some (compare (if s then 0 else 1) (if t then 0 else 1))
  | .infinite s, .finite _ _ => some (if s then .lt else .gt)
  | .finite _ _, .infinite t => some (if t then .gt else .lt)
  | .finite s a, .finite t b => some (compare (Double.signed s a) (Double.signed t b))

/-- The exact order of two numbers, unless one is no number. -/
def order? : Number → Number → Option Ordering
  | .int a, .int b => some (compare a b)
  | .int a, .float y => compareIntDouble a y
  | .float x, .int b => (compareIntDouble b x).map Ordering.swap
  | .float x, .float y => compareDoubles x y

/-- Whether a comparison holds between two numbers. -/
def compares (c : Comparison) (left right : Number) : Bool := c.holds (order? left right)

/-- The greatest whole number not above a number. What is infinite or no number counts as 0. -/
def floor : Number → Int
  | .int n => n
  | .float x => x.floor?.getD 0

end Number

end StepTrace
