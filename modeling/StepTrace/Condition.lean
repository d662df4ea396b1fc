import StepTrace.Expr.Read

/-!
# Conditions

A condition is a comparison of two expressions, or one of the words for true and false. Outer
parentheses do not count. The left side is the shortest one that a comparison and a right side can
follow, and of two comparisons at the same place the longer is tried first. Anything else is false.
-/

namespace StepTrace

/-- A condition as it was read. -/
inductive Condition where
  | constant (value : Bool)
  | compares (c : Comparison) (left right : Expr)
deriving DecidableEq, Repr, Inhabited

namespace Condition

/-- The comparisons in the order in which they are tried. -/
def signs : List (Text × Comparison) :=
  [("==".toList, .eq), ("!=".toList, .ne), (">=".toList, .ge), ("<=".toList, .le),
   (">".toList, .gt), ("<".toList, .lt)]

/-- Whether the comparison with a sign holds between two numbers. An unknown sign never does. -/
def holdsBySign (sign : Text) (left right : Number) : Bool :=
  match signs.lookup sign with
  | some c => Number.compares c left right
  | none => false

/-- The comparison in front of a text and its right side: the first sign with something behind it,
all on one line. -/
def comparisonAt? (t : Text) : Option (Comparison × Text) :=
  signs.findSome? fun (sign, c) =>
    match Text.after? sign t with
    | some rest =>
      if Expr.isFilled rest.trimLeft then some (c, rest.trimLeft) else none
    | none => none

/-- Cut at the first comparison that has a left side. -/
def cut? : Text → Option (Text × Comparison × Text)
  | [] => none
  | c :: t =>
    if c = '\n' then none
    else match comparisonAt? (Text.trimLeft t) with
      | some (comparison, right) => some ([c], comparison, right)
      | none => (cut? t).map fun (left, comparison, right) => (c :: left, comparison, right)

/-- Read a condition. -/
def read (t : Text) : Condition :=
  let body := t.unwrap
  if body = "true".toList ∨ body = "True".toList then .constant true
  else if body = "false".toList ∨ body = "False".toList then .constant false
  else match cut? body with
    | some (left, c, right) => .compares c (Expr.read left) (Expr.read right)
    | none => .constant false

/-- Whether a condition holds. -/
def eval (s : Store) : Condition → Except Fault Bool
  | constant value => .ok value
  | compares c left right => do
    let a ← left.eval s
    let b ← right.eval s
    return Number.compares c a b

end Condition

end StepTrace
