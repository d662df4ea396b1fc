import StepTrace.Fault
import StepTrace.Store

/-!
# Expressions

An expression is a single operand or two operands with an operator between them; there is no
precedence to speak of. Operands are literals, variables, lengths and elements of lists. Reading one
never fails, and evaluating one gives a number: what cannot be understood is a variable of that very
name, and an unbound variable is 0.

The one fault is an index too large for a double. A store whose numbers are in normal form has none.
-/

namespace StepTrace

/-- An expression as it was read. Lengths and elements keep their whole text, since a name that is
bound to no list leaves a variable of that text. -/
inductive Expr where
  | literal (value : Number)
  | named (name : Text)
  | length (name whole : Text)
  | element (name : Text) (index : Expr) (whole : Text)
  | binary (op : Operator) (left right : Expr)
deriving DecidableEq, Repr, Inhabited

/-- The element at the floor of an index. Outside the list, and at an index that is infinite or no
number, it is 0. -/
def elementAt (items : List Value) (index : Number) : Except Fault Number :=
  match index.toDouble? with
  | none => .error (@Fault.tooLarge .index)
  | some x =>
    if x.isFinite ∧ 0 ≤ index.floor then
      .ok (match items[index.floor.toNat]? with
        | some v => v.toNumber
        | none => .zero)
    else .ok .zero

namespace Expr

/-- The value of an expression. -/
def eval (s : Store) : Expr → Except Fault Number
  | literal value => .ok value
  | named name => .ok (s.number name)
  | length name whole =>
    match (s.get? name).bind Value.length? with
    | some n => .ok (.int n)
    | none => .ok (s.number whole)
  | element name index whole =>
    match s.get? name with
    | some (.list items) => do elementAt items (← index.eval s)
    | _ => .ok (s.number whole)
  | binary op left right => do
    let a ← left.eval s
    let b ← right.eval s
    return Number.apply op a b

/-- The values of a list of expressions. -/
def evalAll (s : Store) (es : List Expr) : Except Fault (List Number) := es.mapM (eval s)

end Expr

end StepTrace
