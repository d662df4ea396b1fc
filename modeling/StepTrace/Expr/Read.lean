import StepTrace.Expr.Basic
import StepTrace.Text.Nesting

/-!
# Reading expressions

An operand is told by its form: a literal, `name.length` or one of its other spellings,
`len(name)`, `name[index]`, and a variable otherwise. An expression is cut at its first operator on
the top level. A plus or minus in front, or after another operator, an opening parenthesis or a
comma, is a sign and no operator. An expression without operator is an operand, its outer
parentheses taken away.
-/

namespace StepTrace

open CharClass

namespace Expr

/-! ## Operands -/

/-- The endings that ask for a length. -/
def lengthEndings : List Text :=
  [".length".toList, ".Length".toList, ".len()".toList, ".Count".toList]

/-- The name in `name.length` and its other spellings. -/
def lengthOf? (t : Text) : Option Text := do
  let (name, rest) ← t.name?
  if lengthEndings.contains rest then some name else none

/-- Not empty and on one line. -/
def isFilled (t : Text) : Bool := !t.isEmpty && !t.contains '\n'

/-- The name in `len(name)`. -/
def lenCall? (t : Text) : Option Text := do
  let inner ← Text.before? [')'] (← Text.after? "len(".toList t)
  if isFilled inner then some inner.trim else none

/-- The name and the index in `name[index]`. -/
def indexed? (t : Text) : Option (Text × Text) := do
  let (name, rest) ← t.name?
  let index ← Text.between? '[' ']' rest
  if isFilled index then some (name, index) else none

/-! ## Operators -/

/-- After this character a sign is an operator. -/
def endsOperand (c : Char) : Bool :=
  (Operator.ofChar? c).isNone && c != '(' && c != ','

/-- Cut at the first operator on the top level. The character before the cut that is not blank is
kept along the way; there is none at the start. -/
def cutFrom : Nesting → (previous : Option Char) → Text → Option (Text × Operator × Text)
  | _, _, [] => none
  | n, previous, c :: t =>
    let operator := if n.isOpen && previous.any endsOperand then Operator.ofChar? c else none
    match operator with
    | some op => some ([], op, t)
    | none =>
      let previous := if n.quote.isNone && isBlank c then previous else some c
      (cutFrom (n.step c) previous t).map fun (left, op, right) => (c :: left, op, right)

/-- The two sides of the first operator of a trimmed text, if both are there. -/
def cut? (t : Text) : Option (Text × Operator × Text) :=
  match cutFrom .start none t with
  | some (left, op, right) =>
    if left.trim.isEmpty || right.trim.isEmpty then none else some (left.trim, op, right.trim)
  | none => none

/-! ## Expressions -/

/-- Read an expression with the given reader for operands. -/
def readWith (operand : Text → Expr) (t : Text) : Expr :=
  let body := t.trim
  match Number.ofLiteral? body with
  | some n => .literal n
  | none =>
    match cut? body with
    | some (left, op, right) => .binary op (operand left) (operand right)
    | none => operand body.unwrap

/-- Read an operand in which at most `depth` index brackets stand inside each other. -/
def operandWithin : (depth : Nat) → Text → Expr
  | 0, t => .named t.trim
  | depth + 1, t =>
    let body := t.trim
    if body.isEmpty then .literal .zero
    else match Number.ofLiteral? body with
      | some n => .literal n
      | none =>
        match lengthOf? body, lenCall? body, indexed? body with
        | some name, _, _ => .length name body
        | none, some name, _ => .length name body
        | none, none, some (name, index) =>
          .element name (readWith (operandWithin depth) index) body
        | none, none, none => .named body

/-- Read an operand. Each bracket takes a character, so the length bounds their depth. -/
def operand (t : Text) : Expr := operandWithin (t.length + 1) t

/-- Read an expression. -/
def read (t : Text) : Expr := readWith operand t

/-! ## Lists -/

/-- Read the items of a list, which are operands. -/
def readItems (t : Text) : List Expr :=
  if t.isEmptyOrBlank then [] else (Text.splitTop [','] t).map operand

/-- Read a list between square brackets on one line. -/
def readList? (t : Text) : Option (List Expr) := do
  let inner ← Text.between? '[' ']' t.trim
  if inner.contains '\n' then none else some (readItems inner)

end Expr

end StepTrace
