import StepTrace.Condition
import StepTrace.Dialect.Basic
import StepTrace.Trace.Run

/-!
# Statements

A statement is recognised once, by the first form that fits: an update of a variable, a step up or
down by one, a list, a binding, a print call. Whatever else a line says, it is recorded as a step
without effect.

Every statement records one entry, after it has changed the variables or the output.
-/

namespace StepTrace

open Pattern

/-- What a variable is bound to. -/
inductive Source where
  /-- A quoted text. -/
  | quoted (text : Text)
  /-- The sum of a list, from a start on. -/
  | fold (items : Text) (init : Expr)
  /-- An element of a list. -/
  | element (whole : Text) (expr : Expr)
  /-- Any other expression. -/
  | computed (whole : Text) (expr : Expr)
deriving DecidableEq, Repr

/-- A statement as it was recognised. -/
inductive Statement where
  /-- Combine a variable with a value. -/
  | update (target : Text) (op : Operator) (right : Expr) (label : Label)
  /-- Bind a list. -/
  | list (target : Text) (items : List Expr) (label : Label)
  /-- Declare a variable without a value. -/
  | declare (target : Text)
  /-- Bind a value. -/
  | bind (target : Text) (source : Source) (declares : Bool)
  /-- Print a line. -/
  | print (style : PrintStyle) (args : Text)
  /-- Anything else. -/
  | other
deriving DecidableEq, Repr

namespace Statement

/-! ## Forms -/

/-- An update such as `x += e`. -/
def updateForm : Pattern :=
  all [capture .name name, gap, capture .operator (oneOf "+-*/"), text "=", gap,
    capture .expr filled, textEnd]

/-- Two plus or two minus signs. -/
def stepMarker : Pattern := capture .marker (texts ["++", "--"])

/-- A step with its marker behind the name or before it. -/
def stepForms : List (Pattern × Unit) :=
  [(all [capture .name name, gap, stepMarker, textEnd], ()),
   (all [stepMarker, gap, capture .name name, textEnd], ())]

/-- An element of a list, white space allowed before the bracket. -/
def elementForm : Pattern := all [name, gap, text "[", filled, text "]", textEnd]

/-- The fold of a list into a sum. -/
def foldForm : Pattern :=
  all [capture .items name, text ".reduce(", filled, text ",", gap,
    capture .init (several (noneOf ",()")), text ")", textEnd]

/-! ## Reading -/

/-- The operator at the front of a text. -/
def operatorOf (t : Text) : Operator := (t.head?.bind Operator.ofChar?).getD .add

/-- The sum that a text folds a list into, in the dialects that have it. -/
def fold? (d : Dialect) (t : Text) : Option Source :=
  if d.folds then
    (foldForm.match? t).map fun f => .fold (f.getD .items) (Expr.read (f.getD .init))
  else none

/-- Read what a variable is bound to. -/
def readSource (d : Dialect) (t : Text) : Source :=
  let body := t.trim
  match body.unquote? with
  | some text => .quoted text
  | none =>
    (fold? d body).getD <|
      if elementForm.matchesFront body then .element body (Expr.operand body)
      else .computed body (Expr.read body)

/-- An update, if the text is one. -/
def update? (t : Text) : Option Statement :=
  (updateForm.match? t).map fun f =>
    .update (f.getD .name) (operatorOf (f.getD .operator)) (Expr.read (f.getD .expr))
      .updateVariable

/-- A step up or down by one, if the text is one. -/
def step? (t : Text) : Option Statement :=
  (firstMatch? stepForms t).map fun (f, _) =>
    let up := f.getD .marker == ['+', '+']
    .update (f.getD .name) (if up then .add else .sub) (.literal (.int 1))
      (if up then .increment else .decrement)

/-- A list, if the text is one. -/
def list? (d : Dialect) (t : Text) : Option Statement :=
  (firstMatch? d.lists t).map fun (f, label) =>
    .list (f.getD .name) (Expr.readItems (f.getD .items)) label

/-- A binding, if the text is one. -/
def binding? (d : Dialect) (t : Text) : Option Statement :=
  (firstMatch? d.bindings t).map fun (f, declares) =>
    match f.get? .expr with
    | some expr => .bind (f.getD .name) (readSource d expr) declares
    | none => .declare (f.getD .name)

/-- A print call, if the text is one. -/
def print? (d : Dialect) (t : Text) : Option Statement :=
  (firstMatch? d.prints t).map fun (f, style) => .print style (f.getD .args)

/-- The text of a statement without the white space and the semicolons around it. -/
def body (t : Text) : Text := (Text.dropTail (· == ';') t.trim).trim

/-- Read a statement: the first form that fits. -/
def read (d : Dialect) (t : Text) : Statement :=
  let t := body t
  (update? t <|> step? t <|> list? d t <|> binding? d t <|> print? d t).getD .other

/-- Read the statements between the commas of a clause. -/
def readAll (d : Dialect) (clause : Text) : List Statement :=
  (Text.splitParts [','] clause).map (read d)

/-! ## Evaluating -/

/-- The sum of numbers, each added as it is. -/
def sum : Number → List Value → Except Fault Number
  | total, [] => .ok total
  | total, v :: rest =>
    match Number.combine? .add total v.toNumber with
    | some total => sum total rest
    | none => .error (@Fault.tooLarge .total)

/-- A list or a text under a name, which is bound as it is. -/
def copied? (s : Store) (name : Text) : Option Value :=
  match s.get? name with
  | some (.list items) => some (.list items)
  | some (.text t) => some (.text t)
  | _ => none

/-- The label of an assignment. -/
def assigned (declares : Bool) : Label :=
  if declares then .declarationAssignment else .assignment

/-- The label of an assignment of an element. -/
def assignedElement (declares : Bool) : Label :=
  if declares then .declarationAssignmentFromArray else .assignmentFromArray

/-- A computation with its operands written out. -/
def operation (target : Text) (op : Operator) (left right : Number) : Operation :=
  ⟨left.display, [op.toChar], right.display, Number.apply op left right, target⟩

/-- What a value computed from an expression is, and the operation it took. -/
def compute (s : Store) (target : Text) : Expr → Except Fault (Number × Option Operation)
  | .binary op left right => do
    let a ← left.eval s
    let b ← right.eval s
    return (Number.apply op a b, some (operation target op a b))
  | e => do return (← e.eval s, none)

/-- The value to bind, the label of the step, and the operation it took. -/
def evaluate (s : Store) (target : Text) (declares : Bool) :
    Source → Except Fault (Value × Label × Option Operation)
  | .quoted text => .ok (.text text, .stringAssignment, none)
  | .fold items init => do
    let start ← init.eval s
    let values := match s.get? items with
      | some (.list values) => values
      | _ => []
    return (.num (← sum start values).normalize, .reduceAssignment, none)
  | .element whole expr =>
    match copied? s whole with
    | some v => .ok (v, assigned declares, none)
    | none => do return (.num (← expr.eval s), assignedElement declares, none)
  | .computed whole expr =>
    match copied? s whole with
    | some v => .ok (v, assigned declares, none)
    | none => do
      let (n, operation) ← compute s target expr
      return (.num n, assigned declares, operation)

/-! ## Running -/

/-- Run a statement that stands on a line. -/
def run (limits : Limits) (line : Text) : Statement → Run Unit
  | update target op right label => do
    let before ← Run.snapshot
    let b ← Run.lift (right.eval before.store)
    let o := operation target op (before.store.number target) b
    Run.bind target (.num o.result)
    Run.record limits line (.plain label) before (some o) none
  | list target items label => do
    let before ← Run.snapshot
    let values ← Run.lift (Expr.evalAll before.store items)
    Run.bind target (.list (values.map .num))
    Run.record limits line (.plain label) before none none
  | declare target => do
    let before ← Run.snapshot
    Run.bind target .zero
    Run.record limits line (.plain .declaration) before none none
  | bind target source declares => do
    let before ← Run.snapshot
    let (value, label, operation) ← Run.lift (evaluate before.store target declares source)
    Run.bind target value
    Run.record limits line (.plain label) before operation none
  | print style args => do
    let before ← Run.snapshot
    let shown ← Run.lift (style.render before.store args)
    Run.print shown
    Run.record limits line (.plain .output) before none (some shown)
  | other => do
    let before ← Run.snapshot
    Run.record limits line (.plain .execution) before none none

/-- Run statements one after the other without recording them. -/
def runSilently (limits : Limits) (statements : List Statement) : Run Unit :=
  Run.silently (statements.forM (run limits []))

end Statement

end StepTrace
