import StepTrace.Program.Read
import StepTrace.Trace.Progression

/-!
# Running programs

Running follows the structure of the program. A loop over known values runs its body once for each,
and at most as often as entries may be recorded. A loop with a condition is bounded by the limit of
rounds. The body of a loop is handed over as a computation, so the loops themselves do not know
about programs.
-/

namespace StepTrace

/-- The value of a condition now. -/
def Condition.test (c : Condition) : Run Bool := do Run.lift (c.eval (← Run.store))

/-- Evaluate the condition of a clause and record it. -/
def Condition.decide (limits : Limits) (line : Text) (c : Condition) : Run Bool := do
  let before ← Run.snapshot
  let holds ← c.test
  Run.record limits line (.condition holds) before none none
  return holds

namespace Loop

/-- Run the body once for each value, from a position on. -/
def iterate (limits : Limits) (line item : Text) (total : Nat) (body : Run Unit) :
    (position : Nat) → List Value → Run Unit
  | _, [] => pure ()
  | position, value :: rest => do
    let before ← Run.snapshot
    Run.bind item value
    Run.record limits line (.progress item value.display position total) before none none
    body
    iterate limits line item total body (position + 1) rest

/-- Run the body once for each whole number of a progression. -/
def iterateNumbers (limits : Limits) (line item : Text) (start stop step : Int)
    (body : Run Unit) : Run Unit := do
  let (values, total) ← Run.lift (Progression.bounded start stop step limits.entries)
  iterate limits line item total body 1 (values.map fun n => .num (.int n))

/-- The note of a round. -/
def roundNote (s : Store) (counter : Option Text) (position : Nat) : Note :=
  match counter with
  | some name => .loopValue name ((s.get? name).getD .zero).display
  | none => .iteration position

/-- Run the body while a condition holds, at most `left` times. -/
def repeatWhile (limits : Limits) (line : Text) (cond : Condition) (counter : Option Text)
    (body update : Run Unit) : (left position : Nat) → Run Unit
  | 0, _ => pure ()
  | left + 1, position => do
    if ← cond.test then
      let before ← Run.snapshot
      Run.record limits line (roundNote before.store counter position) before none none
      body
      update
      repeatWhile limits line cond counter body update left (position + 1)

/-- Run a loop with the given body. -/
def run (limits : Limits) (line : Text) (body : Run Unit) : Loop → Run Unit
  | range item bounds => do
    let numbers ← Run.lift (Expr.evalAll (← Run.store) bounds)
    match numbers.map Number.floor with
    | [stop] => iterateNumbers limits line item 0 stop 1 body
    | [start, stop] => iterateNumbers limits line item start stop 1 body
    | start :: stop :: step :: _ =>
      if step = 0 then pure () else iterateNumbers limits line item start stop step body
    | [] => pure ()
  | span item low high inclusive => do
    let s ← Run.store
    let low := (← Run.lift (low.eval s)).floor
    let high := (← Run.lift (high.eval s)).floor
    iterateNumbers limits line item low (if inclusive then high + 1 else high) 1 body
  | each item items => do
    match (← Run.store).get? items with
    | some (.list values) => iterate limits line item values.length body 1 values
    | _ => pure ()
  | guarded init cond update counter => do
    Statement.runSilently limits init
    repeatWhile limits line cond counter body (Statement.runSilently limits update)
      limits.rounds.toNat 1

end Loop

/-- Evaluate a clause that leads back to itself. As long as it does not hold it is recorded again,
which the limit ends; once it holds nothing more happens. -/
def circle (limits : Limits) (line : Text) (cond : Condition) : (left : Nat) → Run Unit
  | 0 => throw .stalled
  | left + 1 => do
    if ← cond.decide limits line then throw .stalled else circle limits line cond left

mutual

/-- Run the steps of a program on lines before `stop`. -/
def Program.run (limits : Limits) : Program → (stop : Nat) → Run Unit
  | .done, _ => pure ()
  | .plain index line statement rest, stop =>
    if index < stop then do
      statement.run limits line
      rest.run limits stop
    else pure ()
  | .branch index chain rest, stop =>
    if index < stop then do
      chain.run limits false
      rest.run limits stop
    else pure ()
  | .loop index line head body bodyStop rest, stop =>
    if index < stop then do
      head.run limits line (body.run limits bodyStop)
      rest.run limits stop
    else pure ()

/-- Run the clauses of a conditional, knowing whether one was taken. -/
def Chain.run (limits : Limits) : Chain → (taken : Bool) → Run Unit
  | .finished, _ => pure ()
  | .clause line cond body stop next, taken =>
    if taken then next.run limits true
    else do
      if ← cond.decide limits line then
        body.run limits stop
        next.run limits true
      else next.run limits false
  | .otherwise body stop, taken => if taken then pure () else body.run limits stop
  | .malformed, _ => throw (.fault .noCondition)
  | .circular line cond, taken =>
    if taken then throw .stalled else circle limits line cond (limits.entries.toNat + 1)

end

/-- The outcome of a whole run. -/
inductive Outcome where
  | trace (entries : List Entry)
  | fault (cause : Fault)
  | stalled
deriving Repr

/-- Run a program of so many lines from the start. The limit of entries ends a run and is no fault.
-/
def Program.outcome (limits : Limits) (p : Program) (count : Nat) : Outcome :=
  match (p.run limits count).run.run (Recorder.start .empty) with
  | (.ok _, r) => .trace r.trace.toList
  | (.error .limit, r) => .trace r.trace.toList
  | (.error (.fault f), _) => .fault f
  | (.error .stalled, _) => .stalled

/-- The trace of a snippet in a dialect. -/
def Dialect.trace (d : Dialect) (limits : Limits) (source : Text) : Outcome :=
  let (program, count) := Program.read d source
  program.outcome limits count

end StepTrace
