import Mathlib.Logic.Relation
import Mathlib.Tactic.Common
import StepTrace.Program.Run
import StepTrace.Proofs.Fault
import StepTrace.Proofs.Trace.Progression

/-!
# Actions

Every step of a run does the same three things: it takes a snapshot, changes the variables or the
output, and records an entry. An `Action` is what varies: nothing changes, a name is bound, a name
is bound to the result of a computation, or a line is printed. So the computation that an entry
shows and the line that it shows cannot disagree with what was changed.

A statement is an action found from the variables alone (`Statement.action`), which is then
performed (`Statement.run_eq`). A loop over known values is a row of actions that bind its variable
to them, in turn, and that row is found from the variables too (`Loop.sweep`,
`Loop.run_eq_iterate`).
-/

namespace StepTrace

/-! ## Results of a run -/

/-- The state inside of so many silent parts. -/
def Recorder.withMuted (r : Recorder) (muted : Nat) : Recorder := { r with muted := muted }

namespace Run

/-- The result of a run from a state, and the state at its end. -/
def exec (x : Run α) (r : Recorder) : Except Stop α × Recorder := x.run.run r

theorem ext {x y : Run α} (h : ∀ r, x.exec r = y.exec r) : x = y := funext h

@[simp] theorem exec_pure (a : α) (r : Recorder) : exec (pure a) r = (.ok a, r) := rfl

@[simp] theorem exec_throw (e : Stop) (r : Recorder) :
    exec (throw e : Run α) r = (.error e, r) := rfl

theorem exec_bind (x : Run α) (f : α → Run β) (r : Recorder) :
    (x >>= f).exec r = match x.exec r with
      | (.ok a, r') => (f a).exec r'
      | (.error e, r') => (.error e, r') := by
  show (ExceptT.bindCont f (x.exec r).1 : StateM Recorder (Except Stop β)) (x.exec r).2 = _
  rcases x.exec r with ⟨_ | _, r'⟩ <;> rfl

theorem exec_bind_ok {x : Run α} {r r' : Recorder} {a : α} (h : x.exec r = (.ok a, r'))
    (f : α → Run β) : (x >>= f).exec r = (f a).exec r' := by
  rw [exec_bind, h]

@[simp] theorem exec_get (r : Recorder) : (get : Run Recorder).exec r = (.ok r, r) := rfl

@[simp] theorem exec_lift_ok (a : α) (r : Recorder) : (lift (.ok a)).exec r = (.ok a, r) := rfl

@[simp] theorem exec_store (r : Recorder) : store.exec r = (.ok r.store, r) := rfl

@[simp] theorem exec_snapshot (r : Recorder) : snapshot.exec r = (.ok r.snapshot, r) := rfl

/-- A run that takes a snapshot and computes something from its variables. -/
theorem exec_snapshot_lift (find : Store → Except Fault α) (f : Snapshot → α → Run β)
    (r : Recorder) : (do let before ← snapshot; f before (← lift (find before.store))).exec r =
      match find r.store with
      | .ok a => (f r.snapshot a).exec r
      | .error fault => (.error (.fault fault), r) := by
  rw [exec_bind_ok (exec_snapshot r), exec_bind]
  show (match (lift (find r.store)).exec r with
    | (.ok a, r') => (f r.snapshot a).exec r'
    | (.error e, r') => (.error e, r')) = _
  cases find r.store <;> rfl

theorem exec_silently (part : Run Unit) (r : Recorder) :
    (silently part).exec r =
      let (res, r') := part.exec (r.withMuted (r.muted + 1))
      (res, r'.withMuted (r'.muted - 1)) := rfl

theorem exec_record (limits : Limits) (line : Text) (note : Note) (before : Snapshot)
    (operation : Option Operation) (output : Option Text) (r : Recorder) :
    (record limits line note before operation output).exec r =
      if r.muted ≠ 0 then (.ok (), r)
      else if limits.entries ≤ r.trace.size then (.error .limit, r)
      else (.ok (), { r with
        trace := r.trace.push
          ⟨r.trace.size + 1, line, note, before, r.snapshot, operation, output⟩ }) := by
  unfold record
  rw [exec_bind_ok (exec_get r)]
  split_ifs with hm hl
  · rfl
  · rfl
  · rfl

end Run

/-! ## Actions -/

/-- What a step does, with the note of its entry. -/
inductive Action where
  /-- Nothing changes. -/
  | idle (note : Note)
  /-- A name is bound. -/
  | bind (name : Text) (value : Value) (note : Note)
  /-- A name is bound to the result of a computation. -/
  | compute (operation : Operation) (note : Note)
  /-- A line is printed. -/
  | print (line : Text) (note : Note)

namespace Action

/-- The note of the entry. -/
def note : Action → Note
  | idle note => note
  | bind _ _ note => note
  | compute _ note => note
  | print _ note => note

/-- The computation that the entry shows. -/
def operation : Action → Option Operation
  | compute operation _ => some operation
  | _ => none

/-- The printed line that the entry shows. -/
def output : Action → Option Text
  | print line _ => some line
  | _ => none

/-- The variables after the action. -/
def store : Action → Store → Store
  | bind name value _, s => s.insert name value
  | compute operation _, s => s.insert operation.target (.num operation.result)
  | _, s => s

/-- The output after the action. -/
def outputs : Action → Transcript → Transcript
  | print line _, o => o.push line
  | _, o => o

/-- The variables and the output after the action. -/
def apply (a : Action) (s : Snapshot) : Snapshot := ⟨a.store s.store, a.outputs s.outputs⟩

end Action

namespace Recorder

/-- The state after an action that is not recorded. -/
def perform (r : Recorder) (a : Action) : Recorder :=
  { r with store := a.store r.store, outputs := a.outputs r.outputs }

/-- The entry of an action on a line. -/
def entry (r : Recorder) (line : Text) (a : Action) : Entry :=
  ⟨r.trace.size + 1, line, a.note, r.snapshot, a.apply r.snapshot, a.operation, a.output⟩

/-- The state after an action that is recorded. -/
def performRecorded (r : Recorder) (line : Text) (a : Action) : Recorder :=
  { r.perform a with trace := r.trace.push (r.entry line a) }

end Recorder

/-- Perform an action on a line and record it. -/
def Action.run (limits : Limits) (line : Text) (a : Action) : Run Unit := do
  let before ← Run.snapshot
  modify fun r => r.perform a
  Run.record limits line a.note before a.operation a.output

theorem Action.exec_run (limits : Limits) (line : Text) (a : Action) (r : Recorder) :
    (a.run limits line).exec r =
      if r.muted ≠ 0 then (.ok (), r.perform a)
      else if limits.entries ≤ r.trace.size then (.error .limit, r.perform a)
      else (.ok (), r.performRecorded line a) :=
  Run.exec_record limits line a.note r.snapshot a.operation a.output (r.perform a)

theorem Action.exec_run_unmuted (limits : Limits) (line : Text) (a : Action) {r : Recorder}
    (hm : r.muted = 0) : (a.run limits line).exec r =
      if limits.entries ≤ r.trace.size then (.error .limit, r.perform a)
      else (.ok (), r.performRecorded line a) := by
  rw [Action.exec_run, if_neg (not_not.2 hm)]

/-- An action before which the variables are looked at and which may be a fault. -/
def Run.attempt (limits : Limits) (line : Text) (find : Store → Except Fault Action) :
    Run Unit := do
  let a ← Run.lift (find (← Run.store))
  a.run limits line

theorem Run.exec_attempt (limits : Limits) (line : Text) (find : Store → Except Fault Action)
    (r : Recorder) : (Run.attempt limits line find).exec r = match find r.store with
      | .ok a => (a.run limits line).exec r
      | .error f => (.error (.fault f), r) := by
  unfold Run.attempt
  rw [Run.exec_bind_ok (Run.exec_store r), Run.exec_bind]
  cases find r.store <;> rfl

/-! ## Statements -/

namespace Statement

/-- A statement that was read has one of the forms, or it is none of them. -/
theorem read_cases {d : Dialect} {line : Text} {st : Statement} (h : read d line = st) :
    st = other ∨ update? (body line) = some st ∨ step? (body line) = some st ∨
      list? d (body line) = some st ∨ binding? d (body line) = some st ∨
      print? d (body line) = some st := by
  unfold read at h
  dsimp only at h
  generalize body line = t at h ⊢
  cases hread : (update? t <|> step? t <|> list? d t <|> binding? d t <|> print? d t) with
  | none =>
    rw [hread] at h
    exact .inl h.symm
  | some found =>
    rw [hread] at h
    obtain rfl : found = st := h
    simp only [Option.orElse_eq_orElse, Option.orElse_eq_or, Option.or_eq_some_iff] at hread
    exact .inr (by tauto)

theorem compute_operation {s : Store} {target : Text} {e : Expr} {n : Number} {o : Operation}
    (h : compute s target e = .ok (n, some o)) :
    o.target = target ∧ Value.num n = .num o.result := by
  cases e with
  | binary op left right =>
    obtain ⟨a, -, h⟩ := bind_eq_ok.1 h
    obtain ⟨b, -, h⟩ := bind_eq_ok.1 h
    cases h
    exact ⟨rfl, rfl⟩
  | _ =>
    obtain ⟨a, -, h⟩ := bind_eq_ok.1 h
    cases h

/-- A computation that a binding shows is what it binds its target to. -/
theorem evaluate_operation {s : Store} {target : Text} {declares : Bool} {source : Source}
    {value : Value} {label : Label} {o : Operation}
    (h : evaluate s target declares source = .ok (value, label, some o)) :
    o.target = target ∧ value = .num o.result := by
  cases source with
  | quoted t => cases h
  | fold items init =>
    obtain ⟨start, -, h⟩ := bind_eq_ok.1 h
    obtain ⟨total, -, h⟩ := bind_eq_ok.1 h
    cases h
  | element whole expr =>
    simp only [evaluate] at h
    cases hc : copied? s whole with
    | some v =>
      rw [hc] at h
      cases h
    | none =>
      rw [hc] at h
      obtain ⟨n, -, h⟩ := bind_eq_ok.1 h
      cases h
  | computed whole expr =>
    simp only [evaluate] at h
    cases hc : copied? s whole with
    | some v =>
      rw [hc] at h
      cases h
    | none =>
      rw [hc] at h
      obtain ⟨⟨n, computed⟩, hn, h⟩ := bind_eq_ok.1 h
      cases h
      exact compute_operation hn

/-- What a statement does with given variables. -/
def action (s : Store) : Statement → Except Fault Action
  | update target op right label => do
    return .compute (operation target op (s.number target) (← right.eval s)) (.plain label)
  | list target items label => do
    return .bind target (.list ((← Expr.evalAll s items).map .num)) (.plain label)
  | declare target => .ok (.bind target .zero (.plain .declaration))
  | bind target source declares => do
    match ← evaluate s target declares source with
    | (_, label, some o) => return .compute o (.plain label)
    | (value, label, none) => return .bind target value (.plain label)
  | print style args => do return .print (← style.render s args) (.plain .output)
  | other => .ok (.idle (.plain .execution))

/-- Running a statement is finding its action and performing it. -/
theorem run_eq (limits : Limits) (line : Text) (st : Statement) :
    st.run limits line = Run.attempt limits line st.action := by
  refine Run.ext fun r => ?_
  rw [Run.exec_attempt]
  cases st with
  | update target op right label =>
    refine (Run.exec_snapshot_lift (right.eval ·) _ r).trans ?_
    simp only [action]
    cases right.eval r.store <;> rfl
  | list target items label =>
    refine (Run.exec_snapshot_lift (Expr.evalAll · items) _ r).trans ?_
    simp only [action]
    cases Expr.evalAll r.store items <;> rfl
  | declare target => rfl
  | bind target source declares =>
    refine (Run.exec_snapshot_lift (evaluate · target declares source) _ r).trans ?_
    simp only [action]
    cases h : evaluate r.store target declares source with
    | error f => rfl
    | ok found =>
      obtain ⟨value, label, _ | o⟩ := found
      · rfl
      · obtain ⟨rfl, rfl⟩ := evaluate_operation h
        rfl
  | print style args =>
    refine (Run.exec_snapshot_lift (style.render · args) _ r).trans ?_
    simp only [action]
    cases style.render r.store args <;> rfl
  | other => rfl

end Statement

/-! ## Conditions -/

namespace Condition

theorem exec_test (c : Condition) (r : Recorder) : c.test.exec r = match c.eval r.store with
    | .ok b => (.ok b, r)
    | .error f => (.error (.fault f), r) := by
  unfold test
  rw [Run.exec_bind_ok (Run.exec_store r)]
  cases c.eval r.store <;> rfl

/-- Deciding a clause is testing its condition and recording the answer. -/
theorem decide_eq (limits : Limits) (line : Text) (c : Condition) :
    c.decide limits line = do
      let holds ← c.test
      (Action.idle (.condition holds)).run limits line
      return holds := by
  refine Run.ext fun r => ?_
  unfold decide
  rw [Run.exec_bind_ok (Run.exec_snapshot r), Run.exec_bind, Run.exec_bind, exec_test]
  cases c.eval r.store with
  | error f => rfl
  | ok b => rfl

end Condition

/-! ## Loops -/

/-- The values that a loop over known values runs through. -/
inductive Sweep where
  /-- The whole numbers of a progression. -/
  | numbers (start stop step : Int) (step_ne_zero : step ≠ 0)
  /-- The items of a list. -/
  | items (values : List Value)

namespace Sweep

/-- The number of all values. -/
def total : Sweep → Nat
  | numbers start stop step _ => Progression.total start stop step
  | items values => values.length

/-- The values that a run with a limit on its entries visits at most. -/
def visited (limit : Int) : Sweep → List Value
  | numbers start stop step _ =>
    (Progression.values start step (min (Progression.total start stop step : Int) limit).toNat).map
      fun n => .num (.int n)
  | items values => values

end Sweep

namespace Loop

/-- The variable of a loop over known values. -/
def item : Loop → Text
  | range item _ => item
  | span item _ _ _ => item
  | each item _ => item
  | guarded _ _ _ _ => []

/-- The numbers between the bounds of a range: up to the only bound, between two of them, or in
steps given by the third one, which must not be zero. -/
def rangeSweep : List Int → Sweep
  | [stop] => .numbers 0 stop 1 Int.one_ne_zero
  | [start, stop] => .numbers start stop 1 Int.one_ne_zero
  | start :: stop :: step :: _ =>
    if h : step = 0 then .items [] else .numbers start stop step h
  | [] => .items []

/-- The values that a loop runs through with given variables. A loop with a condition has none. -/
def sweep (s : Store) : Loop → Except Fault Sweep
  | range _ bounds => do return rangeSweep ((← Expr.evalAll s bounds).map Number.floor)
  | span _ low high inclusive => do
    let low ← low.eval s
    let high ← high.eval s
    return .numbers low.floor (if inclusive then high.floor + 1 else high.floor) 1 Int.one_ne_zero
  | each _ items =>
    match s.get? items with
    | some (.list values) => .ok (.items values)
    | _ => .ok (.items [])
  | guarded _ _ _ _ => .ok (.items [])

/-- The loop is bounded by a condition. -/
def isGuarded : Loop → Bool
  | guarded _ _ _ _ => true
  | _ => false

theorem iterateNumbers_eq (limits : Limits) (line item : Text) (start stop step : Int)
    (h : step ≠ 0) (body : Run Unit) : iterateNumbers limits line item start stop step body =
      iterate limits line item (Sweep.numbers start stop step h).total body 1
        ((Sweep.numbers start stop step h).visited limits.entries) := by
  refine Run.ext fun r => ?_
  unfold iterateNumbers
  rw [Progression.bounded_of_ne_zero start stop _ h, Run.exec_bind_ok (Run.exec_lift_ok _ r)]
  rfl

/-- A round over known values binds the variable and runs the body. -/
theorem iterate_cons (limits : Limits) (line item : Text) (total : Nat) (body : Run Unit)
    (position : Nat) (value : Value) (rest : List Value) :
    iterate limits line item total body position (value :: rest) = (do
      (Action.bind item value (.progress item value.display position total)).run limits line
      body
      iterate limits line item total body (position + 1) rest) :=
  rfl

/-- A round of a loop with a condition tests it, records the round, and runs body and update. -/
theorem repeatWhile_succ (limits : Limits) (line : Text) (cond : Condition) (counter : Option Text)
    (body update : Run Unit) (left position : Nat) :
    repeatWhile limits line cond counter body update (left + 1) position = (do
      if ← cond.test then
        Run.attempt limits line fun s => .ok (.idle (roundNote s counter position))
        body
        update
        repeatWhile limits line cond counter body update left (position + 1)) :=
  rfl

/-- A loop over known values finds them and runs through them. -/
theorem run_eq_iterate (limits : Limits) (line : Text) (body : Run Unit) {head : Loop}
    (h : head.isGuarded = false) : head.run limits line body = (do
      let w ← Run.lift (head.sweep (← Run.store))
      iterate limits line head.item w.total body 1 (w.visited limits.entries)) := by
  refine Run.ext fun r => ?_
  rw [Run.exec_bind_ok (Run.exec_store r)]
  cases head with
  | range item bounds =>
    simp only [run, sweep]
    rw [Run.exec_bind_ok (Run.exec_store r)]
    cases Expr.evalAll r.store bounds with
    | error f => rfl
    | ok numbers =>
      refine (Run.exec_bind_ok (Run.exec_lift_ok numbers r) _).trans ?_
      refine Eq.trans ?_ (Run.exec_bind_ok (Run.exec_lift_ok (rangeSweep _) r) _).symm
      generalize numbers.map Number.floor = floors
      rcases floors with _ | ⟨start, _ | ⟨stop, _ | ⟨step, rest⟩⟩⟩
      · rfl
      · exact congrArg (Run.exec · r) (iterateNumbers_eq ..)
      · exact congrArg (Run.exec · r) (iterateNumbers_eq ..)
      · by_cases hs : step = 0
        · simp only [rangeSweep, if_pos hs, dif_pos hs]
          rfl
        · simp only [rangeSweep, if_neg hs, dif_neg hs]
          exact congrArg (Run.exec · r) (iterateNumbers_eq ..)
  | span item low high inclusive =>
    simp only [run, sweep]
    rw [Run.exec_bind_ok (Run.exec_store r)]
    cases low.eval r.store with
    | error f => rfl
    | ok a =>
      refine (Run.exec_bind_ok (Run.exec_lift_ok a r) _).trans ?_
      cases high.eval r.store with
      | error f => rfl
      | ok b =>
        refine (Run.exec_bind_ok (Run.exec_lift_ok b r) _).trans ?_
        refine Eq.trans ?_ (Run.exec_bind_ok (Run.exec_lift_ok (Sweep.numbers ..) r) _).symm
        exact congrArg (Run.exec · r) (iterateNumbers_eq ..)
  | each item items =>
    simp only [run, sweep]
    rw [Run.exec_bind_ok (Run.exec_store r)]
    rcases r.store.get? items with _ | _ | _ | _ | _ | values <;> rfl
  | guarded init cond update counter => cases h

end Loop

end StepTrace
