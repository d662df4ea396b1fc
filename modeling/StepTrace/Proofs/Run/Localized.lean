import Mathlib.Data.List.Forall2
import StepTrace.Language
import StepTrace.Proofs.Message.Note
import StepTrace.Proofs.Pattern.Reach
import StepTrace.Proofs.Program.Read

/-!
# Runs in a language

A run keeps its notes as data. A localized run looks every message up in its language as soon as it
is needed, also inside of silent parts where nothing is recorded, and stops if a message lacks an
argument (`Action.runIn`). What it records are words.

The language has no influence on anything but these words. The localized run of a program is the
run of the program with its notes written out at the end (`Program.localizes_runIn`), for every
program whose notes can be written (`Discipline.worded`), and every program that is read is one of
them. So two localized runs of a snippet end in the same way, and their traces differ in words only
(`Dialect.traceIn_sameButWords`).
-/

namespace StepTrace

/-! ## Looking up a note -/

/-- A label whose texts have no places for arguments. -/
def Label.isBare (label : Label) : Bool :=
  [Locale.english, Locale.spanish].all fun l => (label.template l).all fun
    | .text _ => true
    | .argument _ => false

namespace Note

/-- Look the message of a note up. The word for a truth value is a message of its own. -/
def translated (l : Locale) : Note → Except Fault Text
  | plain label => translate l label.key.toList []
  | condition holds => do
    let result ← translate l (truth holds).key.toList []
    translate l Label.condition.key.toList [("result".toList, result)]
  | progress name value position total =>
    translate l Label.loopProgress.key.toList
      [("name".toList, name), ("value".toList, value), ("index".toList, Text.ofNat position),
       ("total".toList, Text.ofNat total)]
  | loopValue name value =>
    translate l Label.loopValue.key.toList [("name".toList, name), ("value".toList, value)]
  | iteration position =>
    translate l Label.loopIteration.key.toList [("index".toList, Text.ofNat position)]
  | verbatim text => .ok text

/-- The note has a message with an argument for every place. -/
def isWorded : Note → Bool
  | plain label => label.isBare
  | verbatim _ => false
  | _ => true

end Note

theorem Template.source_eq_fillWith {t : Template} (h : ∀ f ∈ t, ∃ value, f = .text value)
    (args : List (Text × Text)) : t.source = t.fillWith args := by
  unfold source fillWith
  rw [List.flatMap_def, List.flatMap_def]
  refine congrArg List.flatten (List.map_congr_left fun f hf => ?_)
  obtain ⟨value, rfl⟩ := h f hf
  rfl

theorem Label.ofKey?_key (label : Label) : ofKey? label.key.toList = some label := by
  have hall : ∀ label ∈ all, ofKey? label.key.toList = some label := by decide +kernel
  exact hall label (by cases label <;> decide)

/-- A label without places is written as it stands. -/
theorem Label.translate_of_isBare {label : Label} (h : label.isBare) (l : Locale) :
    translate l label.key.toList [] = .ok (label.write l []) := by
  have htexts : ∀ f ∈ label.template l, ∃ value, f = .text value := by
    intro f hf
    have hl : l ∈ [Locale.english, Locale.spanish] := by cases l <;> simp
    have hbare := List.all_eq_true.1 (List.all_eq_true.1 h l hl) f hf
    cases f with
    | text value => exact ⟨value, rfl⟩
    | argument name => cases hbare
  rw [translate, ofKey?_key]
  exact congrArg Except.ok (Template.source_eq_fillWith htexts [])

namespace Note

theorem translate_truth (l : Locale) (holds : Bool) :
    translate l (truth holds).key.toList [] = .ok ((truth holds).write l []) :=
  Label.translate_of_isBare (by cases holds <;> rfl) l

/-- Looking the message of a note up gives the note as it is written. -/
theorem translated_eq {note : Note} (h : note.isWorded) (l : Locale) :
    note.translated l = .ok (note.write l) := by
  have hmessage : ∀ label args, note.message? l = some (label, args) → args ≠ [] →
      translate l label.key.toList args = .ok (note.write l) := fun _ _ => translate_message
  cases note with
  | plain label => exact Label.translate_of_isBare h l
  | condition holds =>
    rw [translated, translate_truth]
    exact hmessage _ _ rfl (List.cons_ne_nil _ _)
  | progress name value position total => exact hmessage _ _ rfl (List.cons_ne_nil _ _)
  | loopValue name value => exact hmessage _ _ rfl (List.cons_ne_nil _ _)
  | iteration position => exact hmessage _ _ rfl (List.cons_ne_nil _ _)
  | verbatim text => cases h

end Note

/-! ## Localized runs -/

/-- A recorded step, its note in words. -/
structure LocalEntry where
  step : Nat
  line : Text
  action : Text
  before : Snapshot
  after : Snapshot
  operation : Option Operation
  output : Option Text

/-- The state of a localized run. -/
structure LocalRecorder where
  store : Store
  outputs : Transcript
  trace : Array LocalEntry
  /-- How many silent parts the run is inside of. -/
  muted : Nat

/-- A computation of a localized run. -/
abbrev LocalRun := ExceptT Stop (StateM LocalRecorder)

namespace LocalRun

/-- A result that may be a fault. -/
def lift (r : Except Fault α) : LocalRun α :=
  match r with
  | .ok a => pure a
  | .error f => throw (.fault f)

/-- The variables. -/
def store : LocalRun Store := do return (← get).store

/-- Record a step in words. -/
def record (limits : Limits) (line action : Text) (before : Snapshot)
    (operation : Option Operation) (output : Option Text) : LocalRun Unit := do
  let r ← get
  if r.muted ≠ 0 then return ()
  if limits.entries ≤ r.trace.size then throw .limit
  let entry : LocalEntry :=
    ⟨r.trace.size + 1, line, action, before, ⟨r.store, r.outputs⟩, operation, output⟩
  modify fun r => { r with trace := r.trace.push entry }

/-- Run a part without recording it. -/
def silently (part : LocalRun Unit) : LocalRun Unit := ExceptT.mk do
  modify fun r => { r with muted := r.muted + 1 }
  let outcome ← part.run
  modify fun r => { r with muted := r.muted - 1 }
  return outcome

end LocalRun

section RunIn

variable (l : Locale) (limits : Limits)

/-- Perform an action on a line, look its message up, and record it. -/
def Action.runIn (line : Text) (a : Action) : LocalRun Unit := do
  let r ← get
  modify fun r => { r with store := a.store r.store, outputs := a.outputs r.outputs }
  let action ← LocalRun.lift (a.note.translated l)
  LocalRun.record limits line action ⟨r.store, r.outputs⟩ a.operation a.output

/-- Find an action from the variables and perform it. -/
def LocalRun.attempt (line : Text) (find : Store → Except Fault Action) : LocalRun Unit := do
  let a ← LocalRun.lift (find (← LocalRun.store))
  a.runIn l limits line

/-- The value of a condition now. -/
def Condition.testIn (c : Condition) : LocalRun Bool := do
  LocalRun.lift (c.eval (← LocalRun.store))

/-- Evaluate the condition of a clause and record it. -/
def Condition.decideIn (line : Text) (c : Condition) : LocalRun Bool := do
  let holds ← c.testIn
  (Action.idle (.condition holds)).runIn l limits line
  return holds

/-- Run statements one after the other without recording them. -/
def Statement.runSilentlyIn (statements : List Statement) : LocalRun Unit :=
  LocalRun.silently (statements.forM fun st => LocalRun.attempt l limits [] st.action)

namespace Loop

/-- Run the body once for each value, from a position on. -/
def iterateIn (line item : Text) (total : Nat) (body : LocalRun Unit) :
    (position : Nat) → List Value → LocalRun Unit
  | _, [] => pure ()
  | position, value :: rest => do
    (Action.bind item value (.progress item value.display position total)).runIn l limits line
    body
    iterateIn line item total body (position + 1) rest

/-- Run the body while a condition holds, at most `left` times. -/
def repeatIn (line : Text) (cond : Condition) (counter : Option Text)
    (body update : LocalRun Unit) : (left position : Nat) → LocalRun Unit
  | 0, _ => pure ()
  | left + 1, position => do
    if ← cond.testIn then
      LocalRun.attempt l limits line fun s => .ok (.idle (roundNote s counter position))
      body
      update
      repeatIn line cond counter body update left (position + 1)

/-- Run a loop with the given body. -/
def runIn (line : Text) (body : LocalRun Unit) : Loop → LocalRun Unit
  | guarded init cond update counter => do
    Statement.runSilentlyIn l limits init
    repeatIn l limits line cond counter body (Statement.runSilentlyIn l limits update)
      limits.rounds.toNat 1
  | head => do
    let w ← LocalRun.lift (head.sweep (← LocalRun.store))
    iterateIn l limits line head.item w.total body 1 (w.visited limits.entries)

end Loop

/-- Evaluate a clause that leads back to itself. -/
def circleIn (line : Text) (cond : Condition) : (left : Nat) → LocalRun Unit
  | 0 => throw .stalled
  | left + 1 => do
    if ← cond.decideIn l limits line then throw .stalled else circleIn line cond left

mutual

/-- Run the steps of a program on lines before `stop` in a language. -/
def Program.runIn : Program → (stop : Nat) → LocalRun Unit
  | .done, _ => pure ()
  | .plain index line statement rest, stop =>
    if index < stop then do
      LocalRun.attempt l limits line statement.action
      rest.runIn stop
    else pure ()
  | .branch index chain rest, stop =>
    if index < stop then do
      chain.runIn false
      rest.runIn stop
    else pure ()
  | .loop index line head body bodyStop rest, stop =>
    if index < stop then do
      head.runIn l limits line (body.runIn bodyStop)
      rest.runIn stop
    else pure ()

/-- Run the clauses of a conditional in a language, knowing whether one was taken. -/
def Chain.runIn : Chain → (taken : Bool) → LocalRun Unit
  | .finished, _ => pure ()
  | .clause line cond body stop next, taken =>
    if taken then next.runIn true
    else do
      if ← cond.decideIn l limits line then
        body.runIn stop
        next.runIn true
      else next.runIn false
  | .otherwise body stop, taken => if taken then pure () else body.runIn stop
  | .malformed, _ => throw (.fault .noCondition)
  | .circular line cond, taken =>
    if taken then throw .stalled else circleIn l limits line cond (limits.entries.toNat + 1)

end

end RunIn

/-- The outcome of a localized run. -/
inductive LocalOutcome where
  | trace (entries : List LocalEntry)
  | fault (cause : Fault)
  | stalled

/-- Run a program of so many lines from the start in a language. -/
def Program.outcomeIn (l : Locale) (limits : Limits) (p : Program) (count : Nat) : LocalOutcome :=
  match (p.runIn l limits count).run.run ⟨.empty, .empty, #[], 0⟩ with
  | (.ok _, r) => .trace r.trace.toList
  | (.error .limit, r) => .trace r.trace.toList
  | (.error (.fault f), _) => .fault f
  | (.error .stalled, _) => .stalled

/-- The trace of a snippet in a dialect, its notes in a language. -/
def Dialect.traceIn (d : Dialect) (l : Locale) (limits : Limits) (source : Text) : LocalOutcome :=
  let (program, count) := Program.read d source
  program.outcomeIn l limits count

/-! ## Writing the notes at the end -/

/-- The entry with its note written out. -/
def Entry.localize (l : Locale) (e : Entry) : LocalEntry :=
  ⟨e.step, e.line, e.note.write l, e.before, e.after, e.operation, e.output⟩

/-- The state with the notes of its trace written out. -/
def Recorder.localize (l : Locale) (r : Recorder) : LocalRecorder :=
  ⟨r.store, r.outputs, r.trace.map (·.localize l), r.muted⟩

/-- The outcome with the notes of its trace written out. -/
def Outcome.localize (l : Locale) : Outcome → LocalOutcome
  | .trace entries => .trace (entries.map (·.localize l))
  | .fault cause => .fault cause
  | .stalled => .stalled

namespace LocalRun

/-- The result of a localized run from a state, and the state at its end. -/
def exec (x : LocalRun α) (r : LocalRecorder) : Except Stop α × LocalRecorder := x.run.run r

theorem exec_bind (x : LocalRun α) (f : α → LocalRun β) (r : LocalRecorder) :
    (x >>= f).exec r = match x.exec r with
      | (.ok a, r') => (f a).exec r'
      | (.error e, r') => (.error e, r') := by
  show (ExceptT.bindCont f (x.exec r).1 : StateM LocalRecorder (Except Stop β)) (x.exec r).2 = _
  rcases x.exec r with ⟨_ | _, r'⟩ <;> rfl

theorem exec_record (limits : Limits) (line action : Text) (before : Snapshot)
    (operation : Option Operation) (output : Option Text) (r : LocalRecorder) :
    (record limits line action before operation output).exec r =
      if r.muted ≠ 0 then (.ok (), r)
      else if limits.entries ≤ r.trace.size then (.error .limit, r)
      else (.ok (), { r with
        trace := r.trace.push
          ⟨r.trace.size + 1, line, action, before, ⟨r.store, r.outputs⟩, operation, output⟩ }) := by
  unfold record
  show (bind get _ : LocalRun Unit).exec r = _
  rw [exec_bind]
  show exec (if r.muted ≠ 0 then _ else _) r = _
  split_ifs
  · rfl
  · rfl
  · rfl

/-- From every state, the localized run ends as the other one with its notes written out. -/
def Localizes (l : Locale) (x : LocalRun α) (y : Run α) : Prop :=
  ∀ r, x.exec (r.localize l) = ((y.exec r).1, (y.exec r).2.localize l)

section Localizes

variable {l : Locale} {limits : Limits}

theorem localizes_pure (a : α) : Localizes l (pure a) (pure a) := fun _ => rfl

theorem localizes_throw (e : Stop) : Localizes l (throw e : LocalRun α) (throw e) := fun _ => rfl

theorem localizes_bind {x : LocalRun α} {y : Run α} {f : α → LocalRun β} {g : α → Run β}
    (hxy : Localizes l x y) (hfg : ∀ a, Localizes l (f a) (g a)) :
    Localizes l (x >>= f) (y >>= g) := by
  intro r
  rw [exec_bind, Run.exec_bind, hxy r]
  rcases y.exec r with ⟨e | a, r'⟩
  · rfl
  · exact hfg a r'

theorem localizes_silently {x : LocalRun Unit} {y : Run Unit} (h : Localizes l x y) :
    Localizes l (silently x) (Run.silently y) := by
  intro r
  rw [Run.exec_silently]
  show (let (res, r') := x.exec ((r.withMuted (r.muted + 1)).localize l)
    (res, { r' with muted := r'.muted - 1 })) = _
  rw [h]
  rfl

/-- What is computed from the variables is the same in both runs. -/
theorem localizes_lift (find : Store → Except Fault α) :
    Localizes l (do lift (find (← store))) (do Run.lift (find (← Run.store))) := by
  intro r
  rw [Run.exec_bind_ok (Run.exec_store r)]
  show (lift (find r.store)).exec (r.localize l) = _
  cases find r.store <;> rfl

/-- The message of an action that is worded is there, so the action is recorded as it would be. -/
theorem localizes_runIn {a : Action} (h : a.note.isWorded) (line : Text) :
    Localizes l (a.runIn l limits line) (a.run limits line) := by
  intro r
  have hrun : (a.runIn l limits line).exec (r.localize l) =
      (record limits line (a.note.write l) r.snapshot a.operation a.output).exec
        ((r.perform a).localize l) := by
    unfold Action.runIn
    rw [Note.translated_eq h]
    rfl
  have hsize : (r.localize l).trace.size = r.trace.size := Array.size_map
  rw [hrun, exec_record, Action.exec_run]
  show (if r.muted ≠ 0 then _ else if limits.entries ≤ (r.localize l).trace.size then _ else _) = _
  rw [hsize]
  split_ifs with hm hl
  · rfl
  · rfl
  · simp [Recorder.localize, Recorder.performRecorded, Recorder.perform, Entry.localize,
      Recorder.entry, Recorder.snapshot, Action.apply]

theorem localizes_attempt {find : Store → Except Fault Action}
    (h : ∀ s a, find s = .ok a → a.note.isWorded) (line : Text) :
    Localizes l (attempt l limits line find) (Run.attempt limits line find) := by
  intro r
  rw [Run.exec_attempt]
  show exec (bind (lift (find r.store)) _) (r.localize l) = _
  rw [exec_bind]
  cases hfound : find r.store with
  | error f => rfl
  | ok a => exact localizes_runIn (h _ a hfound) line r

end Localizes

end LocalRun

/-! ## Programs whose notes can be written -/

/-- The discipline under which every note, recorded or not, has its message. -/
def Discipline.worded : Discipline where
  store _ := True
  action a := a.note.isWorded
  silent a := a.note.isWorded
  stop _ := True
  stop_limit := trivial
  condition _ := rfl
  round _ counter _ := by cases counter <;> rfl
  keeps _ _ := trivial

section Localizes

open LocalRun

variable {l : Locale} {limits : Limits}

theorem Statement.isWorded_of_action {st : Statement}
    (h : st.Obeys .worded fun a => a.note.isWorded) (s : Store) (a : Action)
    (ha : st.action s = .ok a) : a.note.isWorded := by
  have hs := h s trivial
  rw [ha] at hs
  exact hs

theorem Statement.localizes_runIn {st : Statement} (h : st.Obeys .worded fun a => a.note.isWorded)
    (line : Text) : Localizes l (attempt l limits line st.action) (st.run limits line) := by
  rw [Statement.run_eq]
  exact localizes_attempt (isWorded_of_action h) line

theorem Statement.localizes_runSilentlyIn {sts : List Statement}
    (h : ∀ st ∈ sts, st.Obeys .worded fun a => a.note.isWorded) :
    Localizes l (runSilentlyIn l limits sts) (runSilently limits sts) := by
  refine localizes_silently ?_
  induction sts with
  | nil => exact localizes_pure ()
  | cons st sts ih =>
    exact localizes_bind (Statement.localizes_runIn (h st (by simp)) []) fun _ =>
      ih fun st hst => h st (by simp [hst])

theorem Condition.localizes_decideIn (line : Text) (c : Condition) :
    Localizes l (c.decideIn l limits line) (c.decide limits line) := by
  rw [Condition.decide_eq]
  refine localizes_bind (localizes_lift c.eval) fun holds => ?_
  exact localizes_bind (localizes_runIn rfl line) fun _ => localizes_pure holds

theorem Loop.localizes_iterateIn (line item : Text) (total : Nat) {x : LocalRun Unit}
    {y : Run Unit} (hbody : Localizes l x y) : ∀ (position : Nat) (values : List Value),
      Localizes l (iterateIn l limits line item total x position values)
        (iterate limits line item total y position values)
  | _, [] => localizes_pure ()
  | position, value :: rest => by
    rw [iterate_cons]
    refine localizes_bind (localizes_runIn rfl line) fun _ => localizes_bind hbody fun _ => ?_
    exact localizes_iterateIn line item total hbody (position + 1) rest

theorem Loop.localizes_repeatIn (line : Text) (cond : Condition) (counter : Option Text)
    {x x' : LocalRun Unit} {y y' : Run Unit} (hbody : Localizes l x y)
    (hupdate : Localizes l x' y') : ∀ left position : Nat,
      Localizes l (repeatIn l limits line cond counter x x' left position)
        (repeatWhile limits line cond counter y y' left position)
  | 0, _ => localizes_pure ()
  | left + 1, position => by
    rw [repeatWhile_succ]
    refine localizes_bind (localizes_lift cond.eval) fun holds => ?_
    cases holds with
    | false => exact localizes_pure ()
    | true =>
      have hround : ∀ (s : Store) (a : Action),
          (.ok (.idle (roundNote s counter position)) : Except Fault Action) = .ok a →
            a.note.isWorded := by
        rintro s a h
        cases h
        cases counter <;> rfl
      refine localizes_bind (localizes_attempt hround line) fun _ => ?_
      refine localizes_bind hbody fun _ => localizes_bind hupdate fun _ => ?_
      exact localizes_repeatIn line cond counter hbody hupdate left (position + 1)

theorem Loop.localizes_runIn {head : Loop} (h : head.Obeys .worded) (line : Text)
    {x : LocalRun Unit} {y : Run Unit} (hbody : Localizes l x y) :
    Localizes l (head.runIn l limits line x) (head.run limits line y) := by
  cases hguarded : head.isGuarded with
  | true =>
    cases head with
    | guarded init cond update counter =>
      obtain ⟨hinit, -, hupdate⟩ := h
      refine localizes_bind (Statement.localizes_runSilentlyIn hinit) fun _ => ?_
      exact localizes_repeatIn line cond counter hbody
        (Statement.localizes_runSilentlyIn hupdate) _ 1
    | _ => cases hguarded
  | false =>
    rw [run_eq_iterate limits line y hguarded]
    have hrun : head.runIn l limits line x = (do
        let w ← LocalRun.lift (head.sweep (← LocalRun.store))
        iterateIn l limits line head.item w.total x 1 (w.visited limits.entries)) := by
      cases head with
      | guarded => cases hguarded
      | _ => rfl
    rw [hrun, ← bind_assoc, ← bind_assoc]
    exact localizes_bind (localizes_lift fun s => head.sweep s) fun w =>
      localizes_iterateIn line _ _ hbody 1 _

theorem localizes_circleIn (line : Text) (cond : Condition) : ∀ left : Nat,
    Localizes l (circleIn l limits line cond left) (circle limits line cond left)
  | 0 => localizes_throw _
  | left + 1 => by
    unfold circleIn circle
    refine localizes_bind (cond.localizes_decideIn line) fun holds => ?_
    cases holds with
    | false => exact localizes_circleIn line cond left
    | true => exact localizes_throw _

mutual

/-- The localized run of a program is its run with the notes written out. -/
theorem Program.localizes_runIn : ∀ (p : Program) (stop : Nat), p.Obeys .worded →
    Localizes l (p.runIn l limits stop) (p.run limits stop)
  | .done, stop, _ => by
    rw [Program.runIn, Program.run]
    exact localizes_pure ()
  | .plain index line statement rest, stop, ⟨hst, hrest⟩ => by
    rw [Program.runIn, Program.run]
    split_ifs
    · exact localizes_bind (Statement.localizes_runIn hst line) fun _ =>
        rest.localizes_runIn stop hrest
    · exact localizes_pure ()
  | .branch index chain rest, stop, ⟨hchain, hrest⟩ => by
    rw [Program.runIn, Program.run]
    split_ifs
    · exact localizes_bind (chain.localizes_runIn false hchain) fun _ =>
        rest.localizes_runIn stop hrest
    · exact localizes_pure ()
  | .loop index line head body bodyStop rest, stop, ⟨hhead, hbody, hrest⟩ => by
    rw [Program.runIn, Program.run]
    split_ifs
    · exact localizes_bind
        (Loop.localizes_runIn hhead line (body.localizes_runIn bodyStop hbody)) fun _ =>
          rest.localizes_runIn stop hrest
    · exact localizes_pure ()

/-- The localized run of a chain is its run with the notes written out. -/
theorem Chain.localizes_runIn : ∀ (c : Chain) (taken : Bool), c.Obeys .worded →
    Localizes l (c.runIn l limits taken) (c.run limits taken)
  | .finished, taken, _ => by
    rw [Chain.runIn, Chain.run]
    exact localizes_pure ()
  | .clause line cond body stop next, taken, ⟨_, hbody, hnext⟩ => by
    rw [Chain.runIn, Chain.run]
    split_ifs
    · exact next.localizes_runIn true hnext
    · refine localizes_bind (cond.localizes_decideIn line) fun holds => ?_
      cases holds with
      | false => exact next.localizes_runIn false hnext
      | true =>
        exact localizes_bind (body.localizes_runIn stop hbody) fun _ =>
          next.localizes_runIn true hnext
  | .otherwise body stop, taken, hbody => by
    rw [Chain.runIn, Chain.run]
    split_ifs
    · exact localizes_pure ()
    · exact body.localizes_runIn stop hbody
  | .malformed, taken, _ => by
    rw [Chain.runIn, Chain.run]
    exact localizes_throw _
  | .circular line cond, taken, _ => by
    rw [Chain.runIn, Chain.run]
    split_ifs
    · exact localizes_throw _
    · exact localizes_circleIn line cond _

end

/-- The localized outcome of a program is its outcome with the notes written out. -/
theorem Program.outcomeIn_eq_localize {p : Program} (h : p.Obeys .worded) (count : Nat) :
    p.outcomeIn l limits count = (p.outcome limits count).localize l := by
  have hrun : (p.runIn l limits count).exec ((Recorder.start .empty).localize l) = _ :=
    p.localizes_runIn count h (.start .empty)
  have hstart : (Recorder.start .empty).localize l = ⟨.empty, .empty, #[], 0⟩ := by
    simp [Recorder.localize, Recorder.start]
  rw [hstart] at hrun
  change (p.runIn l limits count).run.run _ = _ at hrun
  rw [outcomeIn, hrun, outcome]
  show _ = Outcome.localize l (match (p.run limits count).exec (.start .empty) with
    | (.ok _, r) => Outcome.trace r.trace.toList
    | (.error .limit, r) => .trace r.trace.toList
    | (.error (.fault f), _) => .fault f
    | (.error .stalled, _) => .stalled)
  rcases (p.run limits count).exec (.start .empty) with ⟨(_ | f | _) | _, r⟩ <;>
    simp [Outcome.localize, Recorder.localize]

end Localizes

/-! ## Programs that are read -/

namespace Statement

variable {s : Store} {target : Text} {declares : Bool}

/-- A binding is labelled without places for arguments. -/
theorem isBare_of_evaluate {source : Source} {value : Value} {label : Label}
    {o : Option Operation} (h : evaluate s target declares source = .ok (value, label, o)) :
    label.isBare := by
  have hassigned : (assigned declares).isBare := by cases declares <;> rfl
  have helement : (assignedElement declares).isBare := by cases declares <;> rfl
  cases source with
  | quoted text => cases h; rfl
  | fold items init =>
    obtain ⟨start, -, h⟩ := bind_eq_ok.1 h
    obtain ⟨total, -, h⟩ := bind_eq_ok.1 h
    cases h
    rfl
  | element whole expr =>
    simp only [evaluate] at h
    cases hcopied : copied? s whole with
    | some v => rw [hcopied] at h; cases h; exact hassigned
    | none =>
      rw [hcopied] at h
      obtain ⟨n, -, h⟩ := bind_eq_ok.1 h
      cases h
      exact helement
  | computed whole expr =>
    simp only [evaluate] at h
    cases hcopied : copied? s whole with
    | some v => rw [hcopied] at h; cases h; exact hassigned
    | none =>
      rw [hcopied] at h
      obtain ⟨n, -, h⟩ := bind_eq_ok.1 h
      cases h
      exact hassigned

/-- The label that a statement brings along has no places for arguments. -/
def labelIsBare : Statement → Bool
  | update _ _ _ label => label.isBare
  | list _ _ label => label.isBare
  | _ => true

theorem obeys_worded {st : Statement} (h : st.labelIsBare) :
    st.Obeys .worded fun a => a.note.isWorded := by
  refine fun s _ => Discipline.grants_of_ok (fun _ => trivial) fun a ha => ?_
  cases st with
  | update target op right label =>
    obtain ⟨b, -, ha⟩ := bind_eq_ok.1 ha
    cases ha
    exact h
  | list target items label =>
    obtain ⟨values, -, ha⟩ := bind_eq_ok.1 ha
    cases ha
    exact h
  | declare target => cases ha; rfl
  | bind target source declares =>
    obtain ⟨⟨value, label, o⟩, hvalue, ha⟩ := bind_eq_ok.1 ha
    have hlabel := isBare_of_evaluate hvalue
    cases o <;> cases ha <;> exact hlabel
  | print style args =>
    obtain ⟨shown, -, ha⟩ := bind_eq_ok.1 ha
    cases ha
    rfl
  | other => cases ha; rfl

end Statement

/-- The labels of a dialect's lists have no places for arguments. -/
def Dialect.isWorded (d : Dialect) : Bool := d.lists.all (·.2.isBare)

section Worded

variable {d : Dialect} (hd : d.isWorded)

include hd

theorem Statement.labelIsBare_read (line : Text) : (read d line).labelIsBare := by
  generalize hread : read d line = st
  rcases read_cases hread with rfl | h | h | h | h | h
  · rfl
  · obtain ⟨f, -, rfl⟩ := Option.map_eq_some_iff.1 h
    rfl
  · obtain ⟨f, -, rfl⟩ := Option.map_eq_some_iff.1 h
    show Label.isBare (if _ then _ else _)
    split_ifs <;> rfl
  · obtain ⟨⟨f, label⟩, hf, rfl⟩ := Option.map_eq_some_iff.1 h
    obtain ⟨p, hp, -⟩ := Pattern.mem_of_firstMatch? hf
    exact List.all_eq_true.1 hd (p, label) hp
  · obtain ⟨⟨f, declares⟩, -, rfl⟩ := Option.map_eq_some_iff.1 h
    dsimp only
    cases f.get? .expr <;> rfl
  · obtain ⟨⟨f, style⟩, -, rfl⟩ := Option.map_eq_some_iff.1 h
    rfl

theorem Statement.obeys_worded_of_mem_readAll (clause : Text) :
    ∀ st ∈ readAll d clause, st.Obeys .worded fun a => a.note.isWorded := by
  intro st hst
  obtain ⟨part, -, rfl⟩ := List.mem_map.1 hst
  exact obeys_worded (labelIsBare_read hd part)

theorem readLoop_obeys_worded (f : Found) (form : LoopForm) :
    (readLoop d f form).Obeys .worded := by
  have hcond : ∀ c : Condition, c.Obeys .worded := Condition.obeys_of_stop fun _ => trivial
  cases form with
  | clauses =>
    exact ⟨Statement.obeys_worded_of_mem_readAll hd _, hcond _,
      Statement.obeys_worded_of_mem_readAll hd _⟩
  | condition => exact ⟨fun _ h => (nomatch h), hcond _, fun _ h => (nomatch h)⟩
  | _ => exact fun _ _ => Discipline.grants_of_ok (fun _ => trivial) fun _ _ _ _ _ _ _ => rfl

theorem Dialect.lineObeys_worded (line header : Text) : d.LineObeys .worded line header where
  statement := Statement.obeys_worded (Statement.labelIsBare_read hd line)
  loop head hhead := by
    obtain ⟨⟨f, form⟩, -, rfl⟩ := Option.map_eq_some_iff.1 hhead
    exact readLoop_obeys_worded hd f form

theorem Program.read_obeys_worded (source : Text) : (Program.read d source).1.Obeys .worded := by
  have hcond : ∀ t, (Condition.read t).Obeys .worded :=
    fun _ => Condition.obeys_of_stop (fun _ => trivial) _
  unfold Program.read
  cases d.layout with
  | indented =>
    exact Program.ofIndented_obeys hcond fun line _ =>
      ⟨Dialect.lineObeys_worded hd _ _, fun _ => trivial⟩
  | braced =>
    exact Program.ofBraced_obeys hcond (Or.inl trivial) fun line _ =>
      Dialect.lineObeys_worded hd _ _

/-- A localized trace is the trace of the snippet with its notes written out. -/
theorem Dialect.traceIn_eq_localize (l : Locale) (limits : Limits) (source : Text) :
    d.traceIn l limits source = (d.trace limits source).localize l :=
  Program.outcomeIn_eq_localize (Program.read_obeys_worded hd source) _

end Worded

/-! ## Two languages -/

/-- Two texts are the translations of one message. Its arguments are the same, but for the result of
a condition, which is itself the translation of one truth value. -/
def SameMessage (a b : Locale) (t u : Text) : Prop :=
  ∃ (label : Label) (args args' : List (Text × Text)),
    translate a label.key.toList args = .ok t ∧ translate b label.key.toList args' = .ok u ∧
      (args = args' ∨ label = .condition ∧ ∃ (holds : Bool) (v w : Text),
        translate a (Note.truth holds).key.toList [] = .ok v ∧
        translate b (Note.truth holds).key.toList [] = .ok w ∧
        args = [("result".toList, v)] ∧ args' = [("result".toList, w)])

/-- Two entries differ in the words for one message only. -/
structure LocalEntry.SameButWords (a b : Locale) (e f : LocalEntry) : Prop where
  step : e.step = f.step
  line : e.line = f.line
  before : e.before = f.before
  after : e.after = f.after
  operation : e.operation = f.operation
  output : e.output = f.output
  action : SameMessage a b e.action f.action

/-- Two outcomes are the same fault, or are both no end, or are traces that differ entry by entry
in the words for one message only. -/
inductive LocalOutcome.SameButWords (a b : Locale) : LocalOutcome → LocalOutcome → Prop
  | trace {es fs : List LocalEntry} :
      List.Forall₂ (LocalEntry.SameButWords a b) es fs → SameButWords a b (.trace es) (.trace fs)
  | fault (cause : Fault) : SameButWords a b (.fault cause) (.fault cause)
  | stalled : SameButWords a b .stalled .stalled

/-- The words for a note in two languages are translations of one message. -/
theorem Note.sameMessage_write {note : Note} (h : note.isWorded) (a b : Locale) :
    SameMessage a b (note.write a) (note.write b) := by
  have hmessage : ∀ l label args, note.message? l = some (label, args) → args ≠ [] →
      translate l label.key.toList args = .ok (note.write l) := fun _ _ _ => translate_message
  cases note with
  | plain label =>
    exact ⟨label, [], [], Label.translate_of_isBare h a, Label.translate_of_isBare h b, .inl rfl⟩
  | condition holds =>
    refine ⟨.condition, _, _, hmessage a _ _ rfl (by simp), hmessage b _ _ rfl (by simp),
      .inr ⟨rfl, holds, _, _, translate_truth a holds, translate_truth b holds, rfl, rfl⟩⟩
  | progress name value position total =>
    exact ⟨.loopProgress, _, _, hmessage a _ _ rfl (by simp), hmessage b _ _ rfl (by simp),
      .inl rfl⟩
  | loopValue name value =>
    exact ⟨.loopValue, _, _, hmessage a _ _ rfl (by simp), hmessage b _ _ rfl (by simp), .inl rfl⟩
  | iteration position =>
    exact ⟨.loopIteration, _, _, hmessage a _ _ rfl (by simp), hmessage b _ _ rfl (by simp),
      .inl rfl⟩
  | verbatim text => cases h

theorem Entry.sameButWords_localize {e : Entry} (h : e.note.isWorded) (a b : Locale) :
    (e.localize a).SameButWords a b (e.localize b) :=
  ⟨rfl, rfl, rfl, rfl, rfl, rfl, Note.sameMessage_write h a b⟩

/-- Under a discipline of words, every step keeps the notes of the trace worded. -/
theorem Discipline.isWorded_of_steps {limits : Limits} {r r' : Recorder}
    (h : Discipline.worded.Steps limits r r') (hr : ∀ e ∈ r.trace.toList, e.note.isWorded) :
    ∀ e ∈ r'.trace.toList, e.note.isWorded := by
  induction h with
  | refl => exact hr
  | @tail m _ _ step ih =>
    cases step with
    | recorded line a _ ha =>
      intro e he
      have hcases : e ∈ m.trace.toList ∨ e = m.entry line a := by
        simpa [Recorder.performRecorded] using he
      rcases hcases with hold | rfl
      · exact ih e hold
      · exact ha
    | silent a _ => exact ih

theorem Dialect.isWorded_ofId (id : Text) : (ofId id).isWorded := by
  unfold ofId
  cases Language.ofId? id with
  | none => rfl
  | some language => cases language <;> rfl

/-- The language of a build has no influence but on its words: under any two codes, a snippet ends
in the same fault, or the traces are equally long and agree entry by entry in all but the action,
which is the same message in both. Either is the trace of the snippet with its notes written out. -/
theorem Dialect.traceIn_sameButWords (id source : Text) (limits : Limits) (a b : Text) :
    ((ofId id).traceIn (.ofCode a) limits source).SameButWords (.ofCode a) (.ofCode b)
      ((ofId id).traceIn (.ofCode b) limits source) ∧
    ∀ code, (ofId id).traceIn (.ofCode code) limits source =
      ((ofId id).trace limits source).localize (.ofCode code) := by
  have hd := isWorded_ofId id
  refine ⟨?_, fun code => traceIn_eq_localize hd (.ofCode code) limits source⟩
  have hobeys := Dialect.trace_obeys limits (Program.read_obeys_worded hd source) trivial
  rw [traceIn_eq_localize hd, traceIn_eq_localize hd]
  cases htrace : (ofId id).trace limits source with
  | fault f => exact .fault f
  | stalled => exact .stalled
  | trace entries =>
    rw [htrace] at hobeys
    obtain ⟨r, hsteps, rfl⟩ := hobeys
    have hworded := Discipline.isWorded_of_steps hsteps fun e he => nomatch he
    refine .trace (List.forall₂_map_left_iff.2 (List.forall₂_map_right_iff.2 ?_))
    exact List.forall₂_same.2 fun e he => Entry.sameButWords_localize (hworded e he) _ _

end StepTrace
