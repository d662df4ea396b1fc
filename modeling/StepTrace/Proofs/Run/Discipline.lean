import StepTrace.Proofs.Run.Action

/-!
# Disciplines

A discipline is what a run is held to: a property of the variables, the actions that may be
recorded, the actions that may be performed without a record, and the ways in which the run may stop
early. What a single step can do under a discipline is said once, in `Discipline.Step`.

A program obeys a discipline (`Program.Obeys`) if each of its parts does with all variables that
have the property. The main statement, `Program.keeps_run`, is that the run of such a program is a
row of steps and stops as it may. It is the only induction over programs that facts about one run
need: each of them names a discipline and looks at a single step.
-/

namespace StepTrace

/-- What a run is held to. -/
structure Discipline where
  /-- The property of the variables. -/
  store : Store → Prop
  /-- The actions that may be recorded. -/
  action : Action → Prop
  /-- The actions that may be performed without a record. -/
  silent : Action → Prop
  /-- The ways in which a run may stop early. -/
  stop : Stop → Prop
  stop_limit : stop .limit
  condition : ∀ b, action (.idle (.condition b))
  round : ∀ s counter position, action (.idle (Loop.roundNote s counter position))
  keeps : ∀ {s a}, store s → action a ∨ silent a → store (a.store s)

namespace Discipline

variable (D : Discipline) (limits : Limits)

/-- A result has a property, or is a fault for which the run may stop. -/
def Grants (P : α → Prop) (x : Except Fault α) : Prop := Yields (fun f => D.stop (.fault f)) P x

variable {D} in
/-- If a run may stop for every fault, only what is found has to have the property. -/
theorem grants_of_ok (hstop : ∀ f, D.stop (.fault f)) {P : α → Prop} {x : Except Fault α}
    (h : ∀ a, x = .ok a → P a) : D.Grants P x := by
  cases x with
  | ok a => exact h a rfl
  | error f => exact hstop f

/-! ## Steps -/

/-- A step of a run: an action that is recorded within the limit, or one without a record. -/
inductive Step (r : Recorder) : Recorder → Prop
  | recorded (line : Text) (a : Action) :
      (r.trace.size : Int) < limits.entries → D.action a → Step r (r.performRecorded line a)
  | silent (a : Action) : D.silent a → Step r (r.perform a)

/-- A row of steps. -/
abbrev Steps : Recorder → Recorder → Prop := Relation.ReflTransGen (D.Step limits)

/-- How a run from a state ends. The action whose entry the limit refuses has been performed. -/
inductive Ends (r : Recorder) : Except Stop α × Recorder → Prop
  | finished {r' : Recorder} (a : α) : D.Steps limits r r' → Ends r (.ok a, r')
  | stopped {r' : Recorder} {e : Stop} : D.Steps limits r r' → D.stop e → Ends r (.error e, r')
  | refused {r' : Recorder} (a : Action) : D.Steps limits r r' →
      limits.entries ≤ r'.trace.size → D.action a → Ends r (.error .limit, r'.perform a)

variable {D limits}

theorem Step.muted {r r' : Recorder} (h : D.Step limits r r') : r'.muted = r.muted := by
  cases h <;> rfl

theorem Step.store {r r' : Recorder} (h : D.Step limits r r') (hr : D.store r.store) :
    D.store r'.store := by
  cases h with
  | recorded line a _ ha => exact D.keeps hr (Or.inl ha)
  | silent a ha => exact D.keeps hr (Or.inr ha)

theorem Steps.muted {r r' : Recorder} (h : D.Steps limits r r') : r'.muted = r.muted := by
  induction h with
  | refl => rfl
  | tail _ step ih => exact step.muted.trans ih

theorem Steps.store {r r' : Recorder} (h : D.Steps limits r r') (hr : D.store r.store) :
    D.store r'.store := by
  induction h with
  | refl => exact hr
  | tail _ step ih => exact step.store ih

/-- What holds of the entry of every action that may be recorded holds of every entry. -/
theorem Steps.forall_mem_trace {P : Entry → Prop}
    (hentry : ∀ (r : Recorder) line a, D.store r.store → D.action a → P (r.entry line a))
    {r r' : Recorder} (h : D.Steps limits r r') (hr : D.store r.store)
    (htrace : ∀ e ∈ r.trace, P e) : ∀ e ∈ r'.trace, P e := by
  induction h with
  | refl => exact htrace
  | tail hsteps step ih =>
    cases step with
    | recorded line a _ ha =>
      intro e he
      rcases Array.mem_push.1 he with he | rfl
      · exact ih e he
      · exact hentry _ line a (Steps.store hsteps hr) ha
    | silent a _ => exact ih

theorem Ends.of_steps {r r' : Recorder} {x : Except Stop α × Recorder} (h : D.Steps limits r r')
    (hx : D.Ends limits r' x) : D.Ends limits r x := by
  cases hx with
  | finished a hs => exact .finished a (h.trans hs)
  | stopped hs he => exact .stopped (h.trans hs) he
  | refused a hs hl ha => exact .refused a (h.trans hs) hl ha

/-! ## Computations under a discipline -/

variable (D limits)

/-- Every recorded run of a computation ends as the discipline says. -/
def Keeps (x : Run α) : Prop :=
  ∀ r, r.muted = 0 → D.store r.store → D.Ends limits r (x.exec r)

variable {D limits}

theorem keeps_pure (a : α) : D.Keeps limits (pure a) :=
  fun _ _ _ => .finished a .refl

theorem keeps_throw {e : Stop} (h : D.stop e) : D.Keeps limits (throw e : Run α) :=
  fun _ _ _ => .stopped .refl h

theorem keeps_bind {x : Run α} {f : α → Run β} (hx : D.Keeps limits x)
    (hf : ∀ a, D.Keeps limits (f a)) : D.Keeps limits (x >>= f) := by
  intro r hm hs
  have hend := hx r hm hs
  rw [Run.exec_bind]
  generalize x.exec r = y at hend ⊢
  cases hend with
  | finished a h => exact .of_steps h (hf a _ (h.muted.trans hm) (h.store hs))
  | stopped h he => exact .stopped h he
  | refused a h hl ha => exact .refused a h hl ha

/-- What is computed from the variables may be used as far as its property goes. -/
theorem keeps_lift {find : Store → Except Fault α} {f : α → Run β} {P : α → Prop}
    (h : ∀ s, D.store s → D.Grants P (find s)) (hf : ∀ a, P a → D.Keeps limits (f a)) :
    D.Keeps limits (do f (← Run.lift (find (← Run.store)))) := by
  intro r hm hs
  have hg := h r.store hs
  rw [Run.exec_bind_ok (Run.exec_store r), Run.exec_bind]
  cases hfound : find r.store with
  | error f =>
    rw [hfound] at hg
    exact .stopped .refl hg
  | ok a =>
    rw [hfound] at hg
    exact hf a hg r hm hs

theorem keeps_run {a : Action} (h : D.action a) (line : Text) :
    D.Keeps limits (a.run limits line) := by
  intro r hm hs
  rw [Action.exec_run_unmuted limits line a hm]
  split_ifs with hl
  · exact .refused a .refl hl h
  · exact .finished () (.single (.recorded line a (by omega) h))

theorem keeps_attempt {find : Store → Except Fault Action} (line : Text)
    (h : ∀ s, D.store s → D.Grants D.action (find s)) :
    D.Keeps limits (Run.attempt limits line find) :=
  keeps_lift h fun _ ha => keeps_run ha line

theorem keeps_test {c : Condition} (h : ∀ s, D.store s → D.Grants (fun _ => True) (c.eval s)) :
    D.Keeps limits c.test := by
  intro r hm hs
  have hg := h r.store hs
  rw [Condition.exec_test]
  cases hc : c.eval r.store with
  | error f =>
    rw [hc] at hg
    exact .stopped .refl hg
  | ok b => exact .finished b .refl

end Discipline

/-! ## Parts of a program -/

section Parts

variable (D : Discipline)

/-- With all variables that have the property, the statement's action is of the given kind. -/
def Statement.Obeys (kind : Action → Prop) (st : Statement) : Prop :=
  ∀ s, D.store s → D.Grants kind (st.action s)

/-- With all variables that have the property, the condition can be evaluated. -/
def Condition.Obeys (c : Condition) : Prop :=
  ∀ s, D.store s → D.Grants (fun _ => True) (c.eval s)

variable {D} in
theorem Condition.obeys_of_stop (hstop : ∀ f, D.stop (.fault f)) (c : Condition) : c.Obeys D :=
  fun _ _ => Discipline.grants_of_ok hstop fun _ _ => trivial

/-- Every value of a sweep may be bound to a loop variable. -/
def Sweep.Obeys (item : Text) (w : Sweep) : Prop :=
  ∀ limit, ∀ v ∈ w.visited limit, ∀ position total,
    D.action (.bind item v (.progress item v.display position total))

/-- The parts of a loop's head obey the discipline. -/
def Loop.Obeys : Loop → Prop
  | .guarded init cond update _ =>
    (∀ st ∈ init, Statement.Obeys D D.silent st) ∧ cond.Obeys D ∧
      ∀ st ∈ update, Statement.Obeys D D.silent st
  | head => ∀ s, D.store s → D.Grants (Sweep.Obeys D head.item) (head.sweep s)

mutual

/-- Every part of a program obeys the discipline. -/
def Program.Obeys : Program → Prop
  | .done => True
  | .plain _ _ statement rest => statement.Obeys D D.action ∧ rest.Obeys
  | .branch _ chain rest => chain.Obeys ∧ rest.Obeys
  | .loop _ _ head body _ rest => head.Obeys D ∧ body.Obeys ∧ rest.Obeys

/-- Every part of a chain obeys the discipline. A clause without a condition and one that leads back
to itself do if the run may stop for that reason. -/
def Chain.Obeys : Chain → Prop
  | .finished => True
  | .clause _ cond body _ next => cond.Obeys D ∧ body.Obeys ∧ next.Obeys
  | .otherwise body _ => body.Obeys
  | .malformed => D.stop (.fault .noCondition)
  | .circular _ cond => cond.Obeys D ∧ D.stop .stalled

end

end Parts

/-! ## Runs of the parts -/

section Runs

variable {D : Discipline} {limits : Limits}

theorem Statement.keeps_run {st : Statement} (h : st.Obeys D D.action) (line : Text) :
    D.Keeps limits (st.run limits line) := by
  rw [Statement.run_eq]
  exact D.keeps_attempt line h

theorem Statement.exec_run_muted (st : Statement) (line : Text) (r : Recorder) :
    (st.run limits line).exec (r.withMuted 1) = match st.action r.store with
      | .ok a => (.ok (), (r.perform a).withMuted 1)
      | .error f => (.error (.fault f), r.withMuted 1) := by
  rw [Statement.run_eq, Run.exec_attempt]
  show (match st.action r.store with | .ok _ => _ | .error _ => _) = _
  cases st.action r.store <;> rfl

/-- Muted statements perform their actions and nothing else. -/
theorem Statement.exec_forM_muted :
    ∀ (sts : List Statement) (r : Recorder), (∀ st ∈ sts, st.Obeys D D.silent) →
      D.store r.store → ∃ res r', D.Steps limits r r' ∧ (∀ e, res = .error e → D.stop e) ∧
        (sts.forM (Statement.run limits [])).exec (r.withMuted 1) = (res, r'.withMuted 1)
  | [], r, _, _ => ⟨.ok (), r, .refl, ⟨fun _ h => (nomatch h), rfl⟩⟩
  | st :: sts, r, h, hs => by
    have hst := h st (by simp) r.store hs
    show ∃ res r', _ ∧ _ ∧
      (do st.run limits []; sts.forM (Statement.run limits [])).exec (r.withMuted 1) = _
    rw [Run.exec_bind, Statement.exec_run_muted]
    cases ha : st.action r.store with
    | error f =>
      rw [ha] at hst
      exact ⟨.error (.fault f), r, .refl, fun e he => by cases he; exact hst, rfl⟩
    | ok a =>
      rw [ha] at hst
      obtain ⟨res, r', hsteps, he, heq⟩ := exec_forM_muted sts (r.perform a)
        (fun st hst => h st (by simp [hst])) (D.keeps hs (Or.inr hst))
      exact ⟨res, r', .head (.silent a hst) hsteps, he, heq⟩

theorem Statement.keeps_runSilently {sts : List Statement} (h : ∀ st ∈ sts, st.Obeys D D.silent) :
    D.Keeps limits (Statement.runSilently limits sts) := by
  intro r hm hs
  obtain ⟨res, r', hsteps, he, heq⟩ := Statement.exec_forM_muted sts r h hs
  have hexec : (Statement.runSilently limits sts).exec r = (res, r') := by
    unfold Statement.runSilently
    rw [Run.exec_silently, hm, heq]
    have hm' : r'.muted = 0 := hsteps.muted.trans hm
    show (res, { r' with muted := 0 }) = (res, r')
    rw [← hm']
  rw [hexec]
  cases res with
  | ok a => exact .finished a hsteps
  | error e => exact .stopped hsteps (he e rfl)

theorem Condition.keeps_decide {c : Condition} (h : c.Obeys D) (line : Text) :
    D.Keeps limits (c.decide limits line) := by
  rw [Condition.decide_eq]
  refine D.keeps_bind (D.keeps_test h) fun b => ?_
  exact D.keeps_bind (D.keeps_run (D.condition b) line) fun _ => D.keeps_pure b

theorem Loop.keeps_iterate (line item : Text) (total : Nat) {body : Run Unit}
    (hbody : D.Keeps limits body) :
    ∀ (position : Nat) (values : List Value), (∀ v ∈ values, ∀ position total,
      D.action (.bind item v (.progress item v.display position total))) →
      D.Keeps limits (iterate limits line item total body position values)
  | _, [], _ => D.keeps_pure ()
  | position, v :: rest, h => by
    rw [iterate_cons]
    refine D.keeps_bind (D.keeps_run (h v (by simp) position total) line) fun _ => ?_
    refine D.keeps_bind hbody fun _ => ?_
    exact keeps_iterate line item total hbody (position + 1) rest fun v hv => h v (by simp [hv])

theorem Loop.keeps_repeatWhile (line : Text) {cond : Condition} (counter : Option Text)
    {body update : Run Unit} (hc : cond.Obeys D) (hbody : D.Keeps limits body)
    (hupdate : D.Keeps limits update) :
    ∀ left position : Nat,
      D.Keeps limits (repeatWhile limits line cond counter body update left position)
  | 0, _ => D.keeps_pure ()
  | left + 1, position => by
    rw [repeatWhile_succ]
    refine D.keeps_bind (D.keeps_test hc) fun b => ?_
    cases b with
    | false => exact D.keeps_pure ()
    | true =>
      refine D.keeps_bind (D.keeps_attempt line fun s _ => D.round s counter position) fun _ => ?_
      refine D.keeps_bind hbody fun _ => D.keeps_bind hupdate fun _ => ?_
      exact keeps_repeatWhile line counter hc hbody hupdate left (position + 1)

theorem Loop.keeps_run {head : Loop} (h : head.Obeys D) (line : Text) {body : Run Unit}
    (hbody : D.Keeps limits body) : D.Keeps limits (head.run limits line body) := by
  cases hg : head.isGuarded with
  | false =>
    rw [run_eq_iterate limits line body hg]
    have hsweep : ∀ s, D.store s → D.Grants (Sweep.Obeys D head.item) (head.sweep s) := by
      cases head with
      | guarded => cases hg
      | _ => exact h
    exact D.keeps_lift hsweep fun w hw => keeps_iterate line _ _ hbody 1 _ (hw limits.entries)
  | true =>
    cases head with
    | guarded init cond update counter =>
      obtain ⟨hinit, hcond, hupdate⟩ := h
      refine D.keeps_bind (Statement.keeps_runSilently hinit) fun _ => ?_
      exact keeps_repeatWhile line counter hcond hbody (Statement.keeps_runSilently hupdate) _ 1
    | _ => cases hg

theorem keeps_circle (line : Text) {cond : Condition} (hc : cond.Obeys D)
    (hstop : D.stop .stalled) : ∀ left : Nat, D.Keeps limits (circle limits line cond left)
  | 0 => D.keeps_throw hstop
  | left + 1 => by
    unfold circle
    refine D.keeps_bind (Condition.keeps_decide hc line) fun b => ?_
    cases b with
    | false => exact keeps_circle line hc hstop left
    | true => exact D.keeps_throw hstop

mutual

/-- The run of a program that obeys a discipline ends as the discipline says. -/
theorem Program.keeps_run : ∀ (p : Program) (stop : Nat), p.Obeys D →
    D.Keeps limits (p.run limits stop)
  | .done, stop, _ => by
    rw [Program.run]
    exact D.keeps_pure ()
  | .plain index line statement rest, stop, ⟨hst, hrest⟩ => by
    rw [Program.run]
    split_ifs
    · exact D.keeps_bind (Statement.keeps_run hst line) fun _ => rest.keeps_run stop hrest
    · exact D.keeps_pure ()
  | .branch index chain rest, stop, ⟨hchain, hrest⟩ => by
    rw [Program.run]
    split_ifs
    · exact D.keeps_bind (chain.keeps_run false hchain) fun _ => rest.keeps_run stop hrest
    · exact D.keeps_pure ()
  | .loop index line head body bodyStop rest, stop, ⟨hhead, hbody, hrest⟩ => by
    rw [Program.run]
    split_ifs
    · exact D.keeps_bind (Loop.keeps_run hhead line (body.keeps_run bodyStop hbody)) fun _ =>
        rest.keeps_run stop hrest
    · exact D.keeps_pure ()

/-- The run of a chain that obeys a discipline ends as the discipline says. -/
theorem Chain.keeps_run : ∀ (c : Chain) (taken : Bool), c.Obeys D →
    D.Keeps limits (c.run limits taken)
  | .finished, taken, _ => by
    rw [Chain.run]
    exact D.keeps_pure ()
  | .clause line cond body stop next, taken, ⟨hcond, hbody, hnext⟩ => by
    rw [Chain.run]
    split_ifs
    · exact next.keeps_run true hnext
    · refine D.keeps_bind (Condition.keeps_decide hcond line) fun b => ?_
      cases b with
      | false => exact next.keeps_run false hnext
      | true =>
        exact D.keeps_bind (body.keeps_run stop hbody) fun _ => next.keeps_run true hnext
  | .otherwise body stop, taken, hbody => by
    rw [Chain.run]
    split_ifs
    · exact D.keeps_pure ()
    · exact body.keeps_run stop hbody
  | .malformed, taken, hstop => by
    rw [Chain.run]
    exact D.keeps_throw hstop
  | .circular line cond, taken, ⟨hcond, hstop⟩ => by
    rw [Chain.run]
    split_ifs
    · exact D.keeps_throw hstop
    · exact keeps_circle line hcond hstop _

end

variable (limits) in
/-- The outcome of a program that obeys a discipline: the trace at the end of a row of steps, or a
stop that the discipline allows. -/
theorem Program.outcome_obeys {p : Program} (hp : p.Obeys D) (hempty : D.store .empty)
    (count : Nat) : match p.outcome limits count with
      | .trace entries => ∃ r, D.Steps limits (.start .empty) r ∧ entries = r.trace.toList
      | .fault f => D.stop (.fault f)
      | .stalled => D.stop .stalled := by
  have hend : D.Ends limits _ ((p.run limits count).run.run (.start .empty)) :=
    p.keeps_run count hp (.start .empty) rfl hempty
  unfold Program.outcome
  generalize (p.run limits count).run.run (.start .empty) = y at hend ⊢
  cases hend with
  | finished _ hsteps => exact ⟨_, hsteps, rfl⟩
  | @stopped r' e hsteps he =>
    cases e with
    | limit => exact ⟨_, hsteps, rfl⟩
    | fault f => exact he
    | stalled => exact he
  | refused a hsteps _ _ => exact ⟨_, hsteps, rfl⟩

variable (limits) in
theorem Dialect.trace_obeys {d : Dialect} {source : Text} (hp : (Program.read d source).1.Obeys D)
    (hempty : D.store .empty) : match d.trace limits source with
      | .trace entries => ∃ r, D.Steps limits (.start .empty) r ∧ entries = r.trace.toList
      | .fault f => D.stop (.fault f)
      | .stalled => D.stop .stalled :=
  Program.outcome_obeys limits hp hempty (Program.read d source).2

end Runs

/-! ## Lenient disciplines -/

/-- The discipline that forbids no action and no fault. Whether a run may stall is left open. -/
def Discipline.lenient (stalls : Prop) : Discipline where
  store _ := True
  action _ := True
  silent _ := True
  stop e := e = .stalled → stalls
  stop_limit h := nomatch h
  condition _ := trivial
  round _ _ _ := trivial
  keeps _ _ := trivial

section Lenient

variable {stalls : Prop}

theorem Discipline.lenient_fault (f : Fault) : (lenient stalls).stop (.fault f) := by
  intro h
  cases h

theorem Statement.obeys_lenient (st : Statement) : st.Obeys (.lenient stalls) fun _ => True :=
  fun _ _ => Discipline.grants_of_ok Discipline.lenient_fault fun _ _ => trivial

theorem Condition.obeys_lenient (c : Condition) : c.Obeys (.lenient stalls) :=
  c.obeys_of_stop Discipline.lenient_fault

theorem Loop.obeys_lenient (head : Loop) : head.Obeys (.lenient stalls) := by
  cases head with
  | guarded init cond update counter =>
    exact ⟨fun st _ => st.obeys_lenient, cond.obeys_lenient, fun st _ => st.obeys_lenient⟩
  | _ =>
    exact fun _ _ => Discipline.grants_of_ok Discipline.lenient_fault fun _ _ _ _ _ _ _ => trivial

end Lenient

/-- The discipline that forbids nothing. -/
abbrev Discipline.free : Discipline := .lenient True

theorem Discipline.free_stop (e : Stop) : free.stop e := fun _ => trivial

mutual

theorem Program.obeys_free : ∀ p : Program, p.Obeys .free
  | .done => trivial
  | .plain _ _ st rest => ⟨st.obeys_lenient, rest.obeys_free⟩
  | .branch _ chain rest => ⟨chain.obeys_free, rest.obeys_free⟩
  | .loop _ _ head body _ rest => ⟨head.obeys_lenient, body.obeys_free, rest.obeys_free⟩

theorem Chain.obeys_free : ∀ c : Chain, c.Obeys .free
  | .finished => trivial
  | .clause _ cond body _ next => ⟨cond.obeys_lenient, body.obeys_free, next.obeys_free⟩
  | .otherwise body _ => body.obeys_free
  | .malformed => Discipline.free_stop _
  | .circular _ cond => ⟨cond.obeys_lenient, Discipline.free_stop _⟩

end

end StepTrace
