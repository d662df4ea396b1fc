import StepTrace.Proofs.Run.Discipline

/-!
# Runs that differ in their traces

What a run does to the variables and the output depends on the variables and the output alone. The
trace matters only because the limit of entries may end the run. So two computations that do the
same but record it differently are alike (`Alike`): from states with the same variables and output
they lead to such states with the same result, unless one of them reaches the limit. A silent
statement and a recorded one are alike (`Alike.silent`), and every program is like itself
(`Program.alike_run`).
-/

namespace StepTrace

/-- Two states with the same variables and the same output, inside of as many silent parts. -/
structure Recorder.Same (r r' : Recorder) : Prop where
  store : r.store = r'.store
  outputs : r.outputs = r'.outputs
  muted : r.muted = r'.muted

namespace Recorder.Same

variable {r r' : Recorder}

theorem refl (r : Recorder) : r.Same r := ⟨rfl, rfl, rfl⟩

theorem withMuted (h : r.Same r') (muted : Nat) : (r.withMuted muted).Same (r'.withMuted muted) :=
  ⟨h.store, h.outputs, rfl⟩

theorem perform (h : r.Same r') {a a' : Action} (hstore : a.store = a'.store)
    (houtputs : a.outputs = a'.outputs) : (r.perform a).Same (r'.perform a') := by
  refine ⟨?_, ?_, h.muted⟩
  · show a.store r.store = a'.store r'.store
    rw [hstore, h.store]
  · show a.outputs r.outputs = a'.outputs r'.outputs
    rw [houtputs, h.outputs]

end Recorder.Same

/-- Two results are the same and leave the same variables and output, unless one is that the limit
of entries was reached. -/
def SameResult (p q : Except Stop α × Recorder) : Prop :=
  p.1 = .error .limit ∨ q.1 = .error .limit ∨ p.1 = q.1 ∧ p.2.Same q.2

/-- Two computations lead from states with the same variables and output to the same result. -/
def Alike (x y : Run α) : Prop :=
  ∀ r r' : Recorder, r.Same r' → SameResult (x.exec r) (y.exec r')

namespace Alike

variable {limits : Limits}

theorem bind {x y : Run α} {f g : α → Run β} (hxy : Alike x y) (hfg : ∀ a, Alike (f a) (g a)) :
    Alike (x >>= f) (y >>= g) := by
  intro r r' h
  have hres := hxy r r' h
  rw [Run.exec_bind, Run.exec_bind]
  generalize x.exec r = p at hres ⊢
  generalize y.exec r' = q at hres ⊢
  obtain ⟨res, s⟩ := p
  obtain ⟨res', s'⟩ := q
  rcases hres with hlimit | hlimit | ⟨heq, hsame⟩
  · obtain rfl : res = .error .limit := hlimit
    exact Or.inl rfl
  · obtain rfl : res' = .error .limit := hlimit
    exact Or.inr (Or.inl rfl)
  · obtain rfl : res = res' := heq
    cases res with
    | error e => exact Or.inr (Or.inr ⟨rfl, hsame⟩)
    | ok a => exact hfg a s s' hsame

theorem pure (a : α) : Alike (Pure.pure a : Run α) (Pure.pure a) :=
  fun _ _ h => Or.inr (Or.inr ⟨rfl, h⟩)

theorem throw (e : Stop) : Alike (MonadExcept.throw e : Run α) (MonadExcept.throw e) :=
  fun _ _ h => Or.inr (Or.inr ⟨rfl, h⟩)

theorem lift (found : Except Fault α) : Alike (Run.lift found) (Run.lift found) := by
  cases found with
  | ok a => exact .pure a
  | error f => exact .throw _

/-- What is computed from the variables is the same. -/
theorem store {f g : Store → Run α} (h : ∀ s, Alike (f s) (g s)) :
    Alike (Run.store >>= f) (Run.store >>= g) := by
  intro r r' hr
  rw [Run.exec_bind_ok (Run.exec_store r), Run.exec_bind_ok (Run.exec_store r'), ← hr.store]
  exact h r.store r r' hr

/-- Actions with the same effect are alike, whatever they note. -/
theorem run {a a' : Action} (hstore : a.store = a'.store) (houtputs : a.outputs = a'.outputs)
    (line line' : Text) : Alike (a.run limits line) (a'.run limits line') := by
  intro r r' h
  have hperform := h.perform hstore houtputs
  rw [Action.exec_run, Action.exec_run, ← h.muted]
  split_ifs
  · exact Or.inr (Or.inr ⟨rfl, hperform⟩)
  · exact Or.inl rfl
  · exact Or.inl rfl
  · exact Or.inr (Or.inl rfl)
  · exact Or.inr (Or.inr ⟨rfl, hperform.store, hperform.outputs, hperform.muted⟩)

theorem test (c : Condition) : Alike c.test c.test := store fun s => lift (c.eval s)

theorem decide (c : Condition) (line : Text) :
    Alike (c.decide limits line) (c.decide limits line) := by
  rw [Condition.decide_eq]
  exact (test c).bind fun b => (run rfl rfl line line).bind fun _ => pure b

theorem attempt (find : Store → Except Fault Action) (line line' : Text) :
    Alike (Run.attempt limits line find) (Run.attempt limits line' find) :=
  store fun s => (lift (find s)).bind fun _ => run rfl rfl line line'

/-- The records of two rounds do nothing else. -/
theorem round (counter counter' : Option Text) (line line' : Text) (position : Nat) :
    Alike (Run.attempt limits line fun s => .ok (.idle (Loop.roundNote s counter position)))
      (Run.attempt limits line' fun s => .ok (.idle (Loop.roundNote s counter' position))) := by
  intro r r' h
  rw [Run.exec_attempt, Run.exec_attempt]
  refine run ?_ ?_ line line' r r' h <;> rfl

theorem statement (st : Statement) (line line' : Text) :
    Alike (st.run limits line) (st.run limits line') := by
  rw [Statement.run_eq, Statement.run_eq]
  exact attempt st.action line line'

/-! ### Silent parts -/

theorem silently {part : Run Unit} (h : Alike part part) :
    Alike (Run.silently part) (Run.silently part) := by
  intro r r' hr
  rw [Run.exec_silently, Run.exec_silently, ← hr.muted]
  rcases h _ _ (hr.withMuted (r.muted + 1)) with hlimit | hlimit | ⟨heq, hsame⟩
  · exact Or.inl hlimit
  · exact Or.inr (Or.inl hlimit)
  · refine Or.inr (Or.inr ⟨heq, hsame.store, hsame.outputs, ?_⟩)
    exact congrArg (· - 1) hsame.muted

theorem forM (sts : List Statement) :
    Alike (sts.forM (Statement.run limits [])) (sts.forM (Statement.run limits [])) := by
  induction sts with
  | nil => exact .pure ()
  | cons st sts ih => exact (statement st [] []).bind fun _ => ih

theorem runSilently (sts : List Statement) :
    Alike (Statement.runSilently limits sts) (Statement.runSilently limits sts) :=
  silently (forM sts)

/-- A statement does the same whether or not it is recorded. -/
theorem silent (st : Statement) (line : Text) :
    Alike (Statement.runSilently limits [st]) (st.run limits line) := by
  intro r r' h
  have hsilent : (Statement.runSilently limits [st]).exec r =
      (Run.silently (st.run limits [])).exec r := by
    show (Run.silently (st.run limits [] >>= fun _ => Pure.pure ())).exec r = _
    rw [bind_pure_unit]
  have hstore : (r.withMuted (r.muted + 1)).store = r.store := rfl
  rw [hsilent, Run.exec_silently, Statement.run_eq, Statement.run_eq, Run.exec_attempt,
    Run.exec_attempt, hstore, ← h.store]
  cases st.action r.store with
  | error f => exact Or.inr (Or.inr ⟨rfl, h⟩)
  | ok a =>
    have hperform : (r.perform a).Same (r'.perform a) := h.perform rfl rfl
    have hmuted : (a.run limits []).exec (r.withMuted (r.muted + 1)) =
        (.ok (), (r.perform a).withMuted (r.muted + 1)) := rfl
    dsimp only
    rw [hmuted, Action.exec_run]
    split_ifs
    · exact Or.inr (Or.inr ⟨rfl, hperform⟩)
    · exact Or.inr (Or.inl rfl)
    · exact Or.inr (Or.inr ⟨rfl, hperform.store, hperform.outputs, hperform.muted⟩)

/-! ### Loops -/

variable {body : Run Unit}

theorem iterate (hbody : Alike body body) (line item : Text) (total : Nat) :
    ∀ (values : List Value) (position : Nat),
      Alike (Loop.iterate limits line item total body position values)
        (Loop.iterate limits line item total body position values)
  | [], _ => .pure ()
  | value :: values, position => by
    rw [Loop.iterate_cons]
    exact (run rfl rfl line line).bind fun _ => hbody.bind fun _ =>
      iterate hbody line item total values (position + 1)

theorem repeatWhile (hbody : Alike body body) {update : Run Unit} (hupdate : Alike update update)
    (line : Text) (cond : Condition) (counter : Option Text) : ∀ left position : Nat,
      Alike (Loop.repeatWhile limits line cond counter body update left position)
        (Loop.repeatWhile limits line cond counter body update left position)
  | 0, _ => .pure ()
  | left + 1, position => by
    rw [Loop.repeatWhile_succ]
    refine (test cond).bind fun b => ?_
    cases b with
    | false => exact .pure ()
    | true =>
      exact (round counter counter line line position).bind fun _ => hbody.bind fun _ =>
        hupdate.bind fun _ => repeatWhile hbody hupdate line cond counter left (position + 1)

theorem loop (hbody : Alike body body) (head : Loop) (line : Text) :
    Alike (head.run limits line body) (head.run limits line body) := by
  cases hg : head.isGuarded with
  | false =>
    rw [Loop.run_eq_iterate _ line body hg]
    exact store fun s => (lift (head.sweep s)).bind fun w => iterate hbody line _ _ _ 1
  | true =>
    cases head with
    | guarded init cond update counter =>
      exact (runSilently init).bind fun _ =>
        repeatWhile hbody (runSilently update) line cond counter _ 1
    | _ => cases hg

theorem circle (line : Text) (cond : Condition) : ∀ left : Nat,
    Alike (StepTrace.circle limits line cond left) (StepTrace.circle limits line cond left)
  | 0 => .throw _
  | left + 1 => by
    unfold StepTrace.circle
    refine (decide cond line).bind fun b => ?_
    cases b with
    | false => exact circle line cond left
    | true => exact .throw _

end Alike

/-! ## Programs -/

section Programs

variable {limits : Limits}

mutual

/-- A program does the same to the same variables and output. -/
theorem Program.alike_run : ∀ (p : Program) (stop : Nat),
    Alike (p.run limits stop) (p.run limits stop)
  | .done, stop => by
    rw [Program.run]
    exact .pure ()
  | .plain index line statement rest, stop => by
    rw [Program.run]
    split_ifs
    · exact (Alike.statement statement line line).bind fun _ => rest.alike_run stop
    · exact .pure ()
  | .branch index chain rest, stop => by
    rw [Program.run]
    split_ifs
    · exact (chain.alike_run false).bind fun _ => rest.alike_run stop
    · exact .pure ()
  | .loop index line head body bodyStop rest, stop => by
    rw [Program.run]
    split_ifs
    · exact (Alike.loop (body.alike_run bodyStop) head line).bind fun _ => rest.alike_run stop
    · exact .pure ()

/-- A chain does the same to the same variables and output. -/
theorem Chain.alike_run : ∀ (c : Chain) (taken : Bool),
    Alike (c.run limits taken) (c.run limits taken)
  | .finished, taken => by
    rw [Chain.run]
    exact .pure ()
  | .clause line cond body stop next, taken => by
    rw [Chain.run]
    split_ifs
    · exact next.alike_run true
    · refine (Alike.decide cond line).bind fun b => ?_
      cases b with
      | false => exact next.alike_run false
      | true => exact (body.alike_run stop).bind fun _ => next.alike_run true
  | .otherwise body stop, taken => by
    rw [Chain.run]
    split_ifs
    · exact .pure ()
    · exact body.alike_run stop
  | .malformed, taken => by
    rw [Chain.run]
    exact .throw _
  | .circular line cond, taken => by
    rw [Chain.run]
    split_ifs
    · exact .throw _
    · exact .circle line cond _

end

end Programs

end StepTrace
