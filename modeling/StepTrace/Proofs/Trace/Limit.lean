import StepTrace.Proofs.Trace.WellFormed
import StepTrace.Trace.Build

/-!
# The limit of entries

Two runs of one program with different limits of entries do the same until the smaller limit is
reached. Then they part: the run with the smaller limit may leave a loop over numbers early and go
on with other variables, since the limit also cuts such loops. But its trace is full by then,
because every round of such a loop has recorded an entry, so nothing it does afterwards can be seen.
The trace of the other run only grows.

`Agree` states this of two results and `Truncates` of two computations. That it holds of a program
under two limits follows the structure of the program (`Program.truncates_run`), with two loops that
need an argument of their own: a loop over numbers, which has fewer rounds under the smaller limit
(`Loop.agree_iterate`), and a clause that leads back to itself (`agree_circle`).
-/

namespace StepTrace

/-- The same limits with another limit of entries. -/
def Limits.withEntries (limits : Limits) (entries : Int) : Limits :=
  { limits with entries := entries }

/-! ## Full traces -/

namespace Discipline

variable {D : Discipline} {limits : Limits} {r r' : Recorder}

theorem Step.trace_isPrefix (h : D.Step limits r r') : r.trace.toList <+: r'.trace.toList := by
  cases h with
  | recorded line a _ _ => simp [Recorder.performRecorded, Recorder.perform]
  | silent a _ => exact List.prefix_refl _

theorem Steps.trace_isPrefix (h : D.Steps limits r r') : r.trace.toList <+: r'.trace.toList := by
  induction h with
  | refl => exact List.prefix_refl _
  | tail _ step ih => exact ih.trans step.trace_isPrefix

theorem Steps.trace_of_full (hfull : limits.entries ≤ r.trace.size) (h : D.Steps limits r r') :
    r'.trace = r.trace := by
  induction h with
  | refl => rfl
  | tail _ step ih =>
    cases step with
    | recorded line a hlt _ =>
      rw [ih] at hlt
      omega
    | silent a _ => exact ih

theorem Ends.muted {x : Except Stop α × Recorder} (h : D.Ends limits r x) :
    x.2.muted = r.muted := by
  cases h with
  | finished _ hs => exact hs.muted
  | stopped hs _ => exact hs.muted
  | refused _ hs _ _ => exact hs.muted

theorem Ends.trace_isPrefix {x : Except Stop α × Recorder} (h : D.Ends limits r x) :
    r.trace.toList <+: x.2.trace.toList := by
  cases h with
  | finished _ hs => exact hs.trace_isPrefix
  | stopped hs _ => exact hs.trace_isPrefix
  | refused _ hs _ _ => exact hs.trace_isPrefix

/-- A run from a state whose trace is full records nothing more. -/
theorem Ends.trace_of_full {x : Except Stop α × Recorder} (hfull : limits.entries ≤ r.trace.size)
    (h : D.Ends limits r x) : x.2.trace = r.trace := by
  cases h with
  | finished _ hs => exact hs.trace_of_full hfull
  | stopped hs _ => exact hs.trace_of_full hfull
  | refused a hs _ _ => exact (hs.trace_of_full hfull : _)

end Discipline

/-! ## Agreement -/

/-- Two results are the same, or the first one's trace is full and begins the second one's. -/
def Agree (m : Int) (p q : Except Stop α × Recorder) : Prop :=
  p = q ∨ m ≤ p.2.trace.size ∧ p.2.trace.toList <+: q.2.trace.toList

/-- Two computations, the first under the limit `m` and the second under `n`, agree wherever they
start. -/
structure Truncates (limits : Limits) (m n : Int) (x y : Run α) : Prop where
  left : Discipline.free.Keeps (limits.withEntries m) x
  right : Discipline.free.Keeps (limits.withEntries n) y
  agree : ∀ r, r.muted = 0 → Agree m (x.exec r) (y.exec r)

section Agreement

variable {limits : Limits} {m n : Int}

theorem trace_bind_of_full {stalls : Prop} {x : Run α} {f : α → Run β} {r : Recorder}
    (hm : (x.exec r).2.muted = 0) (hf : ∀ a, (Discipline.lenient stalls).Keeps limits (f a))
    (hfull : limits.entries ≤ (x.exec r).2.trace.size) :
    ((x >>= f).exec r).2.trace = (x.exec r).2.trace := by
  rw [Run.exec_bind]
  generalize x.exec r = p at hm hfull ⊢
  obtain ⟨e | a, r'⟩ := p
  · rfl
  · exact (hf a r' hm trivial).trace_of_full hfull

theorem trace_prefix_bind {x : Run α} {f : α → Run β} {r : Recorder}
    (hm : (x.exec r).2.muted = 0) (hf : ∀ a, Discipline.free.Keeps limits (f a)) :
    (x.exec r).2.trace.toList <+: ((x >>= f).exec r).2.trace.toList := by
  rw [Run.exec_bind]
  generalize x.exec r = p at hm ⊢
  obtain ⟨e | a, r'⟩ := p
  · exact List.prefix_refl _
  · exact (hf a r' hm trivial).trace_isPrefix

/-- Once the first of two runs has a full trace it no longer matters what either of them does. -/
theorem Agree.bind {x y : Run α} {f g : α → Run β} {r : Recorder} (hm : r.muted = 0)
    (hx : Discipline.free.Keeps (limits.withEntries m) x)
    (hy : Discipline.free.Keeps (limits.withEntries n) y)
    (hf : ∀ a, Discipline.free.Keeps (limits.withEntries m) (f a))
    (hg : ∀ a, Discipline.free.Keeps (limits.withEntries n) (g a))
    (hxy : Agree m (x.exec r) (y.exec r))
    (hfg : ∀ a r', x.exec r = (.ok a, r') → r'.muted = 0 →
      Agree m ((f a).exec r') ((g a).exec r')) :
    Agree m ((x >>= f).exec r) ((y >>= g).exec r) := by
  have hxm : (x.exec r).2.muted = 0 := (hx r hm trivial).muted.trans hm
  have hym : (y.exec r).2.muted = 0 := (hy r hm trivial).muted.trans hm
  rcases hxy with heq | ⟨hfull, hpre⟩
  · rw [Run.exec_bind, Run.exec_bind, ← heq]
    rcases hres : x.exec r with ⟨e | a, r'⟩
    · exact Or.inl rfl
    · rw [hres] at hxm
      exact hfg a r' hres hxm
  · refine Or.inr ?_
    rw [trace_bind_of_full hxm hf hfull]
    exact ⟨hfull, hpre.trans (trace_prefix_bind hym hg)⟩

namespace Truncates

theorem bind {x y : Run α} {f g : α → Run β} (hxy : Truncates limits m n x y)
    (hfg : ∀ a, Truncates limits m n (f a) (g a)) : Truncates limits m n (x >>= f) (y >>= g) where
  left := Discipline.keeps_bind hxy.left fun a => (hfg a).left
  right := Discipline.keeps_bind hxy.right fun a => (hfg a).right
  agree r hm := Agree.bind hm hxy.left hxy.right (fun a => (hfg a).left) (fun a => (hfg a).right)
    (hxy.agree r hm) fun a r' _ hm' => (hfg a).agree r' hm'

theorem pure (a : α) : Truncates limits m n (Pure.pure a : Run α) (Pure.pure a) :=
  ⟨Discipline.keeps_pure a, Discipline.keeps_pure a, fun _ _ => Or.inl rfl⟩

theorem throw (e : Stop) : Truncates limits m n (MonadExcept.throw e : Run α)
    (MonadExcept.throw e) :=
  ⟨Discipline.keeps_throw (Discipline.free_stop _),
    Discipline.keeps_throw (Discipline.free_stop _), fun _ _ => Or.inl rfl⟩

/-- An action is recorded in both runs, or refused in the first one, whose trace is full. -/
theorem run (hmn : m ≤ n) (a : Action) (line : Text) : Truncates limits m n
    (a.run (limits.withEntries m) line) (a.run (limits.withEntries n) line) where
  left := Discipline.keeps_run trivial line
  right := Discipline.keeps_run trivial line
  agree r hm := by
    rw [Action.exec_run_unmuted _ line a hm, Action.exec_run_unmuted _ line a hm]
    show Agree m (if m ≤ r.trace.size then _ else _) (if n ≤ r.trace.size then _ else _)
    by_cases hfull : m ≤ r.trace.size
    · rw [if_pos hfull]
      refine Or.inr ⟨hfull, ?_⟩
      split_ifs
      · exact List.prefix_refl _
      · simp [Recorder.performRecorded, Recorder.perform]
    · rw [if_neg hfull, if_neg (by omega)]
      exact Or.inl rfl

/-- What does not look at the limit is the same under both. -/
theorem same {x : Run α} (h : ∀ limits, Discipline.free.Keeps limits x) :
    Truncates limits m n x x :=
  ⟨h _, h _, fun _ _ => Or.inl rfl⟩

theorem store : Truncates limits m n Run.store Run.store :=
  same fun _ r _ _ => .finished r.store .refl

theorem lift (found : Except Fault α) : Truncates limits m n (Run.lift found) (Run.lift found) := by
  refine same fun _ r _ _ => ?_
  cases found with
  | ok a => exact .finished a .refl
  | error f => exact .stopped .refl (Discipline.free_stop _)

theorem test (c : Condition) : Truncates limits m n c.test c.test :=
  store.bind fun s => lift (c.eval s)

theorem attempt (hmn : m ≤ n) (find : Store → Except Fault Action) (line : Text) :
    Truncates limits m n (Run.attempt (limits.withEntries m) line find)
      (Run.attempt (limits.withEntries n) line find) :=
  store.bind fun s => (lift (find s)).bind fun a => run hmn a line

theorem statement (hmn : m ≤ n) (st : Statement) (line : Text) : Truncates limits m n
    (st.run (limits.withEntries m) line) (st.run (limits.withEntries n) line) := by
  rw [Statement.run_eq, Statement.run_eq]
  exact attempt hmn st.action line

theorem decide (hmn : m ≤ n) (c : Condition) (line : Text) : Truncates limits m n
    (c.decide (limits.withEntries m) line) (c.decide (limits.withEntries n) line) := by
  rw [Condition.decide_eq, Condition.decide_eq]
  exact (test c).bind fun b => (run hmn _ line).bind fun _ => pure b

end Truncates

/-! ## Silent parts -/

theorem Statement.exec_forM_limits (l l' : Limits) : ∀ (sts : List Statement) (r : Recorder),
    r.muted ≠ 0 →
      (sts.forM (Statement.run l [])).exec r = (sts.forM (Statement.run l' [])).exec r
  | [], _, _ => rfl
  | st :: sts, r, hm => by
    have hst : (st.run l []).exec r = (st.run l' []).exec r := by
      rw [Statement.run_eq, Statement.run_eq, Run.exec_attempt, Run.exec_attempt]
      cases st.action r.store with
      | error f => rfl
      | ok a => simp only [Action.exec_run, if_pos hm]
    have hkeep : ((st.run l' []).exec r).2.muted ≠ 0 := by
      rw [Statement.run_eq, Run.exec_attempt]
      cases st.action r.store with
      | error f => exact hm
      | ok a =>
        simp only [Action.exec_run, if_pos hm]
        exact hm
    show (do st.run l []; sts.forM (Statement.run l [])).exec r =
      (do st.run l' []; sts.forM (Statement.run l' [])).exec r
    rw [Run.exec_bind, Run.exec_bind, hst]
    generalize (st.run l' []).exec r = p at hkeep ⊢
    obtain ⟨e | _, r'⟩ := p
    · rfl
    · exact exec_forM_limits l l' sts r' hkeep

/-- Silent parts record nothing, so the limits do not matter to them. -/
theorem Statement.runSilently_limits (l l' : Limits) (sts : List Statement) :
    Statement.runSilently l sts = Statement.runSilently l' sts := by
  refine Run.ext fun r => ?_
  unfold Statement.runSilently
  rw [Run.exec_silently, Run.exec_silently,
    Statement.exec_forM_limits l l' sts _ (Nat.succ_ne_zero r.muted)]

theorem Truncates.silently (sts : List Statement) : Truncates limits m n
    (Statement.runSilently (limits.withEntries m) sts)
    (Statement.runSilently (limits.withEntries n) sts) := by
  rw [Statement.runSilently_limits (limits.withEntries m) (limits.withEntries n)]
  refine Truncates.same fun l => ?_
  rw [Statement.runSilently_limits (limits.withEntries n) l]
  exact Statement.keeps_runSilently fun st _ => st.obeys_lenient

/-! ## Loops -/

theorem Action.size_of_exec_run {limits : Limits} {line : Text} {a : Action} {r r' : Recorder}
    {u : Unit} (hm : r.muted = 0) (h : (a.run limits line).exec r = (.ok u, r')) :
    r'.trace.size = r.trace.size + 1 := by
  rw [Action.exec_run_unmuted limits line a hm] at h
  split_ifs at h
  · cases h
  · cases h
    exact Array.size_push _

theorem Condition.size_of_exec_decide {limits : Limits} {line : Text} {c : Condition}
    {r r' : Recorder} {b : Bool} (hm : r.muted = 0)
    (h : (c.decide limits line).exec r = (.ok b, r')) : r'.trace.size = r.trace.size + 1 := by
  rw [Condition.decide_eq, Run.exec_bind, Condition.exec_test] at h
  cases hc : c.eval r.store with
  | error f =>
    rw [hc] at h
    cases h
  | ok b' =>
    simp only [hc, Run.exec_bind] at h
    rcases hrun : ((Action.idle (.condition b')).run limits line).exec r with ⟨e | u, r''⟩
    · rw [hrun] at h
      cases h
    · rw [hrun] at h
      cases h
      exact Action.size_of_exec_run hm hrun

theorem Discipline.Ends.size_le {D : Discipline} {r r' : Recorder} {res : Except Stop α}
    (h : D.Ends limits r (res, r')) : r.trace.size ≤ r'.trace.size := by
  simpa using h.trace_isPrefix.length_le

/-- A loop over some values under the first limit and over these and more under the second one. If
there are more, the rounds that both have are enough to fill the first trace. -/
theorem Loop.agree_iterate (hmn : m ≤ n) (line item : Text) (total : Nat) {body body' : Run Unit}
    (hbody : Truncates limits m n body body') :
    ∀ (us vs : List Value) (position : Nat) (r : Recorder), r.muted = 0 →
      (vs = [] ∨ m ≤ (r.trace.size : Int) + us.length) →
      Agree m ((iterate (limits.withEntries m) line item total body position us).exec r)
        ((iterate (limits.withEntries n) line item total body' position (us ++ vs)).exec r)
  | [], vs, position, r, hm, h => by
    rcases h with rfl | h
    · exact Or.inl rfl
    · have hfull : m ≤ r.trace.size := by simpa using h
      refine Or.inr ⟨hfull, ?_⟩
      exact (keeps_iterate line item total hbody.right position vs (fun _ _ _ _ => trivial) r hm
        trivial).trace_isPrefix
  | u :: us, vs, position, r, hm, h => by
    have hleft := fun position => keeps_iterate line item total hbody.left position us
      fun _ _ _ _ => trivial
    have hright := fun position => keeps_iterate line item total hbody.right position (us ++ vs)
      fun _ _ _ _ => trivial
    have hrun : Truncates limits m n _ _ :=
      .run hmn (.bind item u (.progress item u.display position total)) line
    rw [List.cons_append, iterate_cons, iterate_cons]
    refine Agree.bind hm hrun.left hrun.right
      (fun _ => Discipline.keeps_bind hbody.left fun _ => hleft (position + 1))
      (fun _ => Discipline.keeps_bind hbody.right fun _ => hright (position + 1))
      (hrun.agree r hm) fun _ r₁ h₁ hm₁ => ?_
    refine Agree.bind hm₁ hbody.left hbody.right (fun _ => hleft (position + 1))
      (fun _ => hright (position + 1)) (hbody.agree r₁ hm₁) fun _ r₂ h₂ hm₂ => ?_
    refine agree_iterate hmn line item total hbody us vs (position + 1) r₂ hm₂
      (h.imp_right fun hlen => ?_)
    have hsize₁ := Action.size_of_exec_run hm h₁
    have hsize₂ := Discipline.Ends.size_le (h₂ ▸ hbody.left r₁ hm₁ trivial)
    rw [List.length_cons] at hlen
    push_cast at hlen
    omega

theorem Truncates.repeatWhile (hmn : m ≤ n) (line : Text) (cond : Condition)
    (counter : Option Text) {body body' update update' : Run Unit}
    (hbody : Truncates limits m n body body') (hupdate : Truncates limits m n update update') :
    ∀ left position : Nat, Truncates limits m n
      (Loop.repeatWhile (limits.withEntries m) line cond counter body update left position)
      (Loop.repeatWhile (limits.withEntries n) line cond counter body' update' left position)
  | 0, _ => .pure ()
  | left + 1, position => by
    rw [Loop.repeatWhile_succ, Loop.repeatWhile_succ]
    refine (Truncates.test cond).bind fun b => ?_
    cases b with
    | false => exact .pure ()
    | true =>
      refine (Truncates.attempt hmn _ line).bind fun _ => ?_
      refine hbody.bind fun _ => hupdate.bind fun _ => ?_
      exact repeatWhile hmn line cond counter hbody hupdate left (position + 1)

/-- A smaller limit leaves a part at the end of a sweep unvisited only if it has as many rounds as
entries. -/
theorem Sweep.visited_append (hmn : m ≤ n) (w : Sweep) : ∃ vs,
    w.visited n = w.visited m ++ vs ∧ (vs = [] ∨ m ≤ (w.visited m).length) := by
  cases w with
  | items values => exact ⟨[], by simp [visited], Or.inl rfl⟩
  | numbers start stop step h =>
    simp only [visited, Progression.values]
    generalize (Progression.total start stop step : Int) = total
    obtain ⟨more, hmore⟩ : ∃ more, (min total n).toNat = (min total m).toNat + more :=
      ⟨(min total n).toNat - (min total m).toNat, by omega⟩
    rw [hmore, List.range_add, List.map_append, List.map_append]
    refine ⟨_, rfl, ?_⟩
    cases more with
    | zero => exact Or.inl rfl
    | succ more =>
      refine Or.inr ?_
      rw [List.length_map, List.length_map, List.length_range]
      omega

theorem Truncates.loop (hmn : m ≤ n) (head : Loop) (line : Text) {body body' : Run Unit}
    (hbody : Truncates limits m n body body') : Truncates limits m n
      (head.run (limits.withEntries m) line body) (head.run (limits.withEntries n) line body') := by
  cases hg : head.isGuarded with
  | false =>
    rw [Loop.run_eq_iterate _ line body hg, Loop.run_eq_iterate _ line body' hg]
    refine Truncates.store.bind fun s => (Truncates.lift (head.sweep s)).bind fun w => ?_
    obtain ⟨vs, hvs, hlen⟩ := w.visited_append hmn
    refine ⟨Loop.keeps_iterate line _ _ hbody.left _ _ fun _ _ _ _ => trivial,
      Loop.keeps_iterate line _ _ hbody.right _ _ fun _ _ _ _ => trivial, fun r hm => ?_⟩
    show Agree m _ ((Loop.iterate _ line head.item w.total body' 1 (w.visited n)).exec r)
    rw [hvs]
    refine Loop.agree_iterate hmn line head.item w.total hbody _ vs 1 r hm ?_
    refine hlen.imp_right fun h => ?_
    show m ≤ (r.trace.size : Int) + (w.visited m).length
    omega
  | true =>
    cases head with
    | guarded init cond update counter =>
      exact (Truncates.silently init).bind fun _ =>
        .repeatWhile hmn line cond counter hbody (.silently update) _ 1
    | _ => cases hg

theorem keeps_circle_free (limits : Limits) (line : Text) (cond : Condition) (left : Nat) :
    Discipline.free.Keeps limits (circle limits line cond left) :=
  keeps_circle line cond.obeys_lenient (Discipline.free_stop _) left

/-- A clause that leads back to itself is decided under the first limit as often as it takes to fill
the trace, and under the second one at least as often. -/
theorem agree_circle (hmn : m ≤ n) (line : Text) (cond : Condition) :
    ∀ (left left' : Nat) (r : Recorder), r.muted = 0 → left ≤ left' →
      m ≤ (r.trace.size : Int) + left →
      Agree m ((circle (limits.withEntries m) line cond left).exec r)
        ((circle (limits.withEntries n) line cond left').exec r)
  | 0, left', r, hm, _, hlen => by
    have hfull : m ≤ r.trace.size := by simpa using hlen
    exact Or.inr ⟨hfull, (keeps_circle_free _ line cond left' r hm trivial).trace_isPrefix⟩
  | left + 1, 0, _, _, hle, _ => by omega
  | left + 1, left' + 1, r, hm, hle, hlen => by
    have hdecide : Truncates limits m n _ _ := .decide hmn cond line
    unfold circle
    refine Agree.bind hm hdecide.left hdecide.right (fun b => ?_) (fun b => ?_)
      (hdecide.agree r hm) fun b r₁ h₁ hm₁ => ?_
    · cases b with
      | false => exact keeps_circle_free _ line cond left
      | true => exact Discipline.keeps_throw (Discipline.free_stop _)
    · cases b with
      | false => exact keeps_circle_free _ line cond left'
      | true => exact Discipline.keeps_throw (Discipline.free_stop _)
    · cases b with
      | false =>
        refine agree_circle hmn line cond left left' r₁ hm₁ (by omega) ?_
        have hsize := Condition.size_of_exec_decide hm h₁
        push_cast at hlen
        omega
      | true => exact Or.inl rfl

theorem Truncates.circle (hmn : m ≤ n) (line : Text) (cond : Condition) : Truncates limits m n
    (StepTrace.circle (limits.withEntries m) line cond (m.toNat + 1))
    (StepTrace.circle (limits.withEntries n) line cond (n.toNat + 1)) where
  left := keeps_circle_free _ line cond _
  right := keeps_circle_free _ line cond _
  agree r hm := agree_circle hmn line cond _ _ r hm (by omega) (by omega)

/-! ## Programs -/

mutual

/-- The limit of entries only cuts the run of a program. -/
theorem Program.truncates_run (hmn : m ≤ n) : ∀ (p : Program) (stop : Nat), Truncates limits m n
    (p.run (limits.withEntries m) stop) (p.run (limits.withEntries n) stop)
  | .done, stop => by
    rw [Program.run, Program.run]
    exact .pure ()
  | .plain index line statement rest, stop => by
    rw [Program.run, Program.run]
    split_ifs
    · exact (Truncates.statement hmn statement line).bind fun _ => rest.truncates_run hmn stop
    · exact .pure ()
  | .branch index chain rest, stop => by
    rw [Program.run, Program.run]
    split_ifs
    · exact (chain.truncates_run hmn false).bind fun _ => rest.truncates_run hmn stop
    · exact .pure ()
  | .loop index line head body bodyStop rest, stop => by
    rw [Program.run, Program.run]
    split_ifs
    · exact (Truncates.loop hmn head line (body.truncates_run hmn bodyStop)).bind fun _ =>
        rest.truncates_run hmn stop
    · exact .pure ()

/-- The limit of entries only cuts the run of a chain. -/
theorem Chain.truncates_run (hmn : m ≤ n) : ∀ (c : Chain) (taken : Bool), Truncates limits m n
    (c.run (limits.withEntries m) taken) (c.run (limits.withEntries n) taken)
  | .finished, taken => by
    rw [Chain.run, Chain.run]
    exact .pure ()
  | .clause line cond body stop next, taken => by
    rw [Chain.run, Chain.run]
    split_ifs
    · exact next.truncates_run hmn true
    · refine (Truncates.decide hmn cond line).bind fun b => ?_
      cases b with
      | false => exact next.truncates_run hmn false
      | true => exact (body.truncates_run hmn stop).bind fun _ => next.truncates_run hmn true
  | .otherwise body stop, taken => by
    rw [Chain.run, Chain.run]
    split_ifs
    · exact .pure ()
    · exact body.truncates_run hmn stop
  | .malformed, taken => by
    rw [Chain.run, Chain.run]
    exact .throw _
  | .circular line cond, taken => by
    rw [Chain.run, Chain.run]
    split_ifs
    · exact .throw _
    · exact .circle hmn line cond

end

theorem Program.eq_of_outcome {limits : Limits} {p : Program} {count : Nat} {es : List Entry}
    (h : p.outcome limits count = .trace es) :
    ((p.run limits count).exec (.start .empty)).2.trace.toList = es := by
  unfold Program.outcome at h
  unfold Run.exec
  generalize (p.run limits count).run.run (.start .empty) = q at h ⊢
  obtain ⟨(_ | f | _) | _, r⟩ := q <;> cases h <;> rfl

/-- Of two traces of a program the one under the smaller limit is the beginning of the other one. -/
theorem Program.outcome_take (hmn : m ≤ n) {p : Program} {count : Nat} {es fs : List Entry}
    (hm : p.outcome (limits.withEntries m) count = .trace es)
    (hn : p.outcome (limits.withEntries n) count = .trace fs) : es = fs.take m.toNat := by
  have hlen : (es.length : Int) ≤ max 0 m := (Program.outcome_wellFormed hm).length_le
  obtain rfl := Program.eq_of_outcome hm
  obtain rfl := Program.eq_of_outcome hn
  rcases (p.truncates_run hmn count).agree (.start .empty) rfl with heq | ⟨hfull, hpre⟩
  · rw [heq] at hlen ⊢
    rw [List.take_of_length_le (by omega)]
  · rw [List.prefix_iff_eq_take.1 hpre]
    rw [Array.length_toList] at hlen ⊢
    congr 1
    omega

end Agreement

/-! ## The limit of a trace -/

theorem Outcome.eq_trace_of_mapTrace {f : List Entry → List Entry} {o : Outcome} {es : List Entry}
    (h : o.mapTrace f = .trace es) : ∃ es', o = .trace es' ∧ f es' = es := by
  cases o with
  | trace es' => exact ⟨es', rfl, by simpa [mapTrace] using h⟩
  | _ => cases h

/-- The limit of entries only cuts a trace, and one above the part that is shown does not matter. -/
theorem trace_take_of_le (limits : Limits) {m n : Int} (hmn : m ≤ n) (source : Text) :
    (∀ (d : Dialect) (es fs : List Entry), d.trace (limits.withEntries m) source = .trace es →
      d.trace (limits.withEntries n) source = .trace fs → es = fs.take m.toNat) ∧
    ∀ (id : Text) (k : Int) (es fs : List Entry), 0 ≤ k → k ≤ m →
      buildTrace { limits.withEntries m with shown := k } id source = .trace es →
      buildTrace { limits.withEntries n with shown := k } id source = .trace fs → es = fs := by
  refine ⟨fun d es fs hm hn => Program.outcome_take hmn hm hn, fun id k es fs hk hkm hm hn => ?_⟩
  unfold buildTrace at hm hn
  split_ifs at hm hn
  · cases hm
    cases hn
    rfl
  · obtain ⟨es', hes, rfl⟩ := Outcome.eq_trace_of_mapTrace hm
    obtain ⟨fs', hfs, rfl⟩ := Outcome.eq_trace_of_mapTrace hn
    have htake : es' = fs'.take m.toNat := Program.outcome_take hmn
      (show Program.outcome (Limits.withEntries { limits with shown := k } m) _ _ = _ from hes) hfs
    unfold shownPart
    rw [if_pos hk, if_pos hk, htake, List.take_take]
    congr 1
    show min k.toNat m.toNat = k.toNat
    omega

/-- A range loop that the smaller limit cuts in its second round and the larger one does not cut. -/
theorem trace_take_of_le_range : ∃ es fs,
    Dialect.python.trace (Limits.usual.withEntries 3) "for i in range(3):\n x = i".toList =
      .trace es ∧
    Dialect.python.trace (Limits.usual.withEntries 9) "for i in range(3):\n x = i".toList =
      .trace fs ∧
    es.length = 3 ∧ fs.length = 6 ∧ es = fs.take 3 := by
  obtain ⟨es, hm, hes⟩ := Outcome.exists_trace_of_length (n := 3)
    (o := Dialect.python.trace (Limits.usual.withEntries 3) "for i in range(3):\n x = i".toList)
    (by decide +kernel)
  obtain ⟨fs, hn, hfs⟩ := Outcome.exists_trace_of_length (n := 6)
    (o := Dialect.python.trace (Limits.usual.withEntries 9) "for i in range(3):\n x = i".toList)
    (by decide +kernel)
  exact ⟨es, fs, hm, hn, hes, hfs, (trace_take_of_le .usual (by decide) _).1 .python es fs hm hn⟩

end StepTrace
