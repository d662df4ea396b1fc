import StepTrace.Proofs.Structured.Tree
import StepTrace.Proofs.Trace.Limit

/-!
# Ranges that are cut

Of a range a run visits at most as many values as there may be entries. Beside it stands the run of
the same structured program that visits all values. Both do the same until the first one has no
value left. Its trace is full by then, because every round has recorded an entry. So the run over
all values is stopped by the limit in its next round, and the other one goes on behind the loop. It
can record nothing there, but it can still fail.

`Cut` states this of two results and `Curtails` of two computations. The loop over a range is the
only part of a structured program that needs an argument (`Loop.cut_iterate`). For whole runs it
follows that their outcomes are the same, or the trace of the run over all values is full and the
other run fails behind it (`Curtails.outcome`).
-/

namespace StepTrace

/-- Two results are the same, or the first one's trace is full and the limit has stopped the second
run with the same trace. -/
def Cut (limits : Limits) (p q : Except Stop α × Recorder) : Prop :=
  p = q ∨ limits.entries ≤ p.2.trace.size ∧ q.1 = .error .limit ∧ q.2.trace = p.2.trace

/-- The results of two computations are so wherever they start. -/
structure Curtails (limits : Limits) (x y : Run α) : Prop where
  keeps : (Discipline.lenient False).Keeps limits x
  cut : ∀ r, r.muted = 0 → Cut limits (x.exec r) (y.exec r)

section Curtailed

variable {limits : Limits}

/-- Once the second of two runs has been stopped, the first one records nothing more. -/
theorem Cut.bind {x y : Run α} {f g : α → Run β} {r : Recorder} (hm : r.muted = 0)
    (hx : (Discipline.lenient False).Keeps limits x)
    (hf : ∀ a, (Discipline.lenient False).Keeps limits (f a))
    (hxy : Cut limits (x.exec r) (y.exec r))
    (hfg : ∀ a r', x.exec r = (.ok a, r') → r'.muted = 0 →
      Cut limits ((f a).exec r') ((g a).exec r')) :
    Cut limits ((x >>= f).exec r) ((y >>= g).exec r) := by
  have hxm : (x.exec r).2.muted = 0 := (hx r hm trivial).muted.trans hm
  rcases hxy with heq | ⟨hfull, hlimit, htrace⟩
  · rw [Run.exec_bind, Run.exec_bind, ← heq]
    rcases hres : x.exec r with ⟨e | a, r'⟩
    · exact Or.inl rfl
    · rw [hres] at hxm
      exact hfg a r' hres hxm
  · refine Or.inr ?_
    rw [trace_bind_of_full hxm hf hfull, Run.exec_bind y]
    generalize y.exec r = q at hlimit htrace ⊢
    obtain ⟨res, r'⟩ := q
    obtain rfl : res = .error .limit := hlimit
    exact ⟨hfull, rfl, htrace⟩

namespace Curtails

theorem refl {x : Run α} (h : (Discipline.lenient False).Keeps limits x) : Curtails limits x x :=
  ⟨h, fun _ _ => Or.inl rfl⟩

theorem bind {x y : Run α} {f g : α → Run β} (hxy : Curtails limits x y)
    (hfg : ∀ a, Curtails limits (f a) (g a)) : Curtails limits (x >>= f) (y >>= g) where
  keeps := Discipline.keeps_bind hxy.keeps fun a => (hfg a).keeps
  cut r hm := Cut.bind hm hxy.keeps (fun a => (hfg a).keeps) (hxy.cut r hm) fun a r' _ hm' =>
    (hfg a).cut r' hm'

theorem pure (a : α) : Curtails limits (Pure.pure a : Run α) (Pure.pure a) :=
  refl (Discipline.keeps_pure a)

theorem store : Curtails limits Run.store Run.store :=
  refl fun r _ _ => .finished r.store .refl

theorem lift (found : Except Fault α) : Curtails limits (Run.lift found) (Run.lift found) := by
  refine refl fun r _ _ => ?_
  cases found with
  | ok a => exact .finished a .refl
  | error f => exact .stopped .refl fun h => nomatch h

end Curtails

/-! ## Loops -/

/-- A loop over some values and over these and more. If there are more, the rounds that both have
are enough to fill the trace. -/
theorem Loop.cut_iterate (line item : Text) (total : Nat) {body body' : Run Unit}
    (hbody : Curtails limits body body') :
    ∀ (us vs : List Value) (position : Nat) (r : Recorder), r.muted = 0 →
      (vs = [] ∨ limits.entries ≤ (r.trace.size : Int) + us.length) →
      Cut limits ((iterate limits line item total body position us).exec r)
        ((iterate limits line item total body' position (us ++ vs)).exec r)
  | [], [], _, _, _, _ => Or.inl rfl
  | [], v :: vs, position, r, hm, h => by
    have hfull : limits.entries ≤ r.trace.size := by simpa using h
    refine Or.inr ⟨hfull, ?_⟩
    rw [List.nil_append, iterate_cons, Run.exec_bind, Action.exec_run_unmuted _ _ _ hm,
      if_pos hfull]
    exact ⟨rfl, rfl⟩
  | u :: us, vs, position, r, hm, h => by
    have hrest := fun position => keeps_iterate line item total hbody.keeps position us
      fun _ _ _ _ => trivial
    have hround : (Discipline.lenient False).Keeps limits
        ((Action.bind item u (.progress item u.display position total)).run limits line) :=
      Discipline.keeps_run trivial line
    rw [List.cons_append, iterate_cons, iterate_cons]
    refine Cut.bind hm hround (fun _ => Discipline.keeps_bind hbody.keeps fun _ => hrest _)
      (Or.inl rfl) fun _ r₁ h₁ hm₁ => ?_
    refine Cut.bind hm₁ hbody.keeps (fun _ => hrest _) (hbody.cut r₁ hm₁) fun _ r₂ h₂ hm₂ => ?_
    refine cut_iterate line item total hbody us vs (position + 1) r₂ hm₂
      (h.imp_right fun hlen => ?_)
    have hsize₁ := Action.size_of_exec_run hm h₁
    have hsize₂ := Discipline.Ends.size_le (h₂ ▸ hbody.keeps r₁ hm₁ trivial)
    rw [List.length_cons] at hlen
    push_cast at hlen
    omega

theorem Curtails.repeatWhile (line : Text) (cond : Condition) (counter : Option Text)
    {body body' update : Run Unit} (hbody : Curtails limits body body')
    (hupdate : (Discipline.lenient False).Keeps limits update) :
    ∀ left position : Nat, Curtails limits
      (Loop.repeatWhile limits line cond counter body update left position)
      (Loop.repeatWhile limits line cond counter body' update left position)
  | 0, _ => .pure ()
  | left + 1, position => by
    rw [Loop.repeatWhile_succ, Loop.repeatWhile_succ]
    refine (Curtails.refl (Discipline.keeps_test cond.obeys_lenient)).bind fun b => ?_
    cases b with
    | false => exact .pure ()
    | true =>
      have hround : (Discipline.lenient False).Keeps limits (Run.attempt limits line fun s =>
          .ok (.idle (Loop.roundNote s counter position))) :=
        Discipline.keeps_attempt line fun _ _ => trivial
      refine (Curtails.refl hround).bind fun _ => ?_
      refine hbody.bind fun _ => (Curtails.refl hupdate).bind fun _ => ?_
      exact repeatWhile line cond counter hbody hupdate left (position + 1)

/-- The values that are not visited are at the end of a sweep, and there are some only if as many
are visited as there may be entries. -/
theorem Sweep.values_eq (limit : Int) (w : Sweep) : ∃ vs,
    w.values = w.visited limit ++ vs ∧ (vs = [] ∨ limit ≤ (w.visited limit).length) := by
  have hall : w.values = w.visited (max limit w.total) := by
    cases w with
    | items values => rfl
    | numbers start stop step h =>
      have hcount : (min (Progression.total start stop step : Int)
          (max limit (Progression.total start stop step))).toNat =
          Progression.total start stop step := by
        omega
      simp only [values, visited, total, hcount]
  rw [hall]
  exact w.visited_append (Int.le_max_left _ _)

namespace Structured

theorem curtails_runLoop (line : Text) {body body' : Run Unit} (hbody : Curtails limits body body')
    (head : Loop) : Curtails limits (runLoop limits (·.visited limits.entries) line body head)
      (runLoop limits Sweep.values line body' head) := by
  have hsilent : ∀ sts : List Statement,
      (Discipline.lenient False).Keeps limits (Statement.runSilently limits sts) :=
    fun _ => Statement.keeps_runSilently fun st _ => st.obeys_lenient
  have hknown : ∀ head : Loop, Curtails limits
      (do
        let w ← Run.lift (head.sweep (← Run.store))
        Loop.iterate limits line head.item w.total body 1 (w.visited limits.entries))
      (do
        let w ← Run.lift (head.sweep (← Run.store))
        Loop.iterate limits line head.item w.total body' 1 w.values) := by
    intro head
    refine Curtails.store.bind fun s => (Curtails.lift (head.sweep s)).bind fun w => ?_
    refine ⟨Loop.keeps_iterate line _ _ hbody.keeps _ _ fun _ _ _ _ => trivial, fun r hm => ?_⟩
    obtain ⟨vs, hvs, hlen⟩ := w.values_eq limits.entries
    rw [hvs]
    exact Loop.cut_iterate line head.item w.total hbody _ vs 1 r hm (hlen.imp_right (by omega))
  cases head with
  | guarded init cond update counter =>
    exact (Curtails.refl (hsilent init)).bind fun _ =>
      .repeatWhile line cond counter hbody (hsilent update) _ 1
  | _ => exact hknown _

/-! ## Structured programs -/

theorem curtails_either {test : Run Bool} {yes yes' no no' : Run Unit}
    (htest : (Discipline.lenient False).Keeps limits test) (hyes : Curtails limits yes yes')
    (hno : Curtails limits no no') :
    Curtails limits (Run.either test yes no) (Run.either test yes' no') := by
  refine (Curtails.refl htest).bind fun holds => ?_
  cases holds with
  | true => exact hyes
  | false => exact hno

mutual

/-- A structured program whose ranges are cut and the same one over whole ranges. -/
theorem Block.curtails_run (d : Dialect) : ∀ b : Block, Curtails limits
    (b.run d limits (·.visited limits.entries)) (b.run d limits Sweep.values)
  | .done => by
    rw [Block.run, Block.run]
    exact .pure ()
  | .leaf text rest => by
    rw [Block.run, Block.run]
    refine (Curtails.refl ?_).bind fun _ => rest.curtails_run d
    exact Statement.keeps_run (Statement.obeys_lenient _) text
  | .branch cond body further rest => by
    rw [Block.run, Block.run]
    refine (curtails_either ?_ (body.curtails_run d) (further.curtails_run d)).bind fun _ =>
      rest.curtails_run d
    exact Condition.keeps_decide (Condition.obeys_lenient _) _
  | .loop header head body rest => by
    rw [Block.run, Block.run]
    exact (curtails_runLoop _ (body.curtails_run d) head).bind fun _ => rest.curtails_run d

theorem Clauses.curtails_run (d : Dialect) : ∀ c : Clauses, Curtails limits
    (c.run d limits (·.visited limits.entries)) (c.run d limits Sweep.values)
  | .none => by
    rw [Clauses.run, Clauses.run]
    exact .pure ()
  | .clause cond body next => by
    rw [Clauses.run, Clauses.run]
    refine curtails_either ?_ (body.curtails_run d) (next.curtails_run d)
    exact Condition.keeps_decide (Condition.obeys_lenient _) _
  | .otherwise body => by
    rw [Clauses.run, Clauses.run]
    exact body.curtails_run d

end

end Structured

/-! ## Outcomes -/

theorem Discipline.Ends.wellFormed {D : Discipline} {r : Recorder} {x : Except Stop α × Recorder}
    (hr : r.WellFormed limits) (h : D.Ends limits r x) : WellFormed limits x.2.trace.toList := by
  cases h with
  | finished _ hs => exact (hr.steps hs).trace
  | stopped hs _ => exact (hr.steps hs).trace
  | refused _ hs _ _ => exact (hr.steps hs).trace

/-- The outcomes of two such runs are the same, or the first run fails where the second one has a
full trace. -/
theorem Curtails.outcome {x y : Run Unit} (h : Curtails limits x y) :
    x.outcome = y.outcome ∨ ∃ f entries, x.outcome = .fault f ∧ y.outcome = .trace entries ∧
      entries.length = limits.entries.toNat := by
  have hends := h.keeps (.start .empty) rfl trivial
  unfold Run.outcome
  rcases h.cut (.start .empty) rfl with heq | ⟨hfull, hlimit, htrace⟩
  · rw [heq]
    exact Or.inl rfl
  · have hlen := (hends.wellFormed (Recorder.WellFormed.start limits .empty)).length_le
    generalize x.exec (.start .empty) = p at *
    generalize y.exec (.start .empty) = q at *
    obtain ⟨res, r⟩ := p
    obtain ⟨res', r'⟩ := q
    obtain rfl : res' = .error .limit := hlimit
    have hsame : Outcome.trace r.trace.toList = .trace r'.trace.toList :=
      congrArg (fun trace => Outcome.trace trace.toList) htrace.symm
    match res with
    | .ok _ => exact Or.inl hsame
    | .error .limit => exact Or.inl hsame
    | .error (.fault f) =>
      refine Or.inr ⟨f, _, rfl, hsame.symm, ?_⟩
      have hfull : limits.entries ≤ r.trace.toList.length := hfull
      have hlen : (r.trace.toList.length : Int) ≤ max 0 limits.entries := hlen
      omega
    | .error .stalled =>
      cases hends with
      | stopped _ hstop => exact (hstop rfl).elim

end Curtailed

end StepTrace
