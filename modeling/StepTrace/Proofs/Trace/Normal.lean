import StepTrace.Proofs.Run.Faults
import StepTrace.Proofs.Trace.WellFormed
import StepTrace.Script.Run

/-!
# Normal forms in traces

A variable holds a text, a number in normal form, or a flat list of numbers in normal form
(`Value.IsNormal`). Normal form is what normalising leaves alone (`Number.normalize_eq_iff`): a
double that is not whole, or a whole number that is not beyond the largest double.

In a run of a snippet this follows from the discipline that keeps everything bound within a bound.
A step keeps it for the variables and for all entries so far (`Recorder.IsNormal.step`), so it holds
of every entry, also of one recorded before a fault. The machine of a script binds results of
arithmetic and values of words only, and keeps it in the same way.
-/

namespace StepTrace

/-! ## Values in normal form -/

/-- A number in range is in normal form exactly if normalising leaves it alone. -/
theorem Number.normalize_eq_iff {n : Number} (h : n.Fits) : n.normalize = n ↔ n.IsNormal := by
  cases n with
  | int n =>
    simp only [normalize, IsNormal]
    split_ifs with hlarge
    · simp [Nat.not_le.2 hlarge]
    · simp [Nat.le_of_not_lt hlarge]
  | float x =>
    have hfits : x.Fits := h
    cases hint : x.toInt? with
    | none => simp [normalize, IsNormal, hint, hfits]
    | some n => simp [normalize, IsNormal, hint]

/-- A text, a number in normal form, or a flat list of numbers in normal form. -/
def Value.IsNormal : Value → Prop
  | .num n => n.IsNormal
  | .text _ => True
  | .list items => ∀ v ∈ items, ∃ n : Number, v = .num n ∧ n.IsNormal
  | _ => False

/-- Every variable holds a value in normal form. -/
def Store.IsNormal (s : Store) : Prop := ∀ b ∈ s.bindings, b.2.IsNormal

theorem Value.Within.isNormal {bound : Nat} {v : Value} (h : v.Within bound) : v.IsNormal := by
  cases v with
  | num n => exact h
  | text t => exact trivial
  | list items => exact h.2
  | _ => exact h

theorem Value.IsNormal.toNumber {v : Value} (h : v.IsNormal) : v.toNumber.IsNormal := by
  refine Value.isNormal_toNumber fun hn => ?_
  cases hn with
  | num => exact h
  | item hv hn =>
    obtain ⟨m, rfl, hm⟩ := h _ hv
    cases hn
    exact hm

namespace Store

theorem mem_bind {name : Text} {value : Value} {b : Text × Value} :
    ∀ {bindings : List (Text × Value)}, b ∈ bind name value bindings →
      b ∈ bindings ∨ b.2 = value
  | [], h => Or.inr (by rw [List.mem_singleton.1 h])
  | (n, v) :: rest, h => by
    rw [bind] at h
    split_ifs at h
    · rcases List.mem_cons.1 h with rfl | h
      · exact Or.inr rfl
      · exact Or.inl (List.mem_cons_of_mem _ h)
    · rcases List.mem_cons.1 h with rfl | h
      · exact Or.inl List.mem_cons_self
      · exact (mem_bind h).imp_left (List.mem_cons_of_mem _)

theorem isNormal_empty : empty.IsNormal := fun _ h => nomatch h

theorem IsNormal.insert {s : Store} (hs : s.IsNormal) {v : Value} (hv : v.IsNormal) (name : Text) :
    (s.insert name v).IsNormal := by
  intro b hb
  rcases mem_bind hb with hb | rfl
  · exact hs b hb
  · exact hv

theorem IsNormal.number {s : Store} (hs : s.IsNormal) (name : Text) :
    (s.number name).IsNormal := by
  unfold Store.number
  cases hv : s.get? name with
  | none => exact Number.isNormal_zero
  | some v => exact (hs _ (mem_of_find? hv)).toNumber

end Store

/-! ## Runs of snippets -/

/-- The variables before and after the step hold values in normal form. -/
def Entry.IsNormal (e : Entry) : Prop := e.before.store.IsNormal ∧ e.after.store.IsNormal

theorem Action.Within.isNormal_store {bound : Nat} {a : Action} (ha : a.Within bound) {s : Store}
    (hs : s.IsNormal) : (a.store s).IsNormal := by
  cases a with
  | bind name value note => exact hs.insert (Value.Within.isNormal ha) name
  | compute operation note => exact hs.insert (v := .num operation.result) ha operation.target
  | idle note => exact hs
  | print line note => exact hs

/-- The variables now and those of every entry so far hold values in normal form. -/
structure Recorder.IsNormal (r : Recorder) : Prop where
  store : r.store.IsNormal
  trace : ∀ e ∈ r.trace, e.IsNormal

namespace Recorder.IsNormal

variable {bound : Nat} {allowed : Fault → Prop} {limits : Limits} {r r' : Recorder}

theorem start : (Recorder.start .empty).IsNormal := ⟨Store.isNormal_empty, fun _ h => nomatch h⟩

theorem step (h : r.IsNormal) (hstep : (Discipline.within bound allowed).Step limits r r') :
    r'.IsNormal := by
  cases hstep with
  | recorded line a _ ha =>
    have hafter : (a.store r.store).IsNormal := Action.Within.isNormal_store ha h.store
    refine ⟨hafter, fun e he => ?_⟩
    rcases Array.mem_push.1 he with he | rfl
    · exact h.trace e he
    · exact ⟨h.store, hafter⟩
  | silent a ha => exact ⟨Action.Within.isNormal_store ha h.store, h.trace⟩

theorem steps (h : r.IsNormal) (hsteps : (Discipline.within bound allowed).Steps limits r r') :
    r'.IsNormal := by
  induction hsteps with
  | refl => exact h
  | tail _ hstep ih => exact ih.step hstep

/-- However a run ends, it has recorded entries in normal form only. -/
theorem trace_of_ends {x : Except Stop α × Recorder} (h : r.IsNormal)
    (hx : (Discipline.within bound allowed).Ends limits r x) : ∀ e ∈ x.2.trace, e.IsNormal := by
  cases hx with
  | finished a hsteps => exact (h.steps hsteps).trace
  | stopped hsteps _ => exact (h.steps hsteps).trace
  | refused a hsteps _ _ => exact (h.steps hsteps).trace

end Recorder.IsNormal

/-- The entries that the run of a snippet has recorded when it ends, in whatever way it ends. -/
def Dialect.recorded (d : Dialect) (limits : Limits) (source : Text) : Array Entry :=
  (((Program.read d source).1.run limits (Program.read d source).2).exec (.start .empty)).2.trace

theorem Dialect.recorded_of_trace {d : Dialect} {limits : Limits} {source : Text}
    {entries : List Entry} (h : d.trace limits source = .trace entries) :
    (d.recorded limits source).toList = entries := by
  replace h : (Program.read d source).1.outcome limits (Program.read d source).2 =
    .trace entries := h
  show (((Program.read d source).1.run limits (Program.read d source).2).run.run
    (.start .empty)).2.trace.toList = entries
  unfold Program.outcome at h
  generalize ((Program.read d source).1.run limits (Program.read d source).2).run.run
    (.start .empty) = x at h
  obtain ⟨(_ | f | _) | _, r⟩ := x
  · exact Outcome.trace.inj h
  · cases h
  · cases h
  · exact Outcome.trace.inj h

theorem Dialect.isNormal_of_mem_recorded {d : Dialect} {limits : Limits} {source : Text}
    (hsize : source.length < 2 ^ 63) : ∀ e ∈ d.recorded limits source, e.IsNormal := by
  have hbound : 4 * source.length + 5 ≤ Double.largestInt := by
    have hlargest : 2 ^ 66 ≤ Double.largestInt := by decide +kernel
    omega
  exact Recorder.IsNormal.start.trace_of_ends
    (Program.keeps_run _ _ (Program.read_obeys d hbound) _ rfl Store.within_empty)

/-! ## Runs of scripts -/

namespace Script

theorem resolve_isNormal {s : Store} (hs : s.IsNormal) (w : Text) : (resolve s w).IsNormal := by
  unfold resolve
  cases hliteral : Number.ofLiteral? w with
  | some n => exact Number.ofLiteral?_isNormal hliteral
  | none =>
    dsimp only
    split_ifs
    · exact Number.isNormal_zero
    · exact hs.number w

/-- An instruction binds the value of a word or the result of an operator, or nothing. -/
theorem Instruction.run_isNormal {m : Machine} (h : m.store.IsNormal) (jumps : Jumps) (line : Nat)
    (i : Instruction) : (i.run jumps line m).2.store.IsNormal := by
  cases i with
  | set name value =>
    exact h.insert (v := .num (resolve m.store value)) (resolve_isNormal h value) name
  | combine command op name value =>
    have hresult : (Number.apply op (m.store.number name) (resolve m.store value)).IsNormal :=
      Number.apply_isNormal op (h.number name).fits _
    exact h.insert (v := .num (Number.apply op (m.store.number name) (resolve m.store value)))
      hresult name
  | print value => exact h
  | enterIf left sign right =>
    delta run
    dsimp only
    split <;> exact h
  | endIf => exact h
  | enterLoop count =>
    delta run
    dsimp only
    split <;> exact h
  | endLoop =>
    delta run
    dsimp only
    cases jumps.loopStart? line with
    | none => exact h
    | some start =>
      dsimp only
      split <;> exact h
  | unknown => exact h

theorem Prepared.step?_isNormal {p : Prepared} {m m' : Machine} {line note : Text}
    (h : m.store.IsNormal) (hstep : p.step? m = some (line, note, m')) : m'.store.IsNormal := by
  obtain ⟨⟨index, text⟩, -, hrun⟩ := Option.map_eq_some_iff.1 hstep
  have hkeeps := Instruction.run_isNormal h p.jumps index (.ofWords text.words)
  cases hrun
  exact hkeeps

theorem Prepared.isNormal_of_mem_steps (p : Prepared) :
    ∀ (left number : Nat) {m : Machine}, m.store.IsNormal →
      ∀ e ∈ (p.steps left number m).1, e.store.IsNormal
  | 0, _, _, _, _, he => nomatch he
  | left + 1, number, m, h, e, he => by
    rw [steps] at he
    cases hstep : p.step? m with
    | none => simp [hstep] at he
    | some found =>
      obtain ⟨line, note, m'⟩ := found
      have hm : m'.store.IsNormal := step?_isNormal h hstep
      rw [hstep] at he
      rcases List.mem_cons.1 he with rfl | he
      · exact hm
      · exact isNormal_of_mem_steps p left (number + 1) hm e he

end Script

/-! ## Every entry -/

/-- In every entry that a run of a snippet records, and in every entry of a script, all variables
hold texts, numbers in normal form or flat lists of numbers in normal form, and normalising leaves
such numbers alone. The entries of a trace are those that its run recorded. -/
theorem Dialect.recorded_isNormal (d : Dialect) (limits : Limits) {source : Text}
    (hsource : source.length < 2 ^ 63) :
    (∀ e ∈ d.recorded limits source, e.before.store.IsNormal ∧ e.after.store.IsNormal) ∧
    (∀ entries, d.trace limits source = .trace entries →
      (d.recorded limits source).toList = entries) ∧
    (∀ script, ∀ e ∈ (Script.run limits script).trace, e.store.IsNormal) ∧
    ∀ n : Number, n.IsNormal → n.normalize = n :=
  ⟨isNormal_of_mem_recorded hsource, fun _ h => recorded_of_trace h,
    fun script => (Script.Prepared.ofText script).isNormal_of_mem_steps _ 1 Store.isNormal_empty,
    fun _ h => (Number.normalize_eq_iff h.fits).2 h⟩

/-- A list, a loop over a range, a quotient that is not whole and a text in one snippet. -/
theorem Dialect.recorded_isNormal_mixed :
    let source := "xs = [1, 2.0, 1e400]\nfor i in range(2):\n  y = i / 2\nt = \"a\"".toList
    ∃ entries, Dialect.python.trace .usual source = .trace entries ∧ entries.length = 6 ∧
      ∀ e ∈ entries, e.before.store.IsNormal ∧ e.after.store.IsNormal := by
  intro source
  have hsource : source.length < 2 ^ 63 := by decide +kernel
  obtain ⟨entries, h, hlen⟩ := Outcome.exists_trace_of_length (n := 6)
    (o := Dialect.python.trace .usual source) (by decide +kernel)
  obtain ⟨hnormal, htrace, -⟩ := Dialect.recorded_isNormal .python .usual hsource
  refine ⟨entries, h, hlen, fun e he => hnormal e ?_⟩
  rw [← Array.mem_toList_iff, htrace entries h]
  exact he

end StepTrace
