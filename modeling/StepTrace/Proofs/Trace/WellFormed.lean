import Mathlib.Data.List.Chain
import StepTrace.Dialect.Table
import StepTrace.Proofs.Run.Discipline
import StepTrace.Proofs.Store

/-!
# Well-formed traces

The entries of a trace are numbered from 1 and not more than the limit allows. Each of them agrees
with itself (`Entry.Consistent`): its output grows by the line it shows and by nothing else, at most
one name is bound, and a computation that it shows is what its target was bound to. From the end of
an entry to the beginning of the next one the names and the output can only grow (`Snapshot.Grows`),
which is all that the silent parts of a loop do.

The invariant that a run carries (`Recorder.WellFormed`) adds to this that the state has grown since
the last entry. A step keeps it, whether it is recorded or not (`Recorder.WellFormed.step`), so
every trace of every program is well formed.
-/

namespace StepTrace

/-! ## What well formed means -/

/-- The output and the names at a moment are there at a later one too, in the same order. -/
def Snapshot.Grows (s t : Snapshot) : Prop :=
  s.outputs.toList <+: t.outputs.toList ∧ s.store.names <+: t.store.names

theorem Snapshot.Grows.refl (s : Snapshot) : s.Grows s :=
  ⟨List.prefix_refl _, List.prefix_refl _⟩

theorem Snapshot.Grows.trans {s t u : Snapshot} (h : s.Grows t) (h' : t.Grows u) : s.Grows u :=
  ⟨h.1.trans h'.1, h.2.trans h'.2⟩

/-- What an entry shows agrees with its variables and its output before and after the step. -/
structure Entry.Consistent (e : Entry) : Prop where
  /-- The output grows by the line that was printed and by nothing else. -/
  outputs : e.after.outputs.toList = e.before.outputs.toList ++ e.output.toList
  names : e.before.store.names <+: e.after.store.names
  /-- At most one name is added, as the last one, or has another value. -/
  oneName : ∃ name, (∀ n, n ≠ name → e.after.store.get? n = e.before.store.get? n) ∧
    (e.after.store.names = e.before.store.names ∨
      name ∉ e.before.store.names ∧ e.after.store.names = e.before.store.names ++ [name])
  /-- A step that prints binds nothing. -/
  printed : e.output.isSome → e.after.store = e.before.store
  /-- The target of a computation has its result, and no other name changes. -/
  computed : ∀ o, e.operation = some o → e.after.store.get? o.target = some (.num o.result) ∧
    ∀ n, n ≠ o.target → e.after.store.get? n = e.before.store.get? n

/-- A trace within the limits that is numbered, consistent and without loss from one entry to the
next. -/
structure WellFormed (limits : Limits) (entries : List Entry) : Prop where
  numbered : entries.map Entry.step = List.range' 1 entries.length
  length_le : (entries.length : Int) ≤ max 0 limits.entries
  consistent : ∀ e ∈ entries, e.Consistent
  linked : entries.IsChain fun a b => a.after.Grows b.before

theorem WellFormed.append {limits : Limits} {entries : List Entry} {e : Entry}
    (h : WellFormed limits entries) (hstep : e.step = entries.length + 1)
    (hlen : (entries.length : Int) < limits.entries) (he : e.Consistent)
    (hlink : ∀ a ∈ entries.getLast?, a.after.Grows e.before) :
    WellFormed limits (entries ++ [e]) where
  numbered := by
    rw [List.map_append, h.numbered, List.length_append, List.length_singleton,
      List.range'_1_concat, List.map_singleton, hstep, Nat.add_comm]
  length_le := by
    rw [List.length_append, List.length_singleton]
    omega
  consistent a ha := by
    rcases List.mem_append.1 ha with ha | ha
    · exact h.consistent a ha
    · rw [List.mem_singleton.1 ha]
      exact he
  linked := by
    refine h.linked.append (List.isChain_singleton e) fun a ha b hb => ?_
    obtain rfl : e = b := by simpa using hb
    exact hlink a ha

/-- The number of entries, if the outcome is a trace. -/
def Outcome.length? : Outcome → Option Nat
  | .trace entries => some entries.length
  | _ => none

theorem Outcome.exists_trace_of_length {o : Outcome} {n : Nat} (h : o.length? = some n) :
    ∃ entries, o = .trace entries ∧ entries.length = n := by
  cases o with
  | trace entries => exact ⟨entries, rfl, by simpa [length?] using h⟩
  | _ => cases h

/-! ## Entries of actions -/

theorem Action.apply_grows (a : Action) (s : Snapshot) : s.Grows (a.apply s) := by
  cases a with
  | idle note => exact .refl s
  | bind name value note => exact ⟨List.prefix_refl _, s.store.names_prefix_insert name value⟩
  | compute o note => exact ⟨List.prefix_refl _, s.store.names_prefix_insert o.target _⟩
  | print line note =>
    refine ⟨?_, List.prefix_refl _⟩
    show s.outputs.toList <+: (s.outputs.push line).toList
    rw [Transcript.toList_push]
    exact List.prefix_append _ _

/-- Whatever an action does, its entry agrees with itself. -/
theorem Recorder.entry_consistent (r : Recorder) (line : Text) (a : Action) :
    (r.entry line a).Consistent where
  outputs := by
    cases a with
    | print text note => exact Transcript.toList_push r.outputs text
    | _ => exact (List.append_nil _).symm
  names := (a.apply_grows r.snapshot).2
  oneName := by
    have hbind : ∀ name value, ∃ n, (∀ m, m ≠ n →
        (r.store.insert name value).get? m = r.store.get? m) ∧
        ((r.store.insert name value).names = r.store.names ∨
          n ∉ r.store.names ∧ (r.store.insert name value).names = r.store.names ++ [n]) := by
      intro name value
      refine ⟨name, fun m hm => r.store.get?_insert_of_ne value hm, ?_⟩
      rw [Store.names_insert]
      split_ifs with hmem
      · exact Or.inl rfl
      · exact Or.inr ⟨hmem, rfl⟩
    cases a with
    | idle note => exact ⟨[], fun _ _ => rfl, Or.inl rfl⟩
    | bind name value note => exact hbind name value
    | compute o note => exact hbind o.target (.num o.result)
    | print text note => exact ⟨[], fun _ _ => rfl, Or.inl rfl⟩
  printed h := by
    cases a with
    | print text note => rfl
    | _ => cases h
  computed o h := by
    cases a with
    | compute o' note =>
      cases h
      exact ⟨r.store.get?_insert_self _ _, fun n hn => r.store.get?_insert_of_ne _ hn⟩
    | _ => cases h

/-! ## The invariant -/

/-- The trace is well formed, and the state has grown since its last entry. -/
structure Recorder.WellFormed (limits : Limits) (r : Recorder) : Prop where
  trace : StepTrace.WellFormed limits r.trace.toList
  grown : ∀ e ∈ r.trace.toList.getLast?, e.after.Grows r.snapshot

namespace Recorder.WellFormed

theorem start (limits : Limits) (s : Store) : (Recorder.start s).WellFormed limits where
  trace := ⟨rfl, Int.le_max_left _ _, fun _ h => (nomatch h), List.isChain_nil⟩
  grown _ h := nomatch h

/-- A step keeps the trace well formed: a recorded one by its entry, a silent one since the state
only grows. -/
theorem step {D : Discipline} {limits : Limits} {r r' : Recorder} (h : r.WellFormed limits)
    (hstep : D.Step limits r r') : r'.WellFormed limits := by
  cases hstep with
  | recorded line a hlen _ =>
    have hlist : (r.performRecorded line a).trace.toList = r.trace.toList ++ [r.entry line a] := by
      simp [Recorder.performRecorded]
    refine ⟨?_, fun e he => ?_⟩
    · rw [hlist]
      exact h.trace.append rfl hlen (r.entry_consistent line a) h.grown
    · rw [hlist, List.getLast?_concat] at he
      obtain rfl : r.entry line a = e := by simpa using he
      exact .refl _
  | silent a _ =>
    exact ⟨h.trace, fun e he => (h.grown e he).trans (a.apply_grows r.snapshot)⟩

theorem steps {D : Discipline} {limits : Limits} {r r' : Recorder} (h : r.WellFormed limits)
    (hsteps : D.Steps limits r r') : r'.WellFormed limits := by
  induction hsteps with
  | refl => exact h
  | tail _ hstep ih => exact ih.step hstep

end Recorder.WellFormed

theorem Program.outcome_wellFormed {limits : Limits} {p : Program} {count : Nat}
    {entries : List Entry} (h : p.outcome limits count = .trace entries) :
    WellFormed limits entries := by
  have hout := Program.outcome_obeys limits p.obeys_free trivial count
  rw [h] at hout
  obtain ⟨r, hsteps, rfl⟩ := hout
  exact ((Recorder.WellFormed.start limits .empty).steps hsteps).trace

/-- Every trace that a snippet has in any dialect is well formed. -/
theorem Dialect.trace_wellFormed (d : Dialect) (limits : Limits) (source : Text)
    {entries : List Entry} (h : d.trace limits source = .trace entries) :
    WellFormed limits entries :=
  Program.outcome_wellFormed h

/-- The trace of a loop, whose clauses run silently, and of a line that is printed after it. -/
theorem Dialect.trace_wellFormed_loop : ∃ entries,
    Dialect.c.trace .usual "for (i = 0; i < 2; i++) \x7b x += i; \x7d puts(x);".toList =
      .trace entries ∧ entries.length = 5 ∧ WellFormed .usual entries := by
  obtain ⟨entries, h, hlen⟩ := Outcome.exists_trace_of_length (n := 5)
    (o := Dialect.c.trace .usual "for (i = 0; i < 2; i++) \x7b x += i; \x7d puts(x);".toList)
    (by decide +kernel)
  exact ⟨entries, h, hlen, Dialect.trace_wellFormed .c .usual _ h⟩

end StepTrace
