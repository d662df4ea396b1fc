import StepTrace.Proofs.Pattern.Reach
import StepTrace.Proofs.Program.Read
import StepTrace.Proofs.Trace.WellFormed

/-!
# Traces without gaps

In a dialect whose loops have no start and no update, nothing happens between two entries of a
trace. The first entry begins with nothing bound and nothing printed, and every other one begins
where the entry before it ended (`Gapless`). So a trace can be replayed from its entries alone, and
what was printed up to an entry is what the entries up to it show (`Gapless.finalOutput_eq`).

That nothing happens in between is a discipline without silent actions (`Discipline.recorded`). A
program obeys it if its loops do, and only the loops with clauses do not.
-/

namespace StepTrace

/-- Nothing bound and nothing printed. -/
def Snapshot.empty : Snapshot := ⟨.empty, .empty⟩

/-! ## Entries one after the other -/

/-- Every entry begins where the one before it ended, and the first one with nothing. -/
structure Gapless (entries : List Entry) : Prop where
  first : ∀ e ∈ entries.head?, e.before = .empty
  linked : entries.IsChain fun a b => b.before = a.after

/-- The variables and the output at the end of a trace. -/
def lastSnapshot (entries : List Entry) : Snapshot :=
  (entries.getLast?.map Entry.after).getD .empty

namespace Gapless

theorem nil : Gapless [] := ⟨fun _ h => (nomatch h), List.isChain_nil⟩

theorem append {entries : List Entry} {e : Entry} (h : Gapless entries)
    (he : e.before = lastSnapshot entries) : Gapless (entries ++ [e]) where
  first a ha := by
    cases entries with
    | nil =>
      obtain rfl : e = a := by simpa using ha
      exact he
    | cons b entries => exact h.first a ha
  linked := by
    refine h.linked.append (List.isChain_singleton e) fun a ha b hb => ?_
    obtain rfl : e = b := by simpa using hb
    rw [he, lastSnapshot, ha]
    rfl

theorem of_isPrefix {entries part : List Entry} (h : Gapless entries) (hpart : part <+: entries) :
    Gapless part where
  first e he := by
    obtain ⟨rest, rfl⟩ := hpart
    refine h.first e ?_
    cases part with
    | nil => cases he
    | cons a part => exact he
  linked := h.linked.prefix hpart

/-- The last entry begins where the entries before it ended. -/
theorem before_of_append {entries : List Entry} {e : Entry} (h : Gapless (entries ++ [e])) :
    e.before = lastSnapshot entries := by
  rcases List.eq_nil_or_concat entries with rfl | ⟨front, a, rfl⟩
  · exact h.first e rfl
  · have hlinked := h.linked
    rw [List.concat_eq_append, List.append_assoc, List.isChain_append] at hlinked
    rw [lastSnapshot, List.concat_eq_append, List.getLast?_concat]
    exact (List.isChain_cons_cons.1 hlinked.2.1).1

/-- Up to the end of a trace the lines were printed that its entries show. -/
theorem finalOutput_eq {entries : List Entry} (h : Gapless entries)
    (hconsistent : ∀ e ∈ entries, e.Consistent) :
    finalOutput entries = entries.filterMap Entry.output := by
  have hlast : ∀ es : List Entry, finalOutput es = (lastSnapshot es).outputs.toList := by
    intro es
    rw [finalOutput, lastSnapshot]
    cases es.getLast? <;> rfl
  rw [hlast]
  induction entries using List.reverseRecOn with
  | nil => rfl
  | append_singleton front e ih =>
    have hfront := ih (h.of_isPrefix (List.prefix_append _ _))
      fun a ha => hconsistent a (by simp [ha])
    have hout := (hconsistent e (by simp)).outputs
    rw [h.before_of_append, hfront] at hout
    rw [lastSnapshot, List.getLast?_concat, List.filterMap_append]
    show e.after.outputs.toList = _
    rw [hout]
    cases hprinted : e.output with
    | none => simp [hprinted]
    | some line => simp [hprinted]

end Gapless

/-! ## Runs that record everything -/

/-- The discipline under which every action is recorded. -/
def Discipline.recorded : Discipline where
  store _ := True
  action _ := True
  silent _ := False
  stop _ := True
  stop_limit := trivial
  condition _ := trivial
  round _ _ _ := trivial
  keeps _ _ := trivial

/-- The trace has no gaps and ends with the state as it is. -/
structure Recorder.Gapless (r : Recorder) : Prop where
  trace : StepTrace.Gapless r.trace.toList
  last : lastSnapshot r.trace.toList = r.snapshot

namespace Recorder.Gapless

theorem start : (Recorder.start .empty).Gapless := ⟨.nil, rfl⟩

theorem step {limits : Limits} {r r' : Recorder} (h : r.Gapless)
    (hstep : Discipline.recorded.Step limits r r') : r'.Gapless := by
  cases hstep with
  | recorded line a _ _ =>
    have hlist : (r.performRecorded line a).trace.toList = r.trace.toList ++ [r.entry line a] := by
      simp [Recorder.performRecorded]
    refine ⟨?_, ?_⟩
    · rw [hlist]
      exact h.trace.append h.last.symm
    · rw [hlist, lastSnapshot, List.getLast?_concat]
      rfl
  | silent a ha => exact ha.elim

theorem steps {limits : Limits} {r r' : Recorder} (h : r.Gapless)
    (hsteps : Discipline.recorded.Steps limits r r') : r'.Gapless := by
  induction hsteps with
  | refl => exact h
  | tail _ hstep ih => exact ih.step hstep

end Recorder.Gapless

/-! ## Dialects without clauses -/

/-- No loop of the dialect has a start and an update. -/
def Dialect.isClauseless (d : Dialect) : Bool := d.loops.all fun loop => loop.2 ≠ .clauses

/-- Only a loop with clauses does anything that is not recorded. -/
theorem readLoop_obeys_recorded (d : Dialect) (f : Found) {form : LoopForm}
    (h : form ≠ .clauses) : (readLoop d f form).Obeys .recorded := by
  cases form with
  | clauses => exact absurd rfl h
  | condition =>
    exact ⟨fun _ h => (nomatch h), Condition.obeys_of_stop (fun _ => trivial) _,
      fun _ h => (nomatch h)⟩
  | _ =>
    exact fun _ _ => Discipline.grants_of_ok (fun _ => trivial) fun _ _ _ _ _ _ _ => trivial

theorem Dialect.lineObeys_recorded {d : Dialect} (hd : d.isClauseless) (line header : Text) :
    d.LineObeys .recorded line header where
  statement _ _ := Discipline.grants_of_ok (fun _ => trivial) fun _ _ => trivial
  loop head hhead := by
    obtain ⟨⟨f, form⟩, hf, rfl⟩ := Option.map_eq_some_iff.1 hhead
    obtain ⟨p, hp, -⟩ := Pattern.mem_of_firstMatch? hf
    have hform : form ≠ .clauses := by simpa using List.all_eq_true.1 hd (p, form) hp
    exact readLoop_obeys_recorded d f hform

theorem Program.read_obeys_recorded {d : Dialect} (hd : d.isClauseless) (source : Text) :
    (Program.read d source).1.Obeys .recorded := by
  have hcond : ∀ t, (Condition.read t).Obeys .recorded :=
    fun _ => Condition.obeys_of_stop (fun _ => trivial) _
  unfold Program.read
  cases d.layout with
  | indented =>
    exact Program.ofIndented_obeys hcond fun line _ =>
      ⟨Dialect.lineObeys_recorded hd _ _, fun _ => trivial⟩
  | braced =>
    exact Program.ofBraced_obeys hcond (Or.inl trivial) fun line _ =>
      Dialect.lineObeys_recorded hd _ _

theorem Dialect.gapless_of_trace {d : Dialect} (hd : d.isClauseless) {limits : Limits}
    {source : Text} {entries : List Entry} (h : d.trace limits source = .trace entries) :
    Gapless entries := by
  have hout := Dialect.trace_obeys limits (Program.read_obeys_recorded hd source) trivial
  rw [h] at hout
  obtain ⟨r, hsteps, rfl⟩ := hout
  exact (Recorder.Gapless.start.steps hsteps).trace

/-- In Python, Rust and the dialect of all other snippets a trace has no gaps, and at every point
the lines were printed that the entries up to it show. -/
theorem Dialect.trace_gapless {d : Dialect} (hd : d = .python ∨ d = .generic ∨ d = .rust)
    (limits : Limits) (source : Text) {entries : List Entry}
    (h : d.trace limits source = .trace entries) :
    Gapless entries ∧
      ∀ part, part <+: entries → finalOutput part = part.filterMap Entry.output := by
  have hclauseless : d.isClauseless := by
    rcases hd with rfl | rfl | rfl <;> rfl
  have hgapless := Dialect.gapless_of_trace hclauseless h
  have hconsistent := (Program.outcome_wellFormed h).consistent
  refine ⟨hgapless, fun part hpart => ?_⟩
  exact (hgapless.of_isPrefix hpart).finalOutput_eq fun e he => hconsistent e (hpart.subset he)

/-- A loop that changes a variable and prints, cut by the limit in the middle of a round. -/
theorem Dialect.trace_gapless_loop : ∃ entries,
    Dialect.rust.trace { Limits.usual with entries := 8 }
      "let mut x = 1; while x < 9 \x7b x *= 2; println!(\"\x7b\x7d\", x); \x7d".toList =
      .trace entries ∧ entries.length = 8 ∧ Gapless entries ∧
      finalOutput (entries.take 7) = (entries.take 7).filterMap Entry.output := by
  obtain ⟨entries, h, hlen⟩ := Outcome.exists_trace_of_length (n := 8)
    (o := Dialect.rust.trace { Limits.usual with entries := 8 }
      "let mut x = 1; while x < 9 \x7b x *= 2; println!(\"\x7b\x7d\", x); \x7d".toList)
    (by decide +kernel)
  obtain ⟨hgapless, hout⟩ :=
    Dialect.trace_gapless (Or.inr (Or.inr rfl)) { Limits.usual with entries := 8 } _ h
  exact ⟨entries, h, hlen, hgapless, hout _ (List.take_prefix 7 entries)⟩

end StepTrace
