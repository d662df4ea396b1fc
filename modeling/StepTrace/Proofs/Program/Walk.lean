import StepTrace.Dialect.Table
import StepTrace.Proofs.Pattern.Reach
import StepTrace.Proofs.Program.Read
import StepTrace.Proofs.Source.Brace
import StepTrace.Proofs.Source.Prepared
import StepTrace.Proofs.Text.Pieces
import StepTrace.Proofs.Trace.WellFormed

/-!
# The walk over the clauses of a conditional

In a braced dialect a conditional is walked from clause to clause: behind the body of a clause
stands the line of the next one. The walk never goes back, and it stays on a line only if that line
closes itself (`BracedSource.ClosesItself`): a further clause with a condition, at whose end a block
is opened that is never closed, while a brace inside it was opened and closed. On such a line the
walk stays for ever (`BracedSource.moves_self_iff`).

Without such a line every walk goes strictly ahead, so it visits a line at most once, and every run
comes to an end (`BracedSource.walk_ahead`).
-/

namespace StepTrace

open Pattern

/-! ## Headers -/

theorem bracedFront_closing {blanks rest : Text} {c : Char}
    (hblanks : ∀ a ∈ blanks, CharClass.isBlank a = true) (hc : CharClass.isBlank c = false) :
    bracedFront ('\x7d' :: (blanks ++ c :: rest)) = c :: rest := by
  show (blanks ++ c :: rest).dropWhile CharClass.isBlank = _
  rw [List.dropWhile_append_of_pos hblanks, List.dropWhile_cons_of_neg (by simp [hc])]

/-- A further clause begins with its word once the brace before it is gone. -/
theorem bracedFront_of_elseForm {line : Text} (h : elseForm.matchesFront line) :
    ∃ rest, bracedFront line = "else".toList ++ rest := by
  obtain ⟨f, hf⟩ := Option.isSome_iff_exists.1 h
  obtain ⟨c₁, k₁, hbrace, c₂, k₂, hword, -⟩ := takes_of_match? hf
  obtain ⟨hrest, -, -⟩ := takes_text.1 hword
  rcases hbrace with ⟨c₃, k₃, hbrace, hgap⟩ | ⟨rfl, rfl⟩
  · obtain ⟨hbrace, -, -⟩ := takes_text.1 hbrace
    obtain ⟨blanks, hblanks, hgap, -, -⟩ := takes_many_char.1 hgap
    have hline : line = '\x7d' :: (blanks ++ 'e' :: ("lse".toList ++ c₂.rest)) := by
      rw [show line = "\x7d".toList ++ c₃.rest from hbrace, hgap, hrest]
      rfl
    exact ⟨c₂.rest, by rw [hline]; exact bracedFront_closing hblanks (by decide)⟩
  · exact ⟨c₂.rest, by rw [show line = "else".toList ++ c₂.rest from hrest]; rfl⟩

/-- A line whose front is the word of a further clause and then no word character is one. -/
theorem elseForm_of_bracedFront {line rest : Text} {b : Char}
    (h : bracedFront line = "else".toList ++ b :: rest) (hb : CharClass.isWord b = false) :
    elseForm.matchesFront line := by
  have hedge : (⟨some 'e', b :: rest⟩ : Cursor).atWordEdge = true := by
    show (CharClass.isWord 'e' != CharClass.isWord b) = true
    rw [hb]
    decide
  have hword : ∀ previous k, (all [text "else", wordEdge]).Takes
      ⟨previous, "else".toList ++ b :: rest⟩ k ⟨some 'e', b :: rest⟩ k := fun previous k =>
    ⟨_, _, takes_text.2 ⟨rfl, rfl, rfl⟩, _, _, ⟨hedge, rfl, rfl⟩, rfl, rfl⟩
  unfold bracedFront at h
  split at h
  · rename_i behind
    have hbrace : (text "\x7d").Takes ⟨none, '\x7d' :: behind⟩ [] ⟨some '\x7d', behind⟩ [] :=
      takes_text.2 ⟨rfl, rfl, rfl⟩
    have hgap : gap.Takes ⟨some '\x7d', behind⟩ []
        ⟨(behind.takeWhile CharClass.isBlank).getLast?.or (some '\x7d'),
          "else".toList ++ b :: rest⟩ [] := by
      refine takes_many_char.2 ⟨behind.takeWhile CharClass.isBlank,
        fun a ha => List.mem_takeWhile_imp ha, ?_, rfl, rfl⟩
      show behind = _ ++ ("else".toList ++ b :: rest)
      rw [← h, Text.trimLeft, List.takeWhile_append_dropWhile]
    exact isSome_match? ⟨_, _, Or.inl ⟨_, _, hbrace, hgap⟩, hword _ _⟩
  · rw [h]
    exact isSome_match? ⟨_, _, Or.inr ⟨rfl, rfl⟩, hword _ _⟩

namespace BracedSource

variable {lines : List Text}

/-- A line with the condition of a further clause is the line of a further clause. -/
theorem elseForm_of_furtherCondition? {line : Text} (h : (furtherCondition? line).isSome) :
    elseForm.matchesFront line := by
  obtain ⟨cond, hcond⟩ := Option.isSome_iff_exists.1 h
  obtain ⟨f, hf, -⟩ := Option.bind_eq_some_iff.1 hcond
  obtain ⟨c₁, k₁, hword, c₂, k₂, hblanks, -⟩ := takes_of_match? hf
  obtain ⟨hword, -, -⟩ := takes_text.1 hword
  obtain ⟨blanks, hne, hall, hblanks, -, -⟩ := takes_several_char.1 hblanks
  obtain ⟨b, blanks, rfl⟩ := List.exists_cons_of_ne_nil hne
  obtain ⟨rest, hfront⟩ := bracedHeader_isPrefix line
  have hline : bracedFront line = "else".toList ++ b :: (blanks ++ c₂.rest ++ rest) := by
    rw [← hfront, show bracedHeader line = _ from hword, hblanks]
    simp
  exact elseForm_of_bracedFront hline (CharClass.not_isWord_of_isBlank (hall b (by simp)))

/-- A line with the first condition of a conditional is not the line of a further clause. -/
theorem not_elseForm_of_firstCondition? {line : Text} (h : (firstCondition? line).isSome) :
    elseForm.matchesFront line = false := by
  obtain ⟨cond, hcond⟩ := Option.isSome_iff_exists.1 h
  unfold firstCondition? at hcond
  split_ifs at hcond
  obtain ⟨f, hf, -⟩ := Option.bind_eq_some_iff.1 hcond
  obtain ⟨c₁, k₁, hword, -⟩ := takes_of_match? hf
  obtain ⟨hword, -, -⟩ := takes_text.1 hword
  obtain ⟨rest, hfront⟩ := bracedHeader_isPrefix line
  by_contra helse
  obtain ⟨rest', hfront'⟩ := bracedFront_of_elseForm (by simpa using helse)
  rw [← hfront, show bracedHeader line = _ from hword] at hfront'
  have hhead : some 'i' = some 'e' := congrArg List.head? hfront'
  cases hhead

/-! ## Moves -/

instance (s : BracedSource) (cursor opener : Nat) : Decidable (s.Moves cursor opener) :=
  decidable_of_iff (s.lines[cursor]?.any fun line => decide
    (((firstCondition? line).isSome ∨ (furtherCondition? line).isSome) ∧
      s.elseLine? (s.bounds cursor line).stop = some opener)) (by
        simp [Moves, Option.any_eq_true])

/-- A further clause with a condition at whose end a block is opened, while the last brace that was
closed among those opened on the line is closed on the line. -/
def ClosesItself (s : BracedSource) (index : Nat) : Prop :=
  ∃ line, s.lines[index]? = some line ∧ (furtherCondition? line).isSome ∧
    line.endsIn '\x7b' ∧ s.braces.get? index = some index

instance (s : BracedSource) (index : Nat) : Decidable (s.ClosesItself index) :=
  decidable_of_iff (s.lines[index]?.any fun line => decide ((furtherCondition? line).isSome ∧
    line.endsIn '\x7b' ∧ s.braces.get? index = some index)) (by
      simp [ClosesItself, Option.any_eq_true])

theorem isElse_eq {s : BracedSource} {index : Nat} {line : Text}
    (h : s.lines[index]? = some line) : s.isElse index = elseForm.matchesFront line := by
  rw [isElse, h, Option.any_some]

theorem stop_of_endsIn (s : BracedSource) (index : Nat) {line : Text} (h : line.endsIn '\x7b') :
    (s.bounds index line).stop = (s.braces.get? index).getD s.lines.length := by
  rw [bounds, if_pos h]
  rfl

/-- A body stops behind its line, unless the line ends in a brace and closes on itself. -/
theorem lt_stop_or {index : Nat} {line : Text} (h : lines[index]? = some line) :
    index < ((ofLines lines).bounds index line).stop ∨
      line.endsIn '\x7b' ∧ (ofLines lines).braces.get? index = some index ∧
        ((ofLines lines).bounds index line).stop = index := by
  have hlt : index < lines.length := (List.getElem?_eq_some_iff.1 h).1
  by_cases hbrace : line.endsIn '\x7b'
  · rw [stop_of_endsIn _ index hbrace]
    cases hclose : (ofLines lines).braces.get? index with
    | none => exact Or.inl hlt
    | some close =>
      rcases Nat.lt_or_eq_of_le (BraceMap.get?_ofLines hclose).1 with hahead | rfl
      · exact Or.inl hahead
      · exact Or.inr ⟨hbrace, rfl, rfl⟩
  · refine Or.inl ?_
    rw [bounds, if_neg hbrace]
    show index < min (index + 2) lines.length
    omega

/-- The walk goes ahead, or it stays on a line that closes itself. -/
theorem Moves.lt_or {i j : Nat} (h : (ofLines lines).Moves i j) :
    i < j ∨ j = i ∧ (ofLines lines).ClosesItself i := by
  obtain ⟨line, hline, hclause, helse⟩ := h
  obtain ⟨hj, hstop, -⟩ := elseLine?_eq_some helse
  have hline' : lines[i]? = some line := hline
  rcases lt_stop_or hline' with hlt | ⟨hbrace, hself, hstay⟩
  · exact Or.inl (by omega)
  · rw [hstay] at hstop
    rcases hstop with rfl | rfl
    · refine Or.inr ⟨rfl, line, hline, hclause.resolve_left fun hfirst => ?_, hbrace, hself⟩
      rw [isElse_eq hline, not_elseForm_of_firstCondition? hfirst] at hj
      cases hj
    · exact Or.inl (Nat.lt_succ_self i)

/-- Behind the body of a line that closes itself stands the line again. -/
theorem ClosesItself.elseLine? {s : BracedSource} {i : Nat} {line : Text} (h : s.ClosesItself i)
    (hline : s.lines[i]? = some line) : s.elseLine? (s.bounds i line).stop = some i := by
  obtain ⟨line', hline', hfurther, hbrace, hself⟩ := h
  obtain rfl : line = line' := Option.some.inj (hline.symm.trans hline')
  have hstop : (s.bounds i line).stop = i := by
    rw [stop_of_endsIn _ i hbrace, hself]
    rfl
  have helse : s.isElse i := by
    rw [isElse_eq hline]
    exact elseForm_of_furtherCondition? hfurther
  unfold BracedSource.elseLine?
  rw [hstop, if_pos helse]
  simp [hself]

/-- The walk stays on exactly the lines that close themselves. -/
theorem moves_self_iff {i : Nat} : (ofLines lines).Moves i i ↔ (ofLines lines).ClosesItself i := by
  refine ⟨fun h => ?_, fun h => ?_⟩
  · rcases h.lt_or with hlt | ⟨-, hself⟩
    · exact absurd hlt (Nat.lt_irrefl i)
    · exact hself
  · have ⟨line, hline, hfurther, _⟩ := h
    exact ⟨line, hline, Or.inr hfurther, h.elseLine? hline⟩

end BracedSource

/-! ## Runs that do not come back -/

/-- The outcome is no trace and no fault. -/
def Outcome.isStalled : Outcome → Bool
  | .stalled => true
  | _ => false

theorem Outcome.eq_stalled {o : Outcome} (h : o.isStalled = true) : o = .stalled := by
  cases o with
  | stalled => rfl
  | _ => cases h

/-- A computation that never finishes: it ends by the limit, a fault or because it stalls. -/
def Run.Stuck (x : Run α) : Prop := ∀ r a, (x.exec r).1 ≠ .ok a

theorem Run.stuck_throw (e : Stop) : (throw e : Run α).Stuck :=
  fun _ _ h => nomatch h

theorem Run.Stuck.bind {x : Run α} {f : α → Run β} (h : ∀ a, (f a).Stuck) : (x >>= f).Stuck := by
  intro r b
  rw [Run.exec_bind]
  rcases x.exec r with ⟨e | a, r'⟩
  · exact fun h => nomatch h
  · exact h a r' b

theorem circle_stuck (limits : Limits) (line : Text) (cond : Condition) :
    ∀ left : Nat, (circle limits line cond left).Stuck
  | 0 => Run.stuck_throw _
  | left + 1 => by
    refine Run.Stuck.bind fun b => ?_
    cases b with
    | false => exact circle_stuck limits line cond left
    | true => exact Run.stuck_throw _

theorem Chain.circular_stuck (limits : Limits) (line : Text) (cond : Condition) (taken : Bool) :
    ((Chain.circular line cond).run limits taken).Stuck := by
  rw [Chain.run]
  split_ifs
  · exact Run.stuck_throw _
  · exact circle_stuck limits line cond _

namespace BracedSource

theorem ClosesItself.tail {s : BracedSource} {i : Nat} {line : Text} (h : s.ClosesItself i)
    (hline : s.lines[i]? = some line) (rows : List Row) :
    ∃ cond, (s.tail i line rows).1 = .circular line cond := by
  have hrow : Below.row? ⟨i + 1, rows⟩ i = none := if_pos (Nat.lt_succ_self i)
  unfold BracedSource.tail
  simp only [h.elseLine? hline, hrow]
  exact ⟨_, rfl⟩

/-- Nothing gets past a clause on a line that closes itself. -/
theorem ClosesItself.stuck {s : BracedSource} {i : Nat} {line : Text} (h : s.ClosesItself i)
    (hline : s.lines[i]? = some line) (d : Dialect) (rows : List Row) (limits : Limits)
    (taken : Bool) : ((row d s i line rows).chain.run limits taken).Stuck := by
  have ⟨line', hline', hfurther, _⟩ := h
  obtain rfl : line = line' := Option.some.inj (hline.symm.trans hline')
  obtain ⟨cond, hcond⟩ := Option.isSome_iff_exists.1 hfurther
  obtain ⟨again, htail⟩ := h.tail hline rows
  rw [row_chain, hcond, htail]
  show ((Chain.clause _ _ _ _ _).run limits taken).Stuck
  rw [Chain.run]
  split_ifs
  · exact Chain.circular_stuck limits line again true
  · refine Run.Stuck.bind fun b => ?_
    cases b with
    | false => exact Chain.circular_stuck limits line again false
    | true => exact Run.Stuck.bind fun _ => Chain.circular_stuck limits line again true

/-! ## Where the walk goes -/

variable {lines : List Text}

/-- If no line closes itself, a walk visits the lines in their order. -/
theorem pairwise_of_isChain (h : ∀ i, ¬(ofLines lines).ClosesItself i) {walk : List Nat}
    (hwalk : walk.IsChain (ofLines lines).Moves) : walk.Pairwise (· < ·) := by
  have hlt : walk.IsChain (· < ·) := hwalk.imp fun i j hmove =>
    hmove.lt_or.resolve_right fun hself => h i hself.2
  exact hlt.pairwise

/-- If no line closes itself, a run does not stall. -/
theorem trace_ne_stalled (h : ∀ i, ¬(ofLines lines).ClosesItself i) {d : Dialect} {source : Text}
    (hbraced : d.layout = .braced) (hlines : bracedLines d source = lines) (limits : Limits) :
    d.trace limits source ≠ .stalled := by
  have hahead : ∀ i j, (ofLines lines).Moves i j → i < j := fun i j hmove =>
    hmove.lt_or.resolve_right fun hself => h i hself.2
  have hobeys : (Program.read d source).1.Obeys (.lenient False) := by
    rw [Program.read, hbraced]
    show (Program.ofBraced d (bracedLines d source)).Obeys _
    rw [hlines]
    exact Program.ofBraced_obeys (fun t => (Condition.read t).obeys_lenient) (Or.inr hahead)
      fun line _ => ⟨(Statement.read d line).obeys_lenient, fun head _ => head.obeys_lenient⟩
  have hout := Dialect.trace_obeys limits hobeys trivial
  intro hstalled
  rw [hstalled] at hout
  exact hout rfl

/-- The walk over the clauses of a conditional never goes back, and it fails to go ahead on exactly
the lines that close themselves, which no run gets past. Without such a line every walk goes
strictly ahead and every run comes to an end. -/
theorem walk_ahead (lines : List Text) :
    (∀ i j, (ofLines lines).Moves i j → i ≤ j ∧ (i < j ↔ ¬(ofLines lines).ClosesItself i)) ∧
    (∀ i line, lines[i]? = some line → (ofLines lines).ClosesItself i →
      (ofLines lines).Moves i i ∧ ∀ d rows limits taken,
        ((row d (ofLines lines) i line rows).chain.run limits taken).Stuck) ∧
    ((∀ i, ¬(ofLines lines).ClosesItself i) →
      (∀ walk : List Nat, walk.IsChain (ofLines lines).Moves → walk.Pairwise (· < ·)) ∧
      ∀ (d : Dialect) (limits : Limits) (source : Text), d.layout = .braced →
        bracedLines d source = lines → d.trace limits source ≠ .stalled) := by
  refine ⟨fun i j hmove => ⟨?_, fun hlt hself => ?_, fun hself => ?_⟩,
    fun i line hline hself => ⟨moves_self_iff.2 hself, ?_⟩, fun h => ⟨?_, ?_⟩⟩
  · rcases hmove.lt_or with hlt | ⟨rfl, -⟩
    · exact Nat.le_of_lt hlt
    · exact Nat.le_refl _
  · obtain ⟨line, hline, -, hopener⟩ := hmove
    have hstay : some i = some j := (hself.elseLine? hline).symm.trans hopener
    exact absurd (Option.some.inj hstay) (Nat.ne_of_lt hlt)
  · exact hmove.lt_or.resolve_right fun h => hself h.2
  · exact fun d rows limits taken => hself.stuck hline d rows limits taken
  · exact fun walk hwalk => pairwise_of_isChain h hwalk
  · exact fun d limits source hbraced hlines => trace_ne_stalled h hbraced hlines limits

theorem not_closesItself {lines : List Text}
    (h : ∀ i < lines.length, ¬(ofLines lines).ClosesItself i) (i : Nat) :
    ¬(ofLines lines).ClosesItself i := by
  intro hself
  have ⟨line, hline, _⟩ := hself
  exact h i (List.getElem?_eq_some_iff.1 hline).1 hself

/-- A conditional with three clauses, none of whose lines closes itself. -/
theorem walk_ahead_clauses :
    let source := "if (x > 1) \x7b \x7d else if (x < 1) \x7b y = 1; \x7d else \x7b \x7d".toList
    let lines := bracedLines .c source
    (∀ i, ¬(ofLines lines).ClosesItself i) ∧ [0, 2, 5].IsChain (ofLines lines).Moves ∧
      [0, 2, 5].Pairwise (· < ·) ∧ Dialect.c.trace .usual source ≠ .stalled := by
  intro source lines
  have hclosed : ∀ i, ¬(ofLines lines).ClosesItself i := not_closesItself (by decide +kernel)
  have hchain : [0, 2, 5].IsChain (ofLines lines).Moves := by
    refine .cons_cons ?_ (.cons_cons ?_ (.singleton 5)) <;> decide +kernel
  obtain ⟨hwalk, hrun⟩ := (walk_ahead lines).2.2 hclosed
  exact ⟨hclosed, hchain, hwalk _ hchain, hrun .c .usual source rfl rfl⟩

/-- Behind a clause that was taken, a run stalls on a further clause that closes itself. -/
theorem walk_stays :
    let source := "if (x == 0) \x7b\n\x7d\nelse if (f(\x7b\x7d) > 1) \x7b\ny = 1;".toList
    (ofLines (bracedLines .c source)).Moves 2 2 ∧ Dialect.c.trace .usual source = .stalled := by
  intro source
  exact ⟨by decide +kernel, Outcome.eq_stalled (by decide +kernel)⟩

end BracedSource

end StepTrace
