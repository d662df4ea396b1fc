import StepTrace.Proofs.Run.Trail
import StepTrace.Proofs.Source.Blocks
import StepTrace.Proofs.Structured.Braced

/-!
# Parts that can stand anywhere

Some lines of a braced snippet are fully braced if their braces match among themselves and each of
their conditionals, loops and further clauses has its body between braces (`isFullyBraced`). Such a
part does the same wherever it stands: behind other lines, before other lines, and by itself
(`BracedSource.Holds.run`).

The braces of the part are matched in the whole snippet as they are by themselves, with the lines
counted from where the part stands (`BraceScan.lines_of_bracesClose`). So each body stops, and each
walk over clauses goes on, at the same lines of the part. Only one line of the rest can be looked
at, the one behind the part, when the last block of the part is a conditional. It is no further
clause as long as no block is opened on it.
-/

namespace StepTrace

/-! ## Braces -/

/-- The matches with the lines counted from an offset. -/
def BraceMap.shift (offset : Nat) (m : BraceMap) : BraceMap :=
  m.map fun p => (offset + p.1, offset + p.2)

namespace BraceMap

variable {offset line : Nat}

theorem get?_shift (offset line : Nat) (m : BraceMap) :
    (m.shift offset).get? (offset + line) = (m.get? line).map (offset + ·) := by
  induction m with
  | nil => rfl
  | cons p m ih =>
    obtain ⟨opened, close⟩ := p
    by_cases h : line = opened
    · simp [get?, shift, h]
    · have hne : offset + line ≠ offset + opened := by omega
      rw [get?_cons_of_ne h, ← ih]
      exact get?_cons_of_ne hne

theorem get?_shift_of_lt (h : line < offset) (m : BraceMap) :
    (m.shift offset).get? line = none := by
  refine Option.eq_none_iff_forall_ne_some.2 fun close hclose => ?_
  obtain ⟨p, -, hp⟩ := List.mem_map.1 (mem_of_get? hclose)
  have hline : offset + p.1 = line := congrArg Prod.fst hp
  omega

end BraceMap

namespace BraceScan

/-- A scan on top of another one, with its lines counted from an offset. -/
def above (s base : BraceScan) (offset : Nat) : BraceScan :=
  ⟨s.stack.map (offset + ·) ++ base.stack, s.closed.shift offset ++ base.closed⟩

variable (base : BraceScan) (offset index : Nat)

/-- As long as a scan closes only its own braces it is the same on top of another one. -/
theorem foldl_above : ∀ (code more : List Char) (s : BraceScan),
    Text.bracesClose s.stack.length (code ++ more) →
    code.foldl (step (offset + index)) (s.above base offset) =
        (code.foldl (step index) s).above base offset ∧
      Text.bracesClose (code.foldl (step index) s).stack.length more
  | [], _, _, h => ⟨rfl, h⟩
  | c :: code, more, ⟨stack, closed⟩, h => by
    rw [List.cons_append, Text.bracesClose] at h
    rw [List.foldl_cons, List.foldl_cons]
    have hstep : (above ⟨stack, closed⟩ base offset).step (offset + index) c =
          (step index ⟨stack, closed⟩ c).above base offset ∧
        Text.bracesClose (step index ⟨stack, closed⟩ c).stack.length (code ++ more) := by
      unfold step
      split_ifs at h ⊢ with hopen hclose
      · exact ⟨rfl, h⟩
      · cases stack with
        | nil => cases h
        | cons opened stack => exact ⟨rfl, h⟩
      · exact ⟨rfl, h⟩
    rw [hstep.1]
    exact foldl_above code more _ hstep.2

theorem lines_above : ∀ (part : List Text) (s : BraceScan) (index : Nat),
    Text.bracesClose s.stack.length (part.flatMap Text.code) →
    (s.above base offset).lines (offset + index) part = (s.lines index part).above base offset ∧
      (s.lines index part).stack = []
  | [], s, _, h => by
    rw [List.flatMap_nil, Text.bracesClose, beq_iff_eq, List.length_eq_zero_iff] at h
    exact ⟨rfl, h⟩
  | t :: part, s, index, h => by
    rw [List.flatMap_cons] at h
    obtain ⟨hline, hrest⟩ := foldl_above base offset index t.code _ s h
    have ih := lines_above part (s.line index t) (index + 1) hrest
    rw [lines, lines, line, hline]
    exact ih

/-- Lines whose braces match among themselves add their own matches. -/
theorem lines_of_bracesClose {part : List Text}
    (h : Text.bracesClose 0 (part.flatMap Text.code)) :
    base.lines offset part = ⟨base.stack, (BraceMap.ofLines part).shift offset ++ base.closed⟩ := by
  obtain ⟨hlines, hstack⟩ := lines_above base offset part ⟨[], []⟩ 0 h
  have hbase : (⟨[], []⟩ : BraceScan).above base offset = base := rfl
  rw [hbase, Nat.add_zero] at hlines
  rw [hlines, above, hstack]
  rfl

end BraceScan

/-! ## Fully braced lines -/

/-- A line that a body belongs to: a conditional, a loop or a further clause. -/
def needsBody (d : Dialect) (line : Text) : Bool :=
  elseForm.matchesFront line ||
    !isSkipped d line &&
      ((BracedSource.firstCondition? line).isSome || (loop? d (bracedHeader line)).isSome)

/-- The braces of some lines match among themselves, and every line that a body belongs to ends in a
brace that opens it. -/
def isFullyBraced (d : Dialect) (part : List Text) : Bool :=
  Text.bracesClose 0 (part.flatMap Text.code) &&
    part.zipIdx.all fun (line, index) =>
      !needsBody d line ||
        line.endsIn '\x7b' && ((BraceMap.ofLines part).get? index).isSome

namespace BracedSource

/-- Some lines stand in a snippet from an offset on, their braces are matched among themselves, and
on the line behind them no block is opened that is closed again. -/
structure Holds (s : BracedSource) (offset : Nat) (part : List Text) : Prop where
  line : ∀ j < part.length, s.lines[offset + j]? = part[j]?
  brace : ∀ j < part.length,
    s.braces.get? (offset + j) = ((BraceMap.ofLines part).get? j).map (offset + ·)
  behind : s.braces.get? (offset + part.length) = none

/-- All other matches are those of lines before the part. -/
theorem holds_of_braces {s : BracedSource} {front part back : List Text} {others : BraceMap}
    (hlines : s.lines = front ++ (part ++ back)) (hothers : ∀ p ∈ others, p.1 < front.length)
    (hbraces : s.braces = others ++ (BraceMap.ofLines part).shift front.length) :
    s.Holds front.length part := by
  have hget (j : Nat) : s.braces.get? (front.length + j) =
      ((BraceMap.ofLines part).get? j).map (front.length + ·) := by
    have hnone : BraceMap.get? others (front.length + j) = none := by
      refine Option.eq_none_iff_forall_ne_some.2 fun close hclose => ?_
      have hlt := hothers _ (BraceMap.mem_of_get? hclose)
      dsimp only at hlt
      omega
    rw [hbraces, BraceMap.get?_append, hnone, Option.none_or, BraceMap.get?_shift]
  refine ⟨fun j hj => ?_, fun j _ => hget j, ?_⟩
  · rw [hlines, List.getElem?_append_right (Nat.le_add_right _ _), Nat.add_sub_cancel_left,
      List.getElem?_append_left hj]
  · rw [hget, Option.map_eq_none_iff]
    refine Option.eq_none_iff_forall_ne_some.2 fun close hclose => ?_
    have hlt := BraceMap.get?_ofLines hclose
    omega

end BracedSource

open BracedSource Structured

section Relocation

variable {d : Dialect} {s : BracedSource} {offset : Nat} {part : List Text} {limits : Limits}

/-! ### Bodies and clauses -/

/-- The body of a line of the part stops on the same line of the part. -/
theorem BracedSource.Holds.bounds (h : s.Holds offset part) (hbraced : isFullyBraced d part)
    {j : Nat} {line : Text} (hline : part[j]? = some line) (hneeds : needsBody d line) :
    ∃ close, j ≤ close ∧ close < part.length ∧
      (ofLines part).bounds j line = ⟨close, close + 1⟩ ∧
      s.bounds (offset + j) line = ⟨offset + close, offset + close + 1⟩ := by
  have hj : j < part.length := (List.getElem?_eq_some_iff.1 hline).1
  simp only [isFullyBraced, Bool.and_eq_true, List.all_eq_true] at hbraced
  have hall := hbraced.2 (line, j) (List.mk_mem_zipIdx_iff_getElem?.2 hline)
  simp only [hneeds, Bool.not_true, Bool.false_or, Bool.and_eq_true] at hall
  obtain ⟨close, hclose⟩ := Option.isSome_iff_exists.1 hall.2
  have hhost : s.braces.get? (offset + j) = some (offset + close) := by
    rw [h.brace j hj, hclose]
    rfl
  have hown : (ofLines part).braces.get? j = some close := hclose
  obtain ⟨hle, hlt⟩ := BraceMap.get?_ofLines hclose
  refine ⟨close, hle, hlt, ?_, ?_⟩
  · rw [BracedSource.bounds, if_pos hall.1, BraceMap.blockEnd, hown]
    rfl
  · rw [BracedSource.bounds, if_pos hall.1, BraceMap.blockEnd, hhost]
    rfl

theorem BracedSource.Holds.isElse (h : s.Holds offset part) {j : Nat} (hj : j < part.length) :
    s.isElse (offset + j) = (ofLines part).isElse j := by
  rw [BracedSource.isElse, BracedSource.isElse, h.line j hj]
  rfl

/-- Behind a body of the part the same further clause is found. -/
theorem BracedSource.Holds.elseLine? (h : s.Holds offset part) {close : Nat}
    (hclose : close < part.length) :
    s.elseLine? (offset + close) = ((ofLines part).elseLine? close).map (offset + ·) := by
  have hfilter {k : Nat} (hk : k < part.length) :
      (some (offset + k)).filter (fun i => (s.braces.get? i).isSome) =
        ((some k).filter fun i => ((ofLines part).braces.get? i).isSome).map (offset + ·) := by
    have hbrace : (s.braces.get? (offset + k)).isSome = ((ofLines part).braces.get? k).isSome := by
      rw [h.brace k hk, Option.isSome_map]
      rfl
    rw [Option.filter_some, Option.filter_some, hbrace]
    split_ifs <;> rfl
  simp only [BracedSource.elseLine?, h.isElse hclose]
  by_cases hstop : (ofLines part).isElse close
  · simp only [if_pos hstop]
    exact hfilter hclose
  simp only [if_neg hstop]
  rcases Nat.lt_or_ge (close + 1) part.length with hlt | hge
  · simp only [Nat.add_assoc, h.isElse hlt]
    by_cases hnext : (ofLines part).isElse (close + 1)
    · simp only [if_pos hnext]
      exact hfilter hlt
    · simp only [if_neg hnext]
      rfl
  · -- The line behind the part opens no block, so it is passed over whatever it says.
    have hlast : close + 1 = part.length := by omega
    have hown : ¬(ofLines part).isElse part.length := fun hmatch =>
      absurd (lt_of_isElse hmatch) (Nat.lt_irrefl _)
    simp only [Nat.add_assoc, hlast, if_neg hown]
    split_ifs
    · rw [Option.filter_some, h.behind]
      rfl
    · rfl

theorem Chain.run_clause_congr {line : Text} {cond : Condition} {body body' : Program}
    {stop stop' : Nat} {next next' : Chain}
    (hbody : body.run limits stop = body'.run limits stop')
    (hnext : ∀ taken, next.run limits taken = next'.run limits taken) (taken : Bool) :
    (Chain.clause line cond body stop next).run limits taken =
      (Chain.clause line cond body' stop' next').run limits taken := by
  simp only [Chain.run, hbody, hnext]

/-- Two chains do the same, and the run goes on behind the same line of a part. -/
structure SameChain (limits : Limits) (offset count index : Nat) (host own : Chain × Nat) :
    Prop where
  run : ∀ taken, host.1.run limits taken = own.1.run limits taken
  next : host.2 = offset + own.2
  ahead : index < own.2
  within : own.2 ≤ count

/-- The chain that begins on a line taken as a further clause, and the line behind it. -/
def furtherAt (d : Dialect) (s : BracedSource) (index : Nat) (line : Text) : Chain × Nat :=
  let row := row d s index line (rowsAt (makeRow d s) s.lines (index + 1))
  (row.chain, row.after)

/-- A stop of a part by itself and the stop of the part in its place: a line of the part, or the end
of the part and any line behind it. -/
def SameStop (offset count stop last : Nat) : Prop :=
  stop ≤ count ∧ (last = offset + stop ∨ stop = count ∧ offset + stop ≤ last)

theorem SameStop.lt_iff {count stop last j : Nat} (h : SameStop offset count stop last)
    (hj : j < count) : offset + j < last ↔ j < stop := by
  obtain ⟨-, rfl | ⟨rfl, hle⟩⟩ := h <;> omega

/-- From a line of the part on its program does the same in its place, before the rest does. -/
def SameRun (limits : Limits) (d : Dialect) (s : BracedSource) (offset : Nat) (part : List Text)
    (j : Nat) : Prop :=
  ∀ stop last, SameStop offset part.length stop last →
    (bracedProgram d s (offset + j)).run limits last = do
      (bracedProgram d (ofLines part) j).run limits stop
      (bracedProgram d s (offset + part.length)).run limits last

theorem SameRun.body {j stop : Nat} (h : SameRun limits d s offset part j)
    (hstop : stop ≤ part.length) :
    (bracedProgram d s (offset + j)).run limits (offset + stop) =
      (bracedProgram d (ofLines part) j).run limits stop := by
  rw [h stop (offset + stop) ⟨hstop, Or.inl rfl⟩,
    run_programAt_of_le d s limits _ _ (Nat.add_le_add_left hstop offset)]
  exact bind_pure_unit

/-- The clauses behind a body of the part are the same, if those of later lines are. -/
theorem BracedSource.Holds.sameChain_tailAt (h : s.Holds offset part)
    (hbraced : isFullyBraced d part) {j : Nat} {line : Text} (hline : part[j]? = some line)
    (hneeds : needsBody d line)
    (hlater : ∀ k next, j < k → part[k]? = some next → elseForm.matchesFront next →
      SameChain limits offset part.length k (furtherAt d s (offset + k) next)
        (furtherAt d (ofLines part) k next)) :
    SameChain limits offset part.length j (tailAt d s (offset + j) line)
      (tailAt d (ofLines part) j line) := by
  obtain ⟨close, hle, hlt, hown, hhost⟩ := h.bounds hbraced hline hneeds
  unfold tailAt BracedSource.tail
  rw [hown, hhost, h.elseLine? hlt]
  cases helse : (ofLines part).elseLine? close with
  | none => exact ⟨fun _ => rfl, rfl, Nat.lt_succ_of_le hle, hlt⟩
  | some k =>
    obtain ⟨hk, -, -⟩ := elseLine?_eq_some helse
    have hkpart : k < part.length := lt_of_isElse hk
    have hnext : part[k]? = some part[k] := List.getElem?_eq_getElem hkpart
    have hmatch : elseForm.matchesFront part[k] := by
      rw [← isElse_of_getElem? (s := ofLines part) hnext]
      exact hk
    simp only [Option.map_some]
    by_cases hahead : j < k
    · have hhostline : s.lines[offset + k]? = some part[k] := by rw [h.line k hkpart, hnext]
      have hownline : (ofLines part).lines[k]? = some part[k] := hnext
      have hsame := hlater k _ hahead hnext hmatch
      simp only [Below.row?_rowsAt (show offset + j + 1 ≤ offset + k by omega),
        Below.row?_rowsAt (show j + 1 ≤ k from hahead), rowsAt_of_getElem? hhostline,
        rowsAt_of_getElem? hownline, List.head?_cons]
      exact ⟨hsame.run, hsame.next, Nat.lt_trans hahead hsame.ahead, hsame.within⟩
    · -- The walk leads back, to the same clause again and again.
      have hhostrow : Below.row? ⟨offset + j + 1, rowsAt (makeRow d s) s.lines (offset + j + 1)⟩
          (offset + k) = none := if_pos (by dsimp only; omega)
      have hownrow : Below.row? ⟨j + 1, rowsAt (makeRow d (ofLines part)) (ofLines part).lines
          (j + 1)⟩ k = none := if_pos (by dsimp only; omega)
      simp only [hhostrow, hownrow]
      exact ⟨fun _ => rfl, rfl, Nat.lt_succ_of_le hle, hlt⟩

theorem BracedSource.Holds.sameChain_furtherAt (h : s.Holds offset part)
    (hbraced : isFullyBraced d part) {j : Nat} {line : Text} (hline : part[j]? = some line)
    (helse : elseForm.matchesFront line) (hbody : SameRun limits d s offset part (j + 1))
    (htail : SameChain limits offset part.length j (tailAt d s (offset + j) line)
      (tailAt d (ofLines part) j line)) :
    SameChain limits offset part.length j (furtherAt d s (offset + j) line)
      (furtherAt d (ofLines part) j line) := by
  have hneeds : needsBody d line := by simp [needsBody, helse]
  obtain ⟨close, hle, hlt, hown, hhost⟩ := h.bounds hbraced hline hneeds
  have hrun := hbody.body (Nat.le_of_lt hlt)
  simp only [furtherAt, row_chain, row_after, hown, hhost, Below.program_rowsAt (Nat.le_refl _)]
  cases furtherCondition? line with
  | none =>
    refine ⟨fun taken => ?_, rfl, Nat.lt_succ_of_le hle, hlt⟩
    rw [Chain.run, Chain.run]
    exact congrArg (fun body => if taken then pure () else body) hrun
  | some cond =>
    exact ⟨Chain.run_clause_congr hrun htail.run, htail.next, htail.ahead, htail.within⟩

/-- The program of a line of the part does the same in its place, if those of later lines do. -/
theorem BracedSource.Holds.sameRun_of_later (h : s.Holds offset part)
    (hbraced : isFullyBraced d part) {j : Nat} {line : Text} (hline : part[j]? = some line)
    (hlater : ∀ k, j < k → k ≤ part.length → SameRun limits d s offset part k)
    (htail : needsBody d line → SameChain limits offset part.length j (tailAt d s (offset + j) line)
      (tailAt d (ofLines part) j line)) :
    SameRun limits d s offset part j := by
  intro stop last hstop
  have hj : j < part.length := (List.getElem?_eq_some_iff.1 hline).1
  have hnext := hlater (j + 1) (Nat.lt_succ_self j) hj
  rcases Nat.lt_or_ge j stop with hlt | hge
  · have hlast : offset + j < last := (hstop.lt_iff hj).2 hlt
    have hhostline : s.lines[offset + j]? = some line := by rw [h.line j hj, hline]
    have hownline : (ofLines part).lines[j]? = some line := hline
    cases hskip : isSkipped d line with
    | true =>
      rw [bracedProgram_skipped hhostline hskip, bracedProgram_skipped hownline hskip]
      exact hnext stop last hstop
    | false =>
      cases hfirst : firstCondition? line with
      | some cond =>
        have hneeds : needsBody d line := by simp [needsBody, hskip, hfirst]
        obtain ⟨close, hle, hclose, hown, hhost⟩ := h.bounds hbraced hline hneeds
        have htail := htail hneeds
        have hahead : offset + j < (tailAt d s (offset + j) line).2 := by
          rw [htail.next]
          exact Nat.add_lt_add_left htail.ahead offset
        rw [bracedProgram_conditional hhostline hskip hfirst hhost hahead,
          bracedProgram_conditional hownline hskip hfirst hown htail.ahead, Program.run,
          Program.run, if_pos hlast, if_pos hlt, bind_assoc, htail.next,
          ← hlater _ htail.ahead htail.within stop last hstop,
          ← Chain.run_clause_congr (hnext.body (Nat.le_of_lt hclose)) htail.run]
        rfl
      | none =>
        cases hloop : loop? d (bracedHeader line) with
        | some head =>
          have hneeds : needsBody d line := by simp [needsBody, hskip, hloop]
          obtain ⟨close, hle, hclose, hown, hhost⟩ := h.bounds hbraced hline hneeds
          rw [bracedProgram_of_loop hhostline hskip hfirst hloop hhost (by omega),
            bracedProgram_of_loop hownline hskip hfirst hloop hown (Nat.lt_succ_of_le hle),
            Program.run, Program.run, if_pos hlast, if_pos hlt, bind_assoc,
            ← hlater (close + 1) (Nat.lt_succ_of_le hle) hclose stop last hstop,
            ← hnext.body (Nat.le_of_lt hclose)]
          rfl
        | none =>
          rw [bracedProgram_plain hhostline hskip hfirst hloop,
            bracedProgram_plain hownline hskip hfirst hloop, Program.run, Program.run,
            if_pos hlast, if_pos hlt, bind_assoc, ← hnext stop last hstop]
          rfl
  · -- Both stop before this line, and so does the rest.
    have hlast : last ≤ offset + j := Nat.not_lt.1 fun hlt =>
      absurd ((hstop.lt_iff hj).1 hlt) (Nat.not_lt.2 hge)
    rw [run_programAt_of_le d s limits _ _ hlast,
      run_programAt_of_le d s limits _ _ (show last ≤ offset + part.length by omega),
      run_programAt_of_le d (ofLines part) limits _ _ hge]
    rfl

/-- By induction on the number of lines that the part still has. -/
theorem BracedSource.Holds.sameRun_and_sameChain (h : s.Holds offset part)
    (hbraced : isFullyBraced d part) : ∀ n j : Nat, j ≤ part.length → part.length ≤ j + n →
    SameRun limits d s offset part j ∧
      ∀ line, part[j]? = some line → elseForm.matchesFront line →
        SameChain limits offset part.length j (furtherAt d s (offset + j) line)
          (furtherAt d (ofLines part) j line)
  | n, j, hj, hn => by
    rcases Nat.lt_or_ge j part.length with hlt | hge
    · cases n with
      | zero => omega
      | succ n =>
        have ih : ∀ k, j < k → k ≤ part.length → _ := fun k hjk hk =>
          h.sameRun_and_sameChain hbraced n k hk (by omega)
        have hline : part[j]? = some part[j] := List.getElem?_eq_getElem hlt
        have htail (hneeds : needsBody d part[j]) :=
          h.sameChain_tailAt hbraced hline hneeds fun k next hjk hk helse =>
            (ih k hjk (Nat.le_of_lt (List.getElem?_eq_some_iff.1 hk).1)).2 next hk helse
        refine ⟨h.sameRun_of_later hbraced hline (fun k hjk hk => (ih k hjk hk).1) htail,
          fun line hfound helse => ?_⟩
        obtain rfl : part[j] = line := Option.some.inj (hline.symm.trans hfound)
        exact h.sameChain_furtherAt hbraced hline helse (ih (j + 1) (Nat.lt_succ_self j) hlt).1
          (htail (by simp [needsBody, helse]))
    · obtain rfl : j = part.length := by omega
      refine ⟨fun stop last _ => ?_, fun line hline => ?_⟩
      · rw [show bracedProgram d (ofLines part) part.length = .done from
          programAt_of_length_le (Nat.le_refl _)]
        rfl
      · rw [List.getElem?_eq_none (Nat.le_refl _)] at hline
        cases hline

/-- A fully braced part does the same in its place as by itself, before the rest does. -/
theorem BracedSource.Holds.run (h : s.Holds offset part) (hbraced : isFullyBraced d part)
    {last : Nat} (hlast : offset + part.length ≤ last) :
    (bracedProgram d s offset).run limits last =
      (Program.ofBraced d part).run limits part.length >>= fun _ =>
        (bracedProgram d s (offset + part.length)).run limits last := by
  have hsame : SameRun limits d s offset part 0 :=
    (h.sameRun_and_sameChain hbraced part.length 0 (Nat.zero_le _) (Nat.le_add_left _ _)).1
  rw [ofBraced_eq]
  exact hsame part.length last ⟨Nat.le_refl _, Or.inr ⟨rfl, hlast⟩⟩

end Relocation

end StepTrace
