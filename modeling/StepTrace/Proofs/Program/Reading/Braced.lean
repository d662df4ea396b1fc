import StepTrace.Proofs.Program.Containment
import StepTrace.Proofs.Program.Reading

/-!
# Conditionals with braces

In a braced dialect a branch has a block, or without a brace at the end of its line the one
statement behind it. A clause belongs to a conditional if it stands behind the closing line of the
block, or behind the statement, and begins with the word `else`. It is looked for on the line on
which the body stops and on the next one, and it is accepted only if it opens a block that is closed
(`BracedSource.WellClosed.elseLine?_eq`). So a clause without braces is overlooked. A run is misled
at a branch without braces by a clause one line further on, which belongs to another conditional,
and by a clause that closes itself.

Apart from that the chain of a conditional has its clauses one behind the other
(`Reading.sound_braced`). A body stays inside of its block if the block is closed and confined, or
if it is a plain statement.
-/

namespace StepTrace

open Structured

namespace BracedSource

/-- The bounds of the body of a line. -/
def boundsAt (s : BracedSource) (index : Nat) : Bounds :=
  s.bounds index (s.lines[index]?.getD [])

/-- Behind the body of a line another clause is found than the one that stands there: the line
itself, which closes its own block, or without a brace at the end of the line a clause one line
further on. -/
def isMisled (s : BracedSource) (index : Nat) : Bool :=
  s.lines[index]?.any fun line =>
    if line.endsIn '\x7b' then s.isElse index && s.braces.get? index == some index
    else !s.isElse (s.boundsAt index).next && s.isElse ((s.boundsAt index).next + 1) &&
      (s.braces.get? ((s.boundsAt index).next + 1)).isSome

/-- The body of a line is a block that is closed and confined, or without a brace at the end of the
line a plain statement. -/
def isSealed (d : Dialect) (s : BracedSource) (index : Nat) : Bool :=
  s.lines[index]?.any fun line =>
    if line.endsIn '\x7b' then (s.braces.get? index).any fun close => s.Confined index close
    else s.lines[index + 1]?.all fun next =>
      (firstCondition? next).isNone && (loop? d (bracedHeader next)).isNone

end BracedSource

/-- The reading of the lines of a snippet in a braced dialect. -/
def Reading.braced (d : Dialect) (s : BracedSource) : Reading where
  count := s.lines.length
  line index := s.lines[index]?.getD []
  bounds := s.boundsAt
  program := bracedProgram d s
  header? index := s.lines[index]?.bind fun line =>
    if isSkipped d line then none else BracedSource.firstCondition? line
  clause? index :=
    if s.isElse (s.boundsAt index).next then
      some ⟨(s.boundsAt index).next,
        BracedSource.furtherCondition? (s.lines[(s.boundsAt index).next]?.getD [])⟩
    else none
  overlooked index := (s.braces.get? index).isNone
  misled := s.isMisled
  sealed := s.isSealed d

namespace BracedSource

/-- Blocks are closed behind their first lines, on lines of their own. -/
structure WellClosed (s : BracedSource) : Prop where
  le : ∀ {i close}, s.braces.get? i = some close → i ≤ close
  not_isElse : ∀ {i close}, s.braces.get? i = some close → i < close → s.isElse close = false

theorem wellClosed (d : Dialect) (source : Text) : (d.bracedSource source).WellClosed where
  le h := (BraceMap.get?_ofLines h).1
  not_isElse := not_isElse_close

variable {d : Dialect} {s : BracedSource} {index : Nat} {line : Text}

theorem boundsAt_eq (h : s.lines[index]? = some line) :
    s.boundsAt index = s.bounds index line := by
  rw [boundsAt, h, Option.getD_some]

theorem boundsAt_braced (h : s.lines[index]? = some line) (hbrace : line.endsIn '\x7b') :
    s.boundsAt index = ⟨(s.braces.get? index).getD s.lines.length,
      (s.braces.get? index).getD s.lines.length + 1⟩ := by
  rw [boundsAt_eq h, bounds, if_pos hbrace]
  rfl

theorem boundsAt_unbraced (hbrace : (s.lines[index]?.getD []).endsIn '\x7b' = false) :
    s.boundsAt index = ⟨min (index + 2) s.lines.length, min (index + 2) s.lines.length⟩ := by
  rw [boundsAt, bounds, if_neg (by simp [hbrace])]

theorem not_isElse_of_length_le (h : s.lines.length ≤ index) : s.isElse index = false := by
  rw [isElse, List.getElem?_eq_none h]
  rfl

/-- Behind a body the clause is found that stands there, if it opens a block that is closed. -/
theorem WellClosed.elseLine?_eq (hs : s.WellClosed) (hline : s.lines[index]? = some line)
    (hmisled : s.isMisled index = false) :
    s.elseLine? (s.boundsAt index).stop =
      if s.isElse (s.boundsAt index).next && (s.braces.get? (s.boundsAt index).next).isSome then
        some (s.boundsAt index).next
      else none := by
  rw [isMisled, hline, Option.any_some] at hmisled
  unfold elseLine?
  cases hbrace : line.endsIn '\x7b' with
  | true =>
    rw [if_pos hbrace] at hmisled
    have hstop : s.isElse (s.boundsAt index).stop = false := by
      rw [boundsAt_braced hline hbrace]
      cases hclose : s.braces.get? index with
      | none => exact not_isElse_of_length_le (Nat.le_refl _)
      | some close =>
        rcases Nat.lt_or_eq_of_le (hs.le hclose) with hlt | rfl
        · exact hs.not_isElse hclose hlt
        · simpa [hclose] using hmisled
    have hnext : (s.boundsAt index).next = (s.boundsAt index).stop + 1 := by
      rw [boundsAt_braced hline hbrace]
    rw [hnext, if_neg (by simp [hstop])]
    cases s.isElse ((s.boundsAt index).stop + 1) with
    | true => simp [Option.filter_some]
    | false => simp
  | false =>
    rw [if_neg (by simp [hbrace])] at hmisled
    have hnext : (s.boundsAt index).next = (s.boundsAt index).stop := by
      rw [boundsAt_unbraced (by rw [hline]; exact hbrace)]
    rw [hnext] at hmisled ⊢
    cases helse : s.isElse (s.boundsAt index).stop with
    | true => simp [Option.filter_some]
    | false =>
      cases hfurther : s.isElse ((s.boundsAt index).stop + 1) with
      | true => simpa [helse, hfurther, Option.filter_some] using hmisled
      | false => simp

/-- The chain behind the body of a line, and the line behind it. -/
def tailFrom (d : Dialect) (s : BracedSource) (index : Nat) : Chain × Nat :=
  (s.lines[index]?.map (tailAt d s index)).getD (.finished, (s.boundsAt index).next)

theorem tailFrom_eq (h : s.lines[index]? = some line) :
    tailFrom d s index = tailAt d s index line := by
  rw [tailFrom, h, Option.map_some, Option.getD_some]

theorem tailAt_of_none (hline : s.lines[index]? = some line)
    (h : s.elseLine? (s.boundsAt index).stop = none) :
    tailAt d s index line = (.finished, (s.boundsAt index).next) := by
  rw [boundsAt_eq hline] at h ⊢
  rw [tailAt, tail, h]

theorem tailAt_of_some {j : Nat} {next : Text} (hline : s.lines[index]? = some line)
    (h : s.elseLine? (s.boundsAt index).stop = some j) (hj : index < j)
    (hnext : s.lines[j]? = some next) :
    tailAt d s index line = match furtherCondition? next with
      | some cond =>
        (.clause next (Condition.read cond) (bracedProgram d s (j + 1)) (s.boundsAt j).stop
          (tailAt d s j next).1, (tailAt d s j next).2)
      | none => (.otherwise (bracedProgram d s (j + 1)) (s.boundsAt j).stop,
        (s.boundsAt j).next) := by
  rw [boundsAt_eq hline] at h
  rw [tailAt, tail, h]
  simp only [Below.row?_rowsAt hj, rowsAt_of_getElem? hnext, List.head?_cons, row_chain, row_after,
    Below.program_rowsAt (Nat.le_refl _), boundsAt_eq hnext]
  cases furtherCondition? next <;> rfl

theorem WellClosed.lt_next (hs : s.WellClosed) (h : index < s.lines.length) :
    index < (s.boundsAt index).next := by
  have hline : s.lines[index]? = some s.lines[index] := List.getElem?_eq_getElem h
  cases hbrace : s.lines[index].endsIn '\x7b' with
  | true =>
    rw [boundsAt_braced hline hbrace]
    cases hclose : s.braces.get? index with
    | none => exact Nat.lt_succ_of_lt h
    | some close => exact Nat.lt_succ_of_le (hs.le hclose)
  | false =>
    rw [boundsAt_unbraced (by rw [hline]; exact hbrace)]
    dsimp only
    omega

/-- The run goes on behind a conditional on a later line. -/
theorem WellClosed.lt_tailAt (hs : s.WellClosed) : ∀ (n : Nat) {index : Nat} {line : Text},
    s.lines.length ≤ index + n → s.lines[index]? = some line → index < (tailAt d s index line).2
  | 0, index, line, hcount, hline => by
    have hlt := (List.getElem?_eq_some_iff.1 hline).1
    omega
  | n + 1, index, line, hcount, hline => by
    have hself := hs.lt_next (List.getElem?_eq_some_iff.1 hline).1
    cases helse : s.elseLine? (s.boundsAt index).stop with
    | none =>
      rw [tailAt_of_none hline helse]
      exact hself
    | some j =>
      have hj := lt_of_isElse (elseLine?_eq_some helse).1
      by_cases hahead : index < j
      · have hnext : s.lines[j]? = some s.lines[j] := List.getElem?_eq_getElem hj
        rw [tailAt_of_some hline helse hahead hnext]
        split
        · exact hahead.trans (hs.lt_tailAt n (by omega) hnext)
        · exact hahead.trans (hs.lt_next hj)
      · have hrow : Below.row? ⟨index + 1, rowsAt (makeRow d s) s.lines (index + 1)⟩ j = none :=
          if_pos (by dsimp only; omega)
        rw [boundsAt_eq hline] at helse hself
        simp only [tailAt, tail, helse, hrow]
        exact hself

/-- A clause behind a body stands behind its line. -/
theorem WellClosed.lt_of_isElse_next (hs : s.WellClosed)
    (h : s.isElse (s.boundsAt index).next) :
    index < (s.boundsAt index).next ∧ (s.boundsAt index).stop ≤ (s.boundsAt index).next ∧
      (s.boundsAt index).next < s.lines.length := by
  have hnext := lt_of_isElse h
  have hlt : index < s.lines.length := by
    by_contra hge
    rw [boundsAt_unbraced (by rw [List.getElem?_eq_none (by omega)]; rfl)] at hnext
    dsimp only at hnext
    omega
  refine ⟨hs.lt_next hlt, ?_, hnext⟩
  unfold boundsAt bounds
  split_ifs
  · exact Nat.le_succ _
  · exact Nat.le_refl _

/-- From a line on that is not before `stop` no line before `stop` is reached. -/
theorem keepsTo_of_le {P : Nat → Prop} {stop : Nat} : ∀ (n : Nat) {index : Nat},
    s.lines.length ≤ index + n → stop ≤ index → (bracedProgram d s index).KeepsTo P stop
  | 0, index, hcount, _ => by
    rw [bracedProgram, programAt_of_length_le (by omega)]
    exact Program.keepsTo_done stop
  | n + 1, index, hcount, hle => by
    cases hline : s.lines[index]? with
    | none =>
      rw [bracedProgram, programAt_of_length_le (List.getElem?_eq_none_iff.1 hline)]
      exact Program.keepsTo_done stop
    | some line =>
      cases hskip : isSkipped d line with
      | true =>
        rw [bracedProgram, programAt_of_getElem? hline, makeRow, row_program, if_pos hskip,
          Below.program_rowsAt (Nat.le_refl _)]
        exact keepsTo_of_le n (by omega) (by omega)
      | false =>
        rw [bracedProgram_eq hline hskip]
        exact keepsTo_rowProgram_of_le hle

/-- A body that is a plain statement visits its line only. -/
theorem keepsTo_statement {i : Nat} (h : ∀ next, s.lines[i + 1]? = some next →
      firstCondition? next = none ∧ loop? d (bracedHeader next) = none) {stop : Nat}
    (hstop : stop ≤ i + 2) :
    (bracedProgram d s (i + 1)).KeepsTo (fun k => i < k ∧ k < stop) stop := by
  have hbehind : (bracedProgram d s (i + 1 + 1)).KeepsTo (fun k => i < k ∧ k < stop) stop :=
    keepsTo_of_le s.lines.length (by omega) hstop
  cases hline : s.lines[i + 1]? with
  | none =>
    rw [bracedProgram, programAt_of_length_le (List.getElem?_eq_none_iff.1 hline)]
    exact Program.keepsTo_done stop
  | some next =>
    obtain ⟨hfirst, hloop⟩ := h next hline
    cases hskip : isSkipped d next with
    | true =>
      rw [bracedProgram, programAt_of_getElem? hline, makeRow, row_program, if_pos hskip,
        Below.program_rowsAt (Nat.le_refl _)]
      exact hbehind
    | false =>
      rw [bracedProgram_eq hline hskip, hfirst, rowProgram_of_no_loop hloop, Program.KeepsTo,
        Below.program_rowsAt (Nat.le_refl _)]
      exact fun hlt => ⟨⟨Nat.lt_succ_self i, hlt⟩, hbehind⟩

/-- While a body that is sealed is run, only its own lines are visited. -/
theorem keepsTo_of_isSealed (hbraced : d.layout = .braced) {source : Text} {i : Nat}
    (h : (d.bracedSource source).isSealed d i) :
    (bracedProgram d (d.bracedSource source) (i + 1)).KeepsTo
      (fun k => i < k ∧ k < ((d.bracedSource source).boundsAt i).stop)
      ((d.bracedSource source).boundsAt i).stop := by
  obtain ⟨line, hline, hsealed⟩ := (Option.any_eq_true _ _).1 h
  cases hbrace : line.endsIn '\x7b' with
  | true =>
    rw [if_pos hbrace] at hsealed
    obtain ⟨close, hclose, hconfined⟩ := (Option.any_eq_true _ _).1 hsealed
    rw [boundsAt_braced hline hbrace, hclose]
    have hencloses := (of_decide_eq_true hconfined).encloses hclose hbraced
    exact (hencloses.keepsTo (d.bracedSource source).lines.length (i + 1) (by omega)
      (by omega)).1 close (by omega)
  | false =>
    rw [if_neg (by simp [hbrace])] at hsealed
    rw [boundsAt_unbraced (by rw [hline]; exact hbrace)]
    refine keepsTo_statement (fun next hnext => ?_) (Nat.min_le_left _ _)
    rw [hnext, Option.all_some, Bool.and_eq_true] at hsealed
    exact ⟨Option.isNone_iff_eq_none.1 hsealed.1, Option.isNone_iff_eq_none.1 hsealed.2⟩

end BracedSource

namespace BracedSource

variable {d : Dialect} {s : BracedSource} {index : Nat}

/-- A clause stands on the line on which the run goes on behind a body. -/
theorem exists_clause {b : Branch} (h : (Reading.braced d s).clause? index = some b) :
    s.isElse (s.boundsAt index).next ∧ b.index = (s.boundsAt index).next ∧
      ∃ next, s.lines[b.index]? = some next ∧ b.cond = furtherCondition? next := by
  have h : (if s.isElse (s.boundsAt index).next then
      some (⟨(s.boundsAt index).next,
        furtherCondition? (s.lines[(s.boundsAt index).next]?.getD [])⟩ : Branch)
      else none) = some b := h
  split_ifs at h with helse
  obtain rfl := Option.some.inj h
  refine ⟨helse, rfl, _, List.getElem?_eq_getElem (lt_of_isElse helse), ?_⟩
  rw [List.getElem?_eq_getElem (lt_of_isElse helse), Option.getD_some]

/-- The clause behind a body is found if it is not overlooked. -/
theorem WellClosed.tail_of_next? (hs : s.WellClosed) {j : Nat} {cond : Option Text}
    (h : (Reading.braced d s).next? index = some ⟨j, cond⟩) :
    ∃ next, s.lines[j]? = some next ∧ furtherCondition? next = cond ∧
      tailFrom d s index = match furtherCondition? next with
        | some cond =>
          (.clause next (Condition.read cond) (bracedProgram d s (j + 1)) (s.boundsAt j).stop
            (tailAt d s j next).1, (tailAt d s j next).2)
        | none => (.otherwise (bracedProgram d s (j + 1)) (s.boundsAt j).stop,
          (s.boundsAt j).next) := by
  obtain ⟨hmisled, hclause, hover⟩ := Reading.next?_eq_some.1 h
  obtain ⟨helse, hj, next, hnext, hcond⟩ := exists_clause hclause
  obtain rfl : j = (s.boundsAt index).next := hj
  obtain ⟨hlt, -, hcount⟩ := hs.lt_of_isElse_next helse
  have hline : s.lines[index]? = some s.lines[index] := List.getElem?_eq_getElem (by omega)
  have hclosed : (s.braces.get? (s.boundsAt index).next).isSome := by
    simpa [Reading.braced] using hover
  have hfound : s.elseLine? (s.boundsAt index).stop = some (s.boundsAt index).next := by
    rw [hs.elseLine?_eq hline hmisled, helse, hclosed]
    rfl
  refine ⟨next, hnext, hcond.symm, ?_⟩
  rw [tailFrom_eq hline, tailAt_of_some hline hfound hlt hnext]

end BracedSource

theorem line_braced {d : Dialect} {s : BracedSource} {index : Nat} {line : Text}
    (h : s.lines[index]? = some line) : (Reading.braced d s).line index = line := by
  show s.lines[index]?.getD [] = line
  rw [h, Option.getD_some]

/-- The lines of a braced dialect are read as they are written, where nothing misleads. -/
theorem Reading.sound_braced {d : Dialect} (hbraced : d.layout = .braced) (source : Text) :
    (Reading.braced d (d.bracedSource source)).Sound
      (BracedSource.tailFrom d (d.bracedSource source)) where
  header_lt h := by
    obtain ⟨line, hline, -⟩ := Option.bind_eq_some_iff.1 h
    exact (List.getElem?_eq_some_iff.1 hline).1
  clause_lt h := by
    obtain ⟨helse, hb, -⟩ := BracedSource.exists_clause h
    rw [hb]
    exact (BracedSource.wellClosed d source).lt_of_isElse_next helse
  program := by
    intro i cond h
    obtain ⟨line, hline, hcond⟩ := Option.bind_eq_some_iff.1 h
    split_ifs at hcond with hskip
    have hafter : i < (tailAt d (d.bracedSource source) i line).2 :=
      (BracedSource.wellClosed d source).lt_tailAt _ (Nat.le_add_left _ _) hline
    rw [BracedSource.tailFrom_eq hline, line_braced hline]
    show bracedProgram d (d.bracedSource source) i = _
    rw [bracedProgram_eq hline (by simpa using hskip), hcond, rowProgram_some,
      ← BracedSource.boundsAt_eq hline, Below.program_rowsAt (Nat.le_refl _),
      Below.program_rowsAt hafter]
    rfl
  further := by
    intro i j cond h
    obtain ⟨next, hnext, hcond, htail⟩ := (BracedSource.wellClosed d source).tail_of_next? h
    rw [htail, hcond, BracedSource.tailFrom_eq hnext, line_braced hnext]
    rfl
  last := by
    intro i j h
    obtain ⟨next, hnext, hcond, htail⟩ := (BracedSource.wellClosed d source).tail_of_next? h
    rw [htail, hcond]
    rfl
  finished := by
    intro i hmisled hnext
    have hend := (Reading.next?_eq_none.1 hnext).resolve_left (by simp [hmisled])
    cases hline : (d.bracedSource source).lines[i]? with
    | none =>
      rw [BracedSource.tailFrom, hline]
      rfl
    | some line =>
      have hnone : (d.bracedSource source).elseLine? ((d.bracedSource source).boundsAt i).stop =
          none := by
        rw [(BracedSource.wellClosed d source).elseLine?_eq hline hmisled]
        cases helse : (d.bracedSource source).isElse ((d.bracedSource source).boundsAt i).next with
        | false => rfl
        | true =>
          have hover := hend _ (if_pos helse)
          have hover : ((d.bracedSource source).braces.get?
            ((d.bracedSource source).boundsAt i).next).isNone = true := hover
          rw [Option.isNone_iff_eq_none.1 hover]
          rfl
      rw [BracedSource.tailFrom_eq hline, BracedSource.tailAt_of_none hline hnone]
      rfl
  keepsTo := BracedSource.keepsTo_of_isSealed hbraced

end StepTrace
