import StepTrace.Proofs.Program.Outermost
import StepTrace.Proofs.Program.Reading

/-!
# Conditionals by indentation

In an indented dialect a clause belongs to a conditional if it stands behind the body of the branch
before it, at the same indent, and begins with the word `elif`, which a condition follows, or `else`
(`IndentedLine.clause?`). The lines are read in another way: by the letters `elif` and a blank, or
by the letters `else`. So a clause is overlooked if no blank follows `elif`, and a run is misled by
a longer word that begins with the letters `else`, and by an `elif` without a condition.

Apart from that the chain of a conditional has its clauses one behind the other
(`Reading.sound_indented`), and no body leads out of its block.
-/

namespace StepTrace

open Pattern Structured

theorem isPrefix_of_word {w : String} {t : Text} (h : (word w).matchesFront t) :
    w.toList <+: t := by
  obtain ⟨f, hf⟩ := Option.isSome_iff_exists.1 h
  obtain ⟨c, k, hword, -⟩ := takes_of_match? hf
  exact ⟨c.rest, (takes_text.1 hword).1.symm⟩

/-- The condition of the clause on a line, if there is a clause. The last clause has none. -/
def IndentedLine.clause? (line : IndentedLine) : Option (Option Text) :=
  if (word "elif").matchesFront line.text then line.furtherCondition?.map some
  else if (word "else").matchesFront line.text then some none
  else none

/-- The word of a clause with a condition is not followed by a blank. -/
def IndentedLine.isOverlooked (line : IndentedLine) : Bool :=
  (word "elif").matchesFront line.text && !line.text.startsWith elifBeginning

namespace IndentedLine

variable {line : IndentedLine} {cond : Text}

theorem startsWith_else_of_word (h : (word "else").matchesFront line.text) :
    line.text.startsWith elseBeginning :=
  List.isPrefixOf_iff_prefix.2 (isPrefix_of_word h)

/-- What begins with the letters of the last clause has not the word of another one. -/
theorem not_word_elif_of_else (h : line.text.startsWith elseBeginning) :
    (word "elif").matchesFront line.text = false := by
  by_contra hword
  obtain ⟨rest, hrest⟩ := isPrefix_of_word (eq_true_of_ne_false hword)
  rw [← hrest] at h
  have hfalse : false = true := h
  cases hfalse

/-- A clause with a condition that is not overlooked. -/
theorem of_clause?_some (h : line.clause? = some (some cond)) (hover : line.isOverlooked = false) :
    line.text.startsWith elifBeginning ∧ line.furtherCondition? = some cond := by
  unfold clause? at h
  split_ifs at h with helif
  · obtain ⟨c, hc, hsome⟩ := Option.map_eq_some_iff.1 h
    obtain rfl := Option.some.inj hsome
    rw [isOverlooked, helif, Bool.true_and, Bool.not_eq_false'] at hover
    exact ⟨hover, hc⟩
  · cases Option.some.inj h

/-- A clause without a condition. -/
theorem of_clause?_none (h : line.clause? = some none) :
    line.text.startsWith elifBeginning = false ∧ line.text.startsWith elseBeginning := by
  unfold clause? at h
  split_ifs at h with helif helse
  · obtain ⟨c, -, hsome⟩ := Option.map_eq_some_iff.1 h
    cases hsome
  · refine ⟨?_, startsWith_else_of_word helse⟩
    by_contra hblank
    exact helif (word_of_elifBeginning (eq_true_of_ne_false hblank))

/-- What is taken for a clause is not overlooked. -/
theorem not_isOverlooked (h : beginsClause line) : line.isOverlooked = false := by
  rw [isOverlooked]
  rcases Bool.or_eq_true_iff.1 h with helif | helse
  · rw [helif, Bool.not_true, Bool.and_false]
  · rw [not_word_elif_of_else helse, Bool.false_and]

end IndentedLine

/-- The bounds of the body of a line. -/
def indentedBoundsAt (lines : List IndentedLine) (index : Nat) : Bounds :=
  (lines[index]?.map fun line =>
    indentedBounds index line.indent (lines.drop (index + 1))).getD ⟨index, index⟩

/-- The line behind the body of a line, if it has the indent of that line. -/
def sibling? (lines : List IndentedLine) (index : Nat) : Option IndentedLine :=
  lines[index]?.bind fun line =>
    lines[(indentedBoundsAt lines index).next]?.filter (·.indent == line.indent)

/-- The reading of the lines of a snippet in an indented dialect. -/
def Reading.indented (d : Dialect) (lines : List IndentedLine) : Reading where
  count := lines.length
  line index := (lines[index]?.map (·.text)).getD []
  bounds := indentedBoundsAt lines
  program := indentedProgram d lines
  header? index := lines[index]?.bind (·.condition?)
  clause? index := (sibling? lines index).bind fun line =>
    line.clause?.map fun cond => ⟨(indentedBoundsAt lines index).next, cond⟩
  overlooked index := lines[index]?.any (·.isOverlooked)
  misled index := (sibling? lines index).any fun line => beginsClause line && line.clause?.isNone
  sealed _ := true

section Indented

variable {d : Dialect} {lines : List IndentedLine} {index : Nat} {line : IndentedLine}
  {inner behind : List IndentedLine}

theorem Structured.Opens.boundsAt (h : Opens lines index line inner behind) :
    indentedBoundsAt lines index = ⟨index + 1 + inner.length, index + 1 + inner.length⟩ := by
  rw [indentedBoundsAt, h.getElem?, Option.map_some, Option.getD_some, h.bounds]

theorem Structured.Opens.sibling?_eq_some (h : Opens lines index line inner behind)
    {next : IndentedLine} : sibling? lines index = some next ↔
      lines[index + 1 + inner.length]? = some next ∧ next.indent = line.indent := by
  rw [sibling?, h.getElem?, Option.bind_some, h.boundsAt, Option.filter_eq_some_iff, beq_iff_eq]

/-- The chain behind the body of a line, and the line behind it. -/
def indentedTailFrom (d : Dialect) (lines : List IndentedLine) (index : Nat) : Chain × Nat :=
  (lines[index]?.map (indentedTailAt d lines index)).getD (.finished, index)

theorem indentedTailFrom_eq (h : lines[index]? = some line) :
    indentedTailFrom d lines index = indentedTailAt d lines index line := by
  rw [indentedTailFrom, h, Option.map_some, Option.getD_some]

/-- A clause stands behind the body of a line, at its indent. -/
theorem exists_clause {b : Branch} (h : (Reading.indented d lines).clause? index = some b) :
    ∃ line inner behind next inner' behind', Opens lines index line inner behind ∧
      Opens lines (index + 1 + inner.length) next inner' behind' ∧ next.indent = line.indent ∧
      b.index = index + 1 + inner.length ∧ next.clause? = some b.cond := by
  obtain ⟨next, hsibling, hclause⟩ := Option.bind_eq_some_iff.1 h
  obtain ⟨cond, hcond, rfl⟩ := Option.map_eq_some_iff.1 hclause
  obtain ⟨line, hline, -⟩ := Option.bind_eq_some_iff.1 hsibling
  obtain ⟨inner, behind, hopens⟩ := exists_opens hline
  obtain ⟨hnext, hindent⟩ := hopens.sibling?_eq_some.1 hsibling
  obtain ⟨inner', behind', hopens'⟩ := exists_opens hnext
  refine ⟨line, inner, behind, next, inner', behind', hopens, hopens', hindent, ?_, hcond⟩
  rw [hopens.boundsAt]

/-- The clause behind a body is taken for one unless it is overlooked. -/
theorem tail_of_next? {j : Nat} {cond : Option Text}
    (h : (Reading.indented d lines).next? index = some ⟨j, cond⟩) :
    ∃ next inner behind, Opens lines j next inner behind ∧ next.clause? = some cond ∧
      next.isOverlooked = false ∧ indentedTailFrom d lines index = clauseAt d lines j next := by
  obtain ⟨-, hclause, hread⟩ := Reading.next?_eq_some.1 h
  obtain ⟨line, inner, behind, next, inner', behind', hopens, hopens', hindent, rfl, hclause⟩ :=
    exists_clause hclause
  have hover : next.isOverlooked = false := by
    simpa [Reading.indented, hopens'.getElem?] using hread
  refine ⟨next, inner', behind', hopens', hclause, hover, ?_⟩
  rw [indentedTailFrom_eq hopens.getElem?]
  rcases hopens.tailAt_cases d with ⟨-, hend⟩ | ⟨l, hl, -, -, htail⟩
  · have hnot := hend next hopens'.getElem? hindent
    cases cond with
    | some cond =>
      rw [beginsClause, (IndentedLine.of_clause?_some hclause hover).1, Bool.true_or] at hnot
      cases hnot
    | none =>
      rw [beginsClause, (IndentedLine.of_clause?_none hclause).2, Bool.or_true] at hnot
      cases hnot
  · obtain rfl : next = l := Option.some.inj (hopens'.getElem?.symm.trans hl)
    exact htail

theorem Structured.Opens.bounds_reading (h : Opens lines index line inner behind) :
    (Reading.indented d lines).bounds index =
      ⟨index + 1 + inner.length, index + 1 + inner.length⟩ :=
  h.boundsAt

theorem line_indented (h : lines[index]? = some line) :
    (Reading.indented d lines).line index = line.text := by
  show (lines[index]?.map (·.text)).getD [] = line.text
  rw [h]
  rfl

/-- The lines of an indented dialect are read as they are written, where nothing misleads. -/
theorem Reading.sound_indented (d : Dialect) (lines : List IndentedLine) :
    (Reading.indented d lines).Sound (indentedTailFrom d lines) where
  header_lt h := by
    obtain ⟨line, hline, -⟩ := Option.bind_eq_some_iff.1 h
    exact (List.getElem?_eq_some_iff.1 hline).1
  clause_lt := by
    intro i b h
    obtain ⟨line, inner, behind, next, inner', behind', hopens, hopens', -, hj, -⟩ :=
      exists_clause h
    have hlt := (List.getElem?_eq_some_iff.1 hopens'.getElem?).1
    rw [hopens.bounds_reading, hj]
    exact ⟨by omega, Nat.le_refl _, hlt⟩
  program := by
    intro i cond h
    obtain ⟨line, hline, hcond⟩ := Option.bind_eq_some_iff.1 h
    obtain ⟨inner, behind, hopens⟩ := exists_opens hline
    rw [indentedTailFrom_eq hline, line_indented hline, hopens.bounds_reading]
    exact hopens.program_of_condition hcond
      (goesOn_tailAt d lines.length (Nat.le_add_left _ _) hline).bounds.1
  further := by
    intro i j cond h
    obtain ⟨next, inner, behind, hopens, hclause, hover, htail⟩ := tail_of_next? h
    obtain ⟨hword, hcond⟩ := IndentedLine.of_clause?_some hclause hover
    rw [htail, hopens.clauseAt_eq, if_pos hword, hcond, indentedTailFrom_eq hopens.getElem?,
      line_indented hopens.getElem?, hopens.bounds_reading]
    rfl
  last := by
    intro i j h
    obtain ⟨next, inner, behind, hopens, hclause, -, htail⟩ := tail_of_next? h
    rw [htail, hopens.clauseAt_eq, if_neg (by simp [(IndentedLine.of_clause?_none hclause).1]),
      hopens.bounds_reading]
    rfl
  finished := by
    intro i hmisled hnext
    have hend := (Reading.next?_eq_none.1 hnext).resolve_left (by simp [hmisled])
    cases hline : lines[i]? with
    | none => simp [Reading.indented, indentedTailFrom, indentedBoundsAt, hline]
    | some line =>
      obtain ⟨inner, behind, hopens⟩ := exists_opens hline
      rw [indentedTailFrom_eq hline, hopens.bounds_reading]
      rcases hopens.tailAt_cases d with ⟨htail, -⟩ | ⟨next, hnext, hindent, hbegins, -⟩
      · exact htail
      · -- The line is taken for a clause: it is one, since nothing misleads, and then overlooked.
        have hsibling := hopens.sibling?_eq_some.2 ⟨hnext, hindent⟩
        have hclause : next.clause?.isSome := by
          simpa [Reading.indented, hsibling, hbegins] using hmisled
        obtain ⟨cond, hcond⟩ := Option.isSome_iff_exists.1 hclause
        have hover := hend ⟨i + 1 + inner.length, cond⟩ (by
          simp [Reading.indented, hsibling, hcond, hopens.boundsAt])
        simp [Reading.indented, hnext, IndentedLine.not_isOverlooked hbegins] at hover
  keepsTo := by
    intro i _
    cases hline : lines[i]? with
    | none =>
      have hdone : (Reading.indented d lines).program (i + 1) = .done :=
        programAt_of_length_le (Nat.le_succ_of_le (List.getElem?_eq_none_iff.1 hline))
      rw [hdone]
      exact Program.keepsTo_done _
    | some line =>
      obtain ⟨inner, behind, hopens⟩ := exists_opens hline
      rw [hopens.bounds_reading]
      exact hopens.keepsTo d

end Indented

end StepTrace
