import StepTrace.Proofs.Run.Trail
import StepTrace.Proofs.Structured.Indented

/-!
# Blocks of indented lines

In an indented dialect every line opens a block: the lines below it that are deeper
(`exists_opens`). The line behind a block decides whether the conditional above goes on. It is taken
for a further clause if it stands at the indent of the conditional and begins with `elif` and a
blank, or with the letters `else` (`Structured.Opens.tailAt_cases`, `clauseAt`).

While the lines of a block are run, no line outside of it is visited
(`Structured.Sealed.keepsTo`). Nothing is needed for this but that the line behind a block is
indented less than all of its lines: a block inside ends with it at the latest, and a clause of a
conditional inside is as deep as that conditional.
-/

namespace StepTrace

/-- The condition of the conditional that begins on a line. -/
def IndentedLine.condition? (line : IndentedLine) : Option Text :=
  (ifForm.match? (indentedHeader line.text)).bind (·.get? .cond)

namespace Structured

variable {d : Dialect} {lines : List IndentedLine}

/-! ## Blocks -/

/-- Every line opens a block. -/
theorem exists_opens {index : Nat} {line : IndentedLine} (h : lines[index]? = some line) :
    ∃ inner behind, Opens lines index line inner behind := by
  refine ⟨(lines.drop (index + 1)).takeWhile (line.indent < ·.indent),
    (lines.drop (index + 1)).dropWhile (line.indent < ·.indent), ?_, fun l hl => ?_, fun l hl => ?_⟩
  · rw [List.takeWhile_append_dropWhile, List.drop_eq_getElem?_toList_append, h]
    rfl
  · simpa using List.mem_takeWhile_imp hl
  · have hnot := List.head?_dropWhile_not (fun l : IndentedLine => decide (line.indent < l.indent))
      (lines.drop (index + 1))
    rw [Option.mem_def.1 hl] at hnot
    simpa using hnot

namespace Opens

variable {index : Nat} {line : IndentedLine} {inner behind : List IndentedLine}

theorem stop_le (h : Opens lines index line inner behind) :
    index + 1 + inner.length ≤ lines.length := by
  have hlen := congrArg List.length h.drop
  simp only [List.length_drop, List.length_cons, List.length_append] at hlen
  omega

theorem getElem?_inner (h : Opens lines index line inner behind) {k : Nat} {l : IndentedLine}
    (hk : index < k) (hlt : k < index + 1 + inner.length) (hl : lines[k]? = some l) :
    line.indent < l.indent := by
  obtain ⟨n, rfl⟩ := Nat.exists_eq_add_of_le (Nat.succ_le_of_lt hk)
  rw [← List.getElem?_drop, h.drop_succ, List.getElem?_append_left (by omega)] at hl
  exact h.deep l (List.mem_of_getElem? hl)

theorem head?_behind (h : Opens lines index line inner behind) :
    behind.head? = lines[index + 1 + inner.length]? := by
  rw [← h.drop_behind, List.head?_drop]

theorem indent_le (h : Opens lines index line inner behind) {l : IndentedLine}
    (hl : lines[index + 1 + inner.length]? = some l) : l.indent ≤ line.indent :=
  h.le l (by rw [h.head?_behind]; exact hl)

variable {cond : Text} {head : Loop}

theorem program_of_condition (h : Opens lines index line inner behind)
    (hcond : line.condition? = some cond) (hafter : index < (indentedTailAt d lines index line).2) :
    indentedProgram d lines index = .branch index
      (.clause line.text (Condition.read cond) (indentedProgram d lines (index + 1))
        (index + 1 + inner.length) (indentedTailAt d lines index line).1)
      (indentedProgram d lines (indentedTailAt d lines index line).2) := by
  rw [IndentedLine.condition?] at hcond
  rw [indentedProgram, programAt_of_getElem? h.getElem?, indentedRow_program, hcond,
    rowProgram_some, h.bounds, Below.program_rowsAt (Nat.le_refl _), Below.program_rowsAt hafter]

theorem program_of_loop (h : Opens lines index line inner behind) (hcond : line.condition? = none)
    (hloop : loop? d (indentedHeader line.text) = some head) :
    indentedProgram d lines index = .loop index line.text head (indentedProgram d lines (index + 1))
      (index + 1 + inner.length) (indentedProgram d lines (index + 1 + inner.length)) := by
  rw [IndentedLine.condition?] at hcond
  rw [indentedProgram, programAt_of_getElem? h.getElem?, indentedRow_program, hcond,
    rowProgram_of_loop hloop, h.bounds, Below.program_rowsAt (Nat.le_refl _),
    Below.program_rowsAt (Nat.le_add_right _ _)]

theorem program_of_statement (h : Opens lines index line inner behind)
    (hcond : line.condition? = none) (hloop : loop? d (indentedHeader line.text) = none) :
    indentedProgram d lines index =
      .plain index line.text (Statement.read d line.text)
        (indentedProgram d lines (index + 1)) := by
  rw [IndentedLine.condition?] at hcond
  rw [indentedProgram, programAt_of_getElem? h.getElem?, indentedRow_program, hcond,
    rowProgram_of_no_loop hloop, Below.program_rowsAt (Nat.le_refl _)]

end Opens

/-! ## Clauses -/

/-- The line begins like a further clause. -/
def beginsClause (line : IndentedLine) : Bool :=
  line.text.startsWith elifBeginning || line.text.startsWith elseBeginning

/-- The chain that begins on a line if it is taken as a further clause, and the line behind it. -/
abbrev clauseAt (d : Dialect) (lines : List IndentedLine) (index : Nat) (line : IndentedLine) :
    Chain × Nat :=
  let row := indentedRow d index line (lines.drop (index + 1))
    (rowsAt (indentedRow d) lines (index + 1))
  (row.chain, row.after)

namespace Opens

variable {index : Nat} {line : IndentedLine} {inner behind : List IndentedLine}

/-- Behind the body of a line its conditional comes to an end, or the line there is taken for a
further clause. -/
theorem tailAt_cases (h : Opens lines index line inner behind) (d : Dialect) :
    (indentedTailAt d lines index line = (.finished, index + 1 + inner.length) ∧
      ∀ l, lines[index + 1 + inner.length]? = some l → l.indent = line.indent →
        beginsClause l = false) ∨
    ∃ l, lines[index + 1 + inner.length]? = some l ∧ l.indent = line.indent ∧
      beginsClause l = true ∧
      indentedTailAt d lines index line = clauseAt d lines (index + 1 + inner.length) l := by
  have hhead := h.head?_behind
  cases behind with
  | nil =>
    refine Or.inl ⟨h.tailAt_of_closes (Closes.of_lt fun _ hl => nomatch hl), fun l hl => ?_⟩
    rw [← hhead] at hl
    cases hl
  | cons next below =>
    have hnext : lines[index + 1 + inner.length]? = some next := hhead.symm
    have hclause : ∀ beginning, isClause beginning line.indent (next :: below) =
        (next.indent == line.indent && next.text.startsWith beginning) := by
      intro beginning
      rw [isClause]
      congr 1
      rw [Bool.eq_iff_iff, beq_iff_eq, beq_iff_eq]
      exact Int.ofNat_inj
    by_cases hfurther : next.indent = line.indent ∧ beginsClause next = true
    · exact Or.inr ⟨next, hnext, hfurther.1, hfurther.2, h.tailAt_of_clause hfurther.1 hfurther.2⟩
    · have hnone : next.indent = line.indent → beginsClause next = false := by
        simpa using hfurther
      refine Or.inl ⟨h.tailAt_of_closes ⟨h.le, ?_, ?_⟩, fun l hl hindent => ?_⟩
      · rw [hclause]
        cases hindent : next.indent == line.indent with
        | false => rfl
        | true => exact (Bool.or_eq_false_iff.1 (hnone (by simpa using hindent))).1
      · rw [hclause]
        cases hindent : next.indent == line.indent with
        | false => rfl
        | true => exact (Bool.or_eq_false_iff.1 (hnone (by simpa using hindent))).2
      · obtain rfl : next = l := Option.some.inj (hnext.symm.trans hl)
        exact hnone hindent

/-- A line that is taken for a further clause: one with a condition and the clauses behind it, one
that lacks its condition, or the last one. -/
theorem clauseAt_eq (h : Opens lines index line inner behind) (d : Dialect) :
    clauseAt d lines index line =
      if line.text.startsWith elifBeginning then
        match line.furtherCondition? with
        | some cond =>
          (.clause line.text (Condition.read cond) (indentedProgram d lines (index + 1))
            (index + 1 + inner.length) (indentedTailAt d lines index line).1,
            (indentedTailAt d lines index line).2)
        | none => (.malformed, index + 1 + inner.length)
      else (.otherwise (indentedProgram d lines (index + 1)) (index + 1 + inner.length),
        index + 1 + inner.length) := by
  simp only [clauseAt, indentedRow_chain, indentedRow_after, h.bounds,
    Below.program_rowsAt (Nat.le_refl _)]
  split_ifs
  · cases line.furtherCondition? <;> rfl
  · rfl

end Opens

/-- How a conditional goes on behind the body of a line: the chain of its clauses, and the line at
which the run goes on behind them. -/
inductive GoesOn (d : Dialect) (lines : List IndentedLine) :
    Nat → IndentedLine → Chain → Nat → Prop
  /-- The line behind the body is not taken for a clause. -/
  | finished {index line inner behind} (hopens : Opens lines index line inner behind)
      (hend : ∀ l, lines[index + 1 + inner.length]? = some l → l.indent = line.indent →
        beginsClause l = false) :
      GoesOn d lines index line .finished (index + 1 + inner.length)
  /-- A clause with a condition. -/
  | further {index line inner behind next inner' behind' cond chain after}
      (hopens : Opens lines index line inner behind)
      (hnext : Opens lines (index + 1 + inner.length) next inner' behind')
      (hindent : next.indent = line.indent) (hword : next.text.startsWith elifBeginning)
      (hcond : next.furtherCondition? = some cond)
      (hrest : GoesOn d lines (index + 1 + inner.length) next chain after) :
      GoesOn d lines index line
        (.clause next.text (Condition.read cond)
          (indentedProgram d lines (index + 1 + inner.length + 1))
          (index + 1 + inner.length + 1 + inner'.length) chain) after
  /-- A clause that lacks its condition. -/
  | malformed {index line inner behind next inner' behind'}
      (hopens : Opens lines index line inner behind)
      (hnext : Opens lines (index + 1 + inner.length) next inner' behind')
      (hindent : next.indent = line.indent) (hword : next.text.startsWith elifBeginning)
      (hcond : next.furtherCondition? = none) :
      GoesOn d lines index line .malformed (index + 1 + inner.length + 1 + inner'.length)
  /-- The last clause, which has no condition. -/
  | last {index line inner behind next inner' behind'}
      (hopens : Opens lines index line inner behind)
      (hnext : Opens lines (index + 1 + inner.length) next inner' behind')
      (hindent : next.indent = line.indent) (helif : next.text.startsWith elifBeginning = false)
      (hword : next.text.startsWith elseBeginning) :
      GoesOn d lines index line
        (.otherwise (indentedProgram d lines (index + 1 + inner.length + 1))
          (index + 1 + inner.length + 1 + inner'.length))
        (index + 1 + inner.length + 1 + inner'.length)

/-- Behind the body of a line its conditional goes on in one of these ways. By induction on the
number of lines from the line to the end. -/
theorem goesOn_tailAt (d : Dialect) : ∀ (n : Nat) {index : Nat} {line : IndentedLine},
    lines.length ≤ index + n → lines[index]? = some line →
    GoesOn d lines index line (indentedTailAt d lines index line).1
      (indentedTailAt d lines index line).2
  | 0, index, line, hcount, hline => by
    have hcount : lines.length ≤ index := hcount
    rw [List.getElem?_eq_none hcount] at hline
    cases hline
  | n + 1, index, line, hcount, hline => by
    obtain ⟨inner, behind, hopens⟩ := exists_opens hline
    rcases hopens.tailAt_cases d with ⟨htail, hend⟩ | ⟨next, hnext, hindent, hword, htail⟩
    · rw [htail]
      exact .finished hopens hend
    · obtain ⟨inner', behind', hopens'⟩ := exists_opens hnext
      rw [htail, hopens'.clauseAt_eq]
      split_ifs with helif
      · split
        · rename_i cond hcond
          exact .further hopens hopens' hindent helif hcond (goesOn_tailAt d n (by omega) hnext)
        · rename_i hcond
          exact .malformed hopens hopens' hindent helif hcond
      · have helif : next.text.startsWith elifBeginning = false := by simpa using helif
        rw [beginsClause, helif, Bool.false_or] at hword
        exact .last hopens hopens' hindent helif hword

/-! ## Runs inside of a block -/

/-- The line behind a range, if there is one, is indented less than every line of the range. -/
def Sealed (lines : List IndentedLine) (first stop : Nat) : Prop :=
  ∀ c line l, first ≤ c → c < stop → lines[c]? = some line → lines[stop]? = some l →
    l.indent < line.indent

theorem Opens.sealed {index : Nat} {line : IndentedLine} {inner behind : List IndentedLine}
    (h : Opens lines index line inner behind) :
    Sealed lines (index + 1) (index + 1 + inner.length) :=
  fun _ _ _ hfirst hlt hc hl =>
    Nat.lt_of_le_of_lt (h.indent_le hl) (h.getElem?_inner hfirst hlt hc)

namespace Sealed

variable {first stop index : Nat} {line : IndentedLine} {inner behind : List IndentedLine}

/-- A block that begins inside ends inside. -/
theorem block_le (h : Sealed lines first stop) (hopens : Opens lines index line inner behind)
    (hfirst : first ≤ index) (hlt : index < stop) : index + 1 + inner.length ≤ stop := by
  by_contra hgt
  have hlen := hopens.stop_le
  have hline : lines[stop]? = some lines[stop] := List.getElem?_eq_getElem (by omega)
  have hinner := hopens.getElem?_inner hlt (by omega) hline
  have hbehind := h index line _ hfirst hlt hopens.getElem? hline
  omega

/-- A line behind a block inside that is level with the header of the block is inside. -/
theorem level_lt (h : Sealed lines first stop) (hopens : Opens lines index line inner behind)
    (hfirst : first ≤ index) (hlt : index < stop) {l : IndentedLine}
    (hl : lines[index + 1 + inner.length]? = some l) (hlevel : l.indent = line.indent) :
    index + 1 + inner.length < stop := by
  refine Nat.lt_of_le_of_ne (h.block_le hopens hfirst hlt) fun heq => ?_
  have hbehind := h index line l hfirst hlt hopens.getElem? (heq ▸ hl)
  omega

/-- Programs that begin inside and stop there keep to the lines inside, and so do clauses. By
induction on the number of lines from the first one to the end. -/
theorem keepsTo (h : Sealed lines first stop) : ∀ n c : Nat,
    lines.length ≤ c + n → first ≤ c →
    (∀ last ≤ stop, (indentedProgram d lines c).KeepsTo (fun k => first ≤ k ∧ k < stop) last) ∧
    ∀ line, lines[c]? = some line → c < stop →
      (clauseAt d lines c line).1.KeepsTo fun k => first ≤ k ∧ k < stop
  | 0, c, hcount, _ => by
    have hcount : lines.length ≤ c := hcount
    refine ⟨fun last _ => ?_, fun line hline => ?_⟩
    · rw [indentedProgram, programAt_of_length_le hcount]
      exact Program.keepsTo_done last
    · rw [List.getElem?_eq_none hcount] at hline
      cases hline
  | n + 1, c, hcount, hfirst => by
    have hbelow : ∀ last ≤ stop, ∀ k, c < k →
        (indentedProgram d lines k).KeepsTo (fun k => first ≤ k ∧ k < stop) last :=
      fun last hlast k hk => (h.keepsTo n k (by omega) (by omega)).1 last hlast
    have htail : ∀ line inner behind, Opens lines c line inner behind → c < stop →
        (indentedTailAt d lines c line).1.KeepsTo fun k => first ≤ k ∧ k < stop := by
      intro line inner behind hopens hc
      rcases hopens.tailAt_cases d with ⟨htail, -⟩ | ⟨l, hl, hindent, -, htail⟩
      · rw [htail]
        exact Chain.keepsTo_finished
      · have hinside := h.level_lt hopens hfirst hc hl hindent
        rw [htail]
        exact (h.keepsTo n _ (by omega) (by omega)).2 l hl hinside
    refine ⟨fun last hlast => ?_, fun line hline hc => ?_⟩
    · rcases Nat.lt_or_ge c lines.length with hlt | hge
      · have hline : lines[c]? = some lines[c] := List.getElem?_eq_getElem hlt
        obtain ⟨inner, behind, hopens⟩ := exists_opens hline
        rw [indentedProgram, programAt_of_getElem? hline, indentedRow_program, hopens.bounds]
        rcases Nat.lt_or_ge c last with hc | hc
        · have hbody := hbelow _ (h.block_le hopens hfirst (by omega))
          exact keepsTo_rowProgram ⟨hfirst, by omega⟩ (keepsTo_below hbody (c + 1))
            (fun _ => htail _ _ _ hopens (by omega)) (keepsTo_below (hbelow last hlast))
        · exact keepsTo_rowProgram_of_le hc
      · rw [indentedProgram, programAt_of_length_le hge]
        exact Program.keepsTo_done last
    · obtain ⟨inner, behind, hopens⟩ := exists_opens hline
      have hbody := hbelow _ (h.block_le hopens hfirst hc) (c + 1) (Nat.lt_succ_self c)
      rw [hopens.clauseAt_eq]
      split_ifs
      · cases line.furtherCondition? with
        | some cond =>
          rw [Chain.KeepsTo]
          exact ⟨hbody, htail line inner behind hopens hc⟩
        | none => exact Chain.keepsTo_malformed
      · rw [Chain.KeepsTo]
        exact hbody

end Sealed

/-- While the block of a line is run, only its own lines are visited. -/
theorem Opens.keepsTo {index : Nat} {line : IndentedLine} {inner behind : List IndentedLine}
    (h : Opens lines index line inner behind) (d : Dialect) :
    (indentedProgram d lines (index + 1)).KeepsTo
      (fun k => index < k ∧ k < index + 1 + inner.length) (index + 1 + inner.length) :=
  (h.sealed.keepsTo lines.length (index + 1) (by omega) (Nat.le_refl _)).1 _ (Nat.le_refl _)

end Structured

end StepTrace
