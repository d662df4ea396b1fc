import StepTrace.Proofs.Program.Rows
import StepTrace.Proofs.Run.Faults
import StepTrace.Proofs.Source.Lines
import StepTrace.Proofs.Structured.Curtailed
import StepTrace.Proofs.Structured.Written

/-!
# Structured programs by indentation

In an indented dialect the program of a snippet that is written as a structured program is read as
that structured program. A body ends with the first line that is not deeper than its header, and a
further clause is looked for on that line only (`Opens`). So the parts are found again, by induction
over the structured program in its place (`Block.readAs_of_written`). The induction carries that the
line behind the structured program is indented less: it belongs to none of its bodies and is no
further clause.
-/

namespace StepTrace

theorem indentedRow_after (d : Dialect) (index : Nat) (line : IndentedLine)
    (lines : List IndentedLine) (rows : List Row) :
    (indentedRow d index line lines rows).after =
      if line.text.startsWith elifBeginning then
        match line.furtherCondition? with
        | some _ => (indentedTail index line lines rows).2
        | none => (indentedBounds index line.indent lines).next
      else (indentedBounds index line.indent lines).next := by
  show (if line.text.startsWith elifBeginning then
    match line.furtherCondition? with
    | some cond =>
      (Chain.clause line.text (Condition.read cond) (Below.program ⟨index + 1, rows⟩ (index + 1))
        (indentedBounds index line.indent lines).stop (indentedTail index line lines rows).1,
        (indentedTail index line lines rows).2)
    | none => (Chain.malformed, _)
    else (Chain.otherwise _ (indentedBounds index line.indent lines).stop, _)).2 = _
  split_ifs
  · cases line.furtherCondition? <;> rfl
  · rfl

theorem run_indented_of_le (d : Dialect) (lines : List IndentedLine) (limits : Limits)
    (index stop : Nat) (h : stop ≤ index) :
    (programAt (indentedRow d) lines index).run limits stop = pure () := by
  refine run_programAt (fun index line below rows hle _ => ?_) lines index h
  rw [indentedRow_program]
  exact run_rowProgram hle

namespace Structured

/-! ## Reading -/

section Rows

variable {d : Dialect} {lines : List IndentedLine}

/-- The program from a line on. -/
abbrev indentedProgram (d : Dialect) (lines : List IndentedLine) : Nat → Program :=
  programAt (indentedRow d) lines

/-- The chain of the clauses behind the body of a line, and the line behind it. -/
abbrev indentedTailAt (d : Dialect) (lines : List IndentedLine) (index : Nat)
    (line : IndentedLine) : Chain × Nat :=
  indentedTail index line (lines.drop (index + 1)) (rowsAt (indentedRow d) lines (index + 1))

/-- A line and what is written below it: the lines of its body and those behind. -/
structure Opens (lines : List IndentedLine) (index : Nat) (line : IndentedLine)
    (inner behind : List IndentedLine) : Prop where
  drop : lines.drop index = line :: (inner ++ behind)
  deep : ∀ l ∈ inner, line.indent < l.indent
  le : ∀ l ∈ behind.head?, l.indent ≤ line.indent

namespace Opens

variable {index : Nat} {line : IndentedLine} {inner behind : List IndentedLine}

theorem getElem? (h : Opens lines index line inner behind) : lines[index]? = some line := by
  rw [← List.head?_drop, h.drop]
  rfl

theorem drop_succ (h : Opens lines index line inner behind) :
    lines.drop (index + 1) = inner ++ behind :=
  drop_add_length (a := [line]) h.drop

theorem drop_behind (h : Opens lines index line inner behind) :
    lines.drop (index + 1 + inner.length) = behind :=
  drop_add_length h.drop_succ

theorem bounds (h : Opens lines index line inner behind) :
    indentedBounds index line.indent (lines.drop (index + 1)) =
      ⟨index + 1 + inner.length, index + 1 + inner.length⟩ := by
  rw [indentedBounds, h.drop_succ, bodyLength_append h.deep h.le]

/-- The line behind a body is indented less than the body. -/
theorem lt {deeper : Nat} (h : Opens lines index line inner behind) (hlt : line.indent < deeper) :
    ∀ l ∈ behind.head?, l.indent < deeper :=
  fun l hl => Nat.lt_of_le_of_lt (h.le l hl) hlt

/-- No clause follows the body if its conditional has come to its end. -/
theorem tailAt_of_closes (h : Opens lines index line inner behind)
    (hbehind : Closes line.indent behind) :
    indentedTailAt d lines index line = (.finished, index + 1 + inner.length) := by
  simp only [indentedTailAt, indentedTail, h.bounds]
  rw [h.drop_succ, bodyLength_append h.deep h.le, List.drop_left, hbehind.elif, hbehind.otherwise]
  rfl

/-- The clause on the line behind the body follows. -/
theorem tailAt_of_clause {next : IndentedLine} (h : Opens lines index line inner (next :: behind))
    (hindent : next.indent = line.indent)
    (hbegins : next.text.startsWith elifBeginning || next.text.startsWith elseBeginning) :
    let row := indentedRow d (index + 1 + inner.length) next
      (lines.drop (index + 1 + inner.length + 1))
      (rowsAt (indentedRow d) lines (index + 1 + inner.length + 1))
    indentedTailAt d lines index line = (row.chain, row.after) := by
  have hnext : lines[index + 1 + inner.length]? = some next := by
    rw [← List.head?_drop, h.drop_behind]
    rfl
  have hclause : ∀ beginning, isClause beginning line.indent (next :: behind) =
      next.text.startsWith beginning := by
    intro beginning
    rw [isClause, hindent, beq_self_eq_true, Bool.true_and]
  simp only [indentedTailAt, indentedTail, h.bounds]
  rw [h.drop_succ, bodyLength_append h.deep h.le, List.drop_left, hclause, hclause, if_pos hbegins,
    Below.row?_rowsAt (Nat.le_add_right _ _), rowsAt_of_getElem? hnext]
  rfl

end Opens

variable {index next indent : Nat} {raw cond : Text} {inner behind : List IndentedLine}
  {chain : Chain}

theorem indentedProgram_leaf {t : Text} (h : lines[index]? = some ⟨raw, t, indent⟩)
    (ht : (indentedRules d).leaf t) :
    indentedProgram d lines index =
      .plain index t (Statement.read d t) (indentedProgram d lines (index + 1)) := by
  simp only [indentedRules, Bool.and_eq_true, Option.isNone_iff_eq_none] at ht
  obtain ⟨⟨⟨hif, hloop⟩, -⟩, -⟩ := ht
  rw [indentedProgram, programAt_of_getElem? h, indentedRow_program, hif,
    rowProgram_of_no_loop hloop, Below.program_rowsAt (Nat.le_refl _)]

theorem indentedProgram_branch
    (h : Opens lines index ⟨raw, ifLine .indented cond, indent⟩ inner behind)
    (hcond : isCondition cond)
    (htail : indentedTailAt d lines index ⟨raw, ifLine .indented cond, indent⟩ = (chain, next))
    (hnext : index < next) :
    indentedProgram d lines index = .branch index
      (.clause (ifLine .indented cond) (Condition.read cond) (indentedProgram d lines (index + 1))
        (index + 1 + inner.length) chain)
      (indentedProgram d lines next) := by
  obtain ⟨u, hu, hread⟩ := cond_of_header ifForm_cond hcond
  have hheader : indentedHeader (ifLine .indented cond) = Text.trimRight ("if ".toList ++ cond) :=
    indentedHeader_opened _
  rw [indentedTailAt] at htail
  rw [indentedProgram, programAt_of_getElem? h.getElem?, indentedRow_program, htail, hheader, hu,
    rowProgram_some, h.bounds, hread, Below.program_rowsAt (Nat.le_refl _),
    Below.program_rowsAt hnext]

theorem indentedProgram_loop {language : Language} {header : Text} {head : Loop}
    (h : Opens lines index ⟨raw, loopLine .indented header, indent⟩ inner behind)
    (hloop : loop? language.dialect header.trimRight = some head) :
    indentedProgram language.dialect lines index = .loop index (loopLine .indented header) head
      (indentedProgram language.dialect lines (index + 1)) (index + 1 + inner.length)
      (indentedProgram language.dialect lines (index + 1 + inner.length)) := by
  obtain ⟨w, hw, rest, hrest⟩ := loop_begins hloop
  have hheader : indentedHeader (loopLine .indented header) = header.trimRight :=
    indentedHeader_opened header
  have hif : (ifForm.match? header.trimRight).bind (·.get? .cond) = none := by
    rw [hrest, ifForm_of_loopWord w hw]
    rfl
  rw [indentedProgram, programAt_of_getElem? h.getElem?, indentedRow_program, hheader, hif,
    rowProgram_of_loop hloop, h.bounds, Below.program_rowsAt (Nat.le_refl _),
    Below.program_rowsAt (Nat.le_add_right _ _)]

theorem indentedRow_furtherLine
    (h : Opens lines index ⟨raw, furtherLine .indented cond, indent⟩ inner behind)
    (hcond : isCondition cond)
    (htail : indentedTailAt d lines index ⟨raw, furtherLine .indented cond, indent⟩ =
      (chain, next)) :
    let row := indentedRow d index ⟨raw, furtherLine .indented cond, indent⟩
      (lines.drop (index + 1)) (rowsAt (indentedRow d) lines (index + 1))
    (row.chain, row.after) =
      (.clause (furtherLine .indented cond) (Condition.read cond)
        (indentedProgram d lines (index + 1)) (index + 1 + inner.length) chain, next) := by
  obtain ⟨u, hu, hread⟩ := cond_of_header elifForm_cond hcond
  have hfurther : IndentedLine.furtherCondition? ⟨raw, furtherLine .indented cond, indent⟩ =
      some u := by
    rw [IndentedLine.furtherCondition?, furtherLine, indentedHeader_opened]
    exact hu
  have hbegins : (furtherLine .indented cond).startsWith elifBeginning = true := rfl
  rw [indentedTailAt] at htail
  simp only [indentedRow_chain, indentedRow_after, hbegins, if_true, hfurther, htail, h.bounds,
    hread, Below.program_rowsAt (Nat.le_refl _)]

theorem indentedRow_elseLine
    (h : Opens lines index ⟨raw, elseLine .indented, indent⟩ inner behind) :
    let row := indentedRow d index ⟨raw, elseLine .indented, indent⟩
      (lines.drop (index + 1)) (rowsAt (indentedRow d) lines (index + 1))
    (row.chain, row.after) =
      (.otherwise (indentedProgram d lines (index + 1)) (index + 1 + inner.length),
        index + 1 + inner.length) := by
  have hbegins : (elseLine .indented).startsWith elifBeginning = false := rfl
  simp only [indentedRow_chain, indentedRow_after, hbegins, h.bounds,
    Below.program_rowsAt (Nat.le_refl _)]
  rfl

end Rows

section Reading

variable {language : Language} {lines : List IndentedLine}

mutual

/-- A structured program in its place is read as it is, if the line behind it is indented less. -/
theorem Block.readAs_of_written (hlayout : language.dialect.layout = .indented) :
    ∀ {b : Block} {indent first : Nat} {part after : List IndentedLine},
    lines.drop first = part ++ after → b.Written indent part →
    b.follows (indentedRules language.dialect) → (∀ line ∈ after.head?, line.indent < indent) →
    b.ReadAs language.dialect (indentedProgram language.dialect lines) first (first + part.length)
  | .done, indent, first, part, after, hdrop, h, _, _ => by
    rw [Block.Written] at h
    rw [Block.ReadAs, h]
    rfl
  | .leaf text rest, indent, first, part, after, hdrop, h, hfollows, hafter => by
    rw [Block.Written] at h
    obtain ⟨raw, below, rfl, hrest⟩ := h
    rw [Block.follows, Bool.and_eq_true] at hfollows
    have hline : lines[first]? = some ⟨raw, text, indent⟩ := by
      rw [← List.head?_drop, hdrop]
      rfl
    have hbelow : lines.drop (first + 1) = below ++ after :=
      drop_add_length (a := [⟨raw, text, indent⟩]) hdrop
    rw [Block.ReadAs, List.length_cons, Nat.add_comm below.length, ← Nat.add_assoc]
    exact ⟨indentedProgram_leaf hline hfollows.1,
      Block.readAs_of_written hlayout hbelow hrest hfollows.2 hafter⟩
  | .branch cond body further rest, indent, first, part, after, hdrop, h, hfollows, hafter => by
    rw [Block.Written] at h
    obtain ⟨raw, deeper, inner, clauses, below, rfl, hlt, hbody, hfurther, hrest⟩ := h
    simp only [Block.follows, Bool.and_eq_true] at hfollows
    obtain ⟨⟨⟨hcond, hfollowsBody⟩, hfollowsFurther⟩, hfollowsRest⟩ := hfollows
    have hcloses : Closes indent (below ++ after) := hrest.closes hfollowsRest hafter
    have hopens : Opens lines first ⟨raw, ifLine .indented cond, indent⟩ inner
        (clauses ++ (below ++ after)) :=
      ⟨by simpa using hdrop, hbody.lt hlt, hfurther.head_le hcloses⟩
    obtain ⟨chain, htail, hchain⟩ := Clauses.tailAt_of_written hlayout hopens hfurther
      hfollowsFurther hcloses
    rw [Block.ReadAs, hlayout, add_length_cons_append, List.length_append, ← Nat.add_assoc]
    refine ⟨_, _, chain, by omega, indentedProgram_branch hopens hcond htail (by omega), ?_, hchain,
      ?_⟩
    · exact Block.readAs_of_written hlayout hopens.drop_succ hbody hfollowsBody (hopens.lt hlt)
    · exact Block.readAs_of_written hlayout (drop_add_length hopens.drop_behind) hrest hfollowsRest
        hafter
  | .loop header head body rest, indent, first, part, after, hdrop, h, hfollows, hafter => by
    rw [Block.Written] at h
    obtain ⟨raw, deeper, inner, below, rfl, hlt, hbody, hrest⟩ := h
    simp only [Block.follows, indentedRules, Bool.and_eq_true, beq_iff_eq] at hfollows
    obtain ⟨⟨hloop, hfollowsBody⟩, hfollowsRest⟩ := hfollows
    have hcloses : Closes indent (below ++ after) := hrest.closes hfollowsRest hafter
    have hopens : Opens lines first ⟨raw, loopLine .indented header, indent⟩ inner
        (below ++ after) :=
      ⟨by simpa using hdrop, hbody.lt hlt, hcloses.le⟩
    rw [Block.ReadAs, hlayout, add_length_cons_append]
    refine ⟨_, _, by omega, indentedProgram_loop hopens hloop, ?_, ?_⟩
    · exact Block.readAs_of_written hlayout hopens.drop_succ hbody hfollowsBody (hopens.lt hlt)
    · exact Block.readAs_of_written hlayout hopens.drop_behind hrest hfollowsRest hafter

/-- Further clauses in their place are found behind the body before them. -/
theorem Clauses.tailAt_of_written (hlayout : language.dialect.layout = .indented) :
    ∀ {c : Clauses} {index : Nat} {line : IndentedLine} {inner part behind : List IndentedLine},
    Opens lines index line inner (part ++ behind) → c.Written line.indent part →
    c.follows (indentedRules language.dialect) → Closes line.indent behind →
    ∃ chain, indentedTailAt language.dialect lines index line =
        (chain, index + 1 + inner.length + part.length) ∧
      c.ReadAs language.dialect (indentedProgram language.dialect lines) chain
  | .none, index, line, inner, part, behind, hopens, h, _, hbehind => by
    rw [Clauses.Written] at h
    subst h
    refine ⟨.finished, hopens.tailAt_of_closes hbehind, ?_⟩
    rw [Clauses.ReadAs]
  | .clause cond body next, index, line, inner, part, behind, hopens, h, hfollows, hbehind => by
    rw [Clauses.Written] at h
    obtain ⟨raw, deeper, inner', clauses, rfl, hlt, hbody, hnext⟩ := h
    simp only [Clauses.follows, Bool.and_eq_true] at hfollows
    obtain ⟨⟨hcond, hfollowsBody⟩, hfollowsNext⟩ := hfollows
    have hopens' : Opens lines (index + 1 + inner.length)
        ⟨raw, furtherLine .indented cond, line.indent⟩ inner' (clauses ++ behind) :=
      ⟨by simpa using hopens.drop_behind, hbody.lt hlt, hnext.head_le hbehind⟩
    obtain ⟨chain, htail, hchain⟩ := Clauses.tailAt_of_written hlayout hopens' hnext hfollowsNext
      hbehind
    rw [add_length_cons_append]
    refine ⟨_, (hopens.tailAt_of_clause rfl rfl).trans
      (indentedRow_furtherLine hopens' hcond htail), ?_⟩
    rw [Clauses.ReadAs, hlayout]
    refine ⟨_, _, _, rfl, ?_, hchain⟩
    exact Block.readAs_of_written hlayout hopens'.drop_succ hbody hfollowsBody (hopens'.lt hlt)
  | .otherwise body, index, line, inner, part, behind, hopens, h, hfollows, hbehind => by
    rw [Clauses.Written] at h
    obtain ⟨raw, deeper, inner', rfl, hlt, hbody⟩ := h
    rw [Clauses.follows] at hfollows
    have hopens' : Opens lines (index + 1 + inner.length)
        ⟨raw, elseLine .indented, line.indent⟩ inner' behind :=
      ⟨by simpa using hopens.drop_behind, hbody.lt hlt, hbehind.le⟩
    rw [List.length_cons, Nat.add_comm inner'.length, ← Nat.add_assoc]
    refine ⟨_, (hopens.tailAt_of_clause rfl rfl).trans (indentedRow_elseLine hopens'), ?_⟩
    rw [Clauses.ReadAs]
    refine ⟨_, _, rfl, ?_⟩
    exact Block.readAs_of_written hlayout hopens'.drop_succ hbody hfollows (hopens'.lt hlt)

end

end Reading

/-! ## Traces -/

/-- In an indented dialect a snippet with the lines of a structured program has the trace of that
program, whose ranges are cut to as many values as there may be entries. With whole ranges it has
the same trace, unless the cut run goes on behind a range and fails there. Then the trace over whole
ranges is full. -/
theorem trace_eq_of_indentedLines {d : Dialect} (hd : d = .python ∨ d = .generic) (limits : Limits)
    {source : Text} {b : Block} {indent : Nat} (hfollows : b.follows (indentedRules d))
    (hlines : b.Written indent (indentedLines d source)) :
    d.trace limits source = (b.run d limits (·.visited limits.entries)).outcome ∧
      (d.trace limits source = (b.run d limits Sweep.values).outcome ∨
        ∃ f entries, d.trace limits source = .fault f ∧
          (b.run d limits Sweep.values).outcome = .trace entries ∧
          entries.length = limits.entries.toNat) := by
  obtain ⟨language, rfl, hlayout⟩ : ∃ language : Language,
      d = language.dialect ∧ language.dialect.layout = .indented := by
    rcases hd with rfl | rfl
    · exact ⟨.python, rfl, rfl⟩
    · exact ⟨.sql, rfl, rfl⟩
  have hall : (indentedLines language.dialect source).drop 0 =
      indentedLines language.dialect source ++ [] := (List.append_nil _).symm
  have hread := Block.readAs_of_written hlayout hall hlines hfollows fun _ h => nomatch h
  have hprogram : Program.read language.dialect source =
      (indentedProgram language.dialect (indentedLines language.dialect source) 0,
        (indentedLines language.dialect source).length) := by
    simp only [Program.read, hlayout, Program.ofIndented, indentedRows_eq]
    rfl
  have htrace : language.dialect.trace limits source =
      (b.run language.dialect limits (·.visited limits.entries)).outcome := by
    rw [Nat.zero_add] at hread
    rw [Dialect.trace, hprogram]
    exact Block.outcome_of_readAs (run_indented_of_le _ _ _) hread
  rw [htrace]
  exact ⟨rfl, (b.curtails_run language.dialect).outcome⟩

/-- Nested loops and conditionals with all kinds of clauses. -/
def countBlock : Block :=
  .leaf "xs = [3, 1]".toList <|
  .ofHeader .python "for i in range(1, 6, 2)".toList
    (.branch "i < 2".toList (.leaf "x = 1".toList .done)
      (.clause "i < 4".toList
        (.ofHeader .python "for x in xs".toList (.leaf "print(x)".toList .done) .done)
        (.otherwise
          (.ofHeader .python "while x < 4".toList (.leaf "x += 2".toList .done) .done)))
      .done)
    (.leaf "print(x)".toList .done)

/-- Its trace has one entry before the outer loop, three, seven and seven in its rounds, and one
behind it. -/
theorem trace_eq_of_indentedLines_nested :
    countBlock.follows (indentedRules .python) ∧
    countBlock.Written 0 (indentedLines .python countBlock.indentedSnippet) ∧
    Dialect.python.trace .usual countBlock.indentedSnippet =
      (countBlock.run .python .usual (·.visited Limits.usual.entries)).outcome ∧
    Dialect.python.trace .usual countBlock.indentedSnippet =
      (countBlock.run .python .usual Sweep.values).outcome ∧
    (Dialect.python.trace .usual countBlock.indentedSnippet).length? = some 19 := by
  have hfollows : countBlock.follows (indentedRules .python) := by decide +kernel
  have hlines : indentedLines .python countBlock.indentedSnippet = countBlock.printed 0 := by
    decide +kernel
  have hwritten : countBlock.Written 0 (indentedLines .python countBlock.indentedSnippet) := by
    rw [hlines]
    exact countBlock.written_printed 0
  obtain ⟨hcut, hwhole⟩ := trace_eq_of_indentedLines (Or.inl rfl) .usual hfollows hwritten
  have hlength : (Dialect.python.trace .usual countBlock.indentedSnippet).length? = some 19 := by
    decide +kernel
  refine ⟨hfollows, hwritten, hcut, hwhole.resolve_right ?_, hlength⟩
  rintro ⟨f, entries, hfault, -⟩
  rw [hfault] at hlength
  cases hlength

/-- A range of which two values are visited, and behind it a statement that cannot be carried out.
-/
def failingBlock : Block :=
  .ofHeader .python "for i in range(5)".toList
    (.ofHeader .python "for y in ys".toList (.leaf "z = 1".toList .done) .done)
    (.leaf "print(\"\x7b²\x7d\".format(1))".toList .done)

/-- With two entries the run has a full trace behind the range and then fails. Over the whole range
the limit ends it in the third round. -/
theorem trace_of_cut_range :
    let limits : Limits := { Limits.usual with entries := 2 }
    failingBlock.follows (indentedRules .python) ∧
    failingBlock.Written 0 (indentedLines .python failingBlock.indentedSnippet) ∧
    Dialect.python.trace limits failingBlock.indentedSnippet = .fault (.notAnIndex ['²']) ∧
    (failingBlock.run .python limits Sweep.values).outcome.length? = some 2 := by
  have hlines : indentedLines .python failingBlock.indentedSnippet = failingBlock.printed 0 := by
    decide +kernel
  refine ⟨by decide +kernel, ?_, Outcome.eq_fault (by decide +kernel), by decide +kernel⟩
  rw [hlines]
  exact failingBlock.written_printed 0

end Structured

end StepTrace
