import StepTrace.Proofs.Program.Rows
import StepTrace.Proofs.Structured.Header
import StepTrace.Proofs.Structured.Scan
import StepTrace.Proofs.Trace.WellFormed

/-!
# Structured programs in braces

In a braced dialect the program of a snippet whose lines are those of a structured program is read
as that structured program. By induction on the structured program in its place
(`Block.readAs_of_placed`): the row of each line refers to the rows of the lines where the bodies,
the further clauses and the rest stand. The induction carries that no further clause stands behind
the structured program, because the reader looks for one behind every conditional.
-/

namespace StepTrace

/-- The head counts through numbers. -/
def Loop.countsNumbers : Loop → Bool
  | .range _ _ => true
  | .span _ _ _ _ => true
  | _ => false

namespace BracedSource

theorem row_after (d : Dialect) (s : BracedSource) (index : Nat) (line : Text) (rows : List Row) :
    (row d s index line rows).after =
      match furtherCondition? line with
      | some _ => (s.tail index line rows).2
      | none => (s.bounds index line).next := by
  show (match furtherCondition? line with
    | some cond =>
      (Chain.clause line (Condition.read cond) (Below.program ⟨index + 1, rows⟩ (index + 1))
        (s.bounds index line).stop (s.tail index line rows).1, (s.tail index line rows).2)
    | none => (Chain.otherwise _ (s.bounds index line).stop, (s.bounds index line).next)).2 = _
  cases furtherCondition? line <;> rfl

/-- How the row of a line is made. -/
abbrev makeRow (d : Dialect) (s : BracedSource) (index : Nat) (line : Text) (_ : List Text)
    (rows : List Row) : Row :=
  row d s index line rows

theorem firstProgram_below (index : Nat) (rows : List Row) :
    Below.program ⟨index, rows⟩ index = firstProgram rows := by
  rw [Below.program, Below.row?, if_neg (Nat.lt_irrefl _), Nat.sub_self]
  cases rows <;> rfl

theorem run_programAt_of_le (d : Dialect) (s : BracedSource) (limits : Limits) (index stop : Nat)
    (h : stop ≤ index) : (programAt (makeRow d s) s.lines index).run limits stop = pure () := by
  refine run_programAt (fun index line lines rows hle hrows => ?_) s.lines index h
  rw [makeRow, row_program]
  split_ifs
  · rw [firstProgram_below]
    exact hrows
  · exact run_rowProgram hle

end BracedSource

namespace Structured

/-- The texts of a structured program in a braced dialect. A statement is not passed over, is no
conditional, loop or further clause. It has no brace in its code, nor has a condition. The headers
of loops are those of the dialect, for loops over lists and loops with a condition. -/
def bracedRules (d : Dialect) : Rules where
  leaf t := t.isBraceless && !isSkipped d t && (BracedSource.firstCondition? t).isNone &&
    (loop? d (bracedHeader t)).isNone && !(Pattern.word "else").matchesFront t
  cond t := isCondition t && t.isBraceless
  loop header head := loop? d header.trimRight == some head && !head.countsNumbers

/-- A line without braces that does not begin with the word of a further clause is none. -/
theorem elseForm_of_isBraceless {t : Text} (hbraces : t.isBraceless)
    (helse : (Pattern.word "else").matchesFront t = false) :
    elseForm.matchesFront t = false := by
  by_contra h
  have hmatch : elseForm.matchesFront t = true := by simpa using h
  obtain ⟨f, hf⟩ := Option.isSome_iff_exists.1 hmatch
  obtain ⟨c₁, k₁, hbrace, c₂, k₂, hword, c₃, k₃, hedge, -⟩ := Pattern.takes_of_match? hf
  rcases hbrace with ⟨c₄, k₄, hbrace, -⟩ | ⟨rfl, rfl⟩
  · obtain ⟨hrest, -, -⟩ := Pattern.takes_text.1 hbrace
    have hbrace : Text.isBraceless ('\x7d' :: c₄.rest) = false := rfl
    rw [show t = '\x7d' :: c₄.rest from hrest, hbrace] at hbraces
    cases hbraces
  · have hsome : (Pattern.word "else").matchesFront t :=
      Pattern.isSome_match? ⟨c₂, k₂, hword, hedge⟩
    rw [helse] at hsome
    cases hsome

open BracedSource

/-! ## Lines -/

theorem endsIn_opened (header : Text) : (opened .braced header).endsIn '\x7b' = true := by
  simp [opened, Text.endsIn]

theorem bounds_opened {s : BracedSource} {index close : Nat}
    (h : s.braces.get? index = some close) (header : Text) :
    s.bounds index (opened .braced header) = ⟨close, close + 1⟩ := by
  rw [bounds, if_pos (endsIn_opened header), BraceMap.blockEnd, h]
  rfl

theorem firstCondition?_opened {header : Text} (h : header.head? ≠ some '\x7d') :
    firstCondition? (opened .braced header) =
      (ifForm.match? header.trimRight).bind (·.get? .cond) := by
  rw [firstCondition?, opensBody, endsIn_opened, bracedHeader_opened h]
  rfl

theorem firstCondition?_ifLine {cond : Text} (h : isCondition cond) :
    ∃ u, firstCondition? (ifLine .braced cond) = some u ∧
      Condition.read u = Condition.read cond := by
  rw [ifLine, firstCondition?_opened (by simp)]
  exact cond_of_header ifForm_cond h

theorem furtherCondition?_furtherLine {cond : Text} (h : isCondition cond) :
    ∃ u, furtherCondition? (furtherLine .braced cond) = some u ∧
      Condition.read u = Condition.read cond := by
  have hheader : furtherWord .braced ++ ' ' :: cond = "else if ".toList ++ cond := rfl
  have hhead : ("else if ".toList ++ cond).head? ≠ some '\x7d' := by simp
  rw [furtherLine, furtherCondition?, hheader, bracedHeader_opened hhead]
  exact cond_of_header elseIfForm_cond h

theorem head?_of_loopWord : ∀ w ∈ loopWords, ∀ rest : Text,
    (w.toList ++ rest).head? ≠ some '\x7d' :=
  List.forall_iff_forall_mem.1 (by simp [loopWords])

section Reading

variable {language : Language} {s : BracedSource}

/-- The program from a line on. -/
abbrev bracedProgram (d : Dialect) (s : BracedSource) : Nat → Program :=
  programAt (makeRow d s) s.lines

/-- The chain of the clauses behind the body of a line, and the line behind it. -/
abbrev tailAt (d : Dialect) (s : BracedSource) (index : Nat) (line : Text) : Chain × Nat :=
  s.tail index line (rowsAt (makeRow d s) s.lines (index + 1))

theorem bracedProgram_eq {d : Dialect} {index : Nat} {line : Text}
    (h : s.lines[index]? = some line) (hskip : isSkipped d line = false) :
    bracedProgram d s index =
      rowProgram d index line (bracedHeader line) (firstCondition? line) (s.bounds index line)
        (tailAt d s index line).1 (tailAt d s index line).2
        ⟨index + 1, rowsAt (makeRow d s) s.lines (index + 1)⟩ := by
  rw [bracedProgram, programAt_of_getElem? h, makeRow, row_program, if_neg (by simp [hskip])]

theorem ofBraced_eq (d : Dialect) (lines : List Text) :
    Program.ofBraced d lines = bracedProgram d (ofLines lines) 0 := by
  rw [Program.ofBraced, rows_eq]
  rfl

theorem bracedProgram_skipped {d : Dialect} {index : Nat} {line : Text}
    (h : s.lines[index]? = some line) (hskip : isSkipped d line) :
    bracedProgram d s index = bracedProgram d s (index + 1) := by
  rw [bracedProgram, programAt_of_getElem? h, makeRow, row_program, if_pos hskip,
    Below.program_rowsAt (Nat.le_refl _)]

theorem bracedProgram_conditional {d : Dialect} {index stop next : Nat} {line cond : Text}
    (h : s.lines[index]? = some line) (hskip : isSkipped d line = false)
    (hfirst : firstCondition? line = some cond) (hbounds : s.bounds index line = ⟨stop, next⟩)
    (hahead : index < (tailAt d s index line).2) :
    bracedProgram d s index =
      .branch index (.clause line (Condition.read cond) (bracedProgram d s (index + 1)) stop
        (tailAt d s index line).1) (bracedProgram d s (tailAt d s index line).2) := by
  rw [bracedProgram_eq h hskip, hfirst, rowProgram_some, hbounds, Below.program_rowsAt hahead,
    Below.program_rowsAt (Nat.le_refl _)]

theorem bracedProgram_of_loop {d : Dialect} {index stop next : Nat} {line : Text} {head : Loop}
    (h : s.lines[index]? = some line) (hskip : isSkipped d line = false)
    (hfirst : firstCondition? line = none) (hloop : loop? d (bracedHeader line) = some head)
    (hbounds : s.bounds index line = ⟨stop, next⟩) (hahead : index < next) :
    bracedProgram d s index =
      .loop index line head (bracedProgram d s (index + 1)) stop (bracedProgram d s next) := by
  rw [bracedProgram_eq h hskip, hfirst, rowProgram_of_loop hloop, hbounds]
  simp only [Below.program_rowsAt (Nat.le_refl _), Below.program_rowsAt (Nat.succ_le_of_lt hahead)]

theorem bracedProgram_plain {d : Dialect} {index : Nat} {line : Text}
    (h : s.lines[index]? = some line) (hskip : isSkipped d line = false)
    (hfirst : firstCondition? line = none) (hloop : loop? d (bracedHeader line) = none) :
    bracedProgram d s index =
      .plain index line (Statement.read d line) (bracedProgram d s (index + 1)) := by
  rw [bracedProgram_eq h hskip, hfirst, rowProgram_of_no_loop hloop,
    Below.program_rowsAt (Nat.le_refl _)]

theorem bracedProgram_leaf {d : Dialect} {index : Nat} {t : Text}
    (h : s.lines[index]? = some t) (ht : (bracedRules d).leaf t) :
    bracedProgram d s index =
      .plain index t (Statement.read d t) (bracedProgram d s (index + 1)) := by
  simp only [bracedRules, Bool.and_eq_true, Bool.not_eq_true', Option.isNone_iff_eq_none] at ht
  obtain ⟨⟨⟨⟨-, hskip⟩, hfirst⟩, hloop⟩, -⟩ := ht
  exact bracedProgram_plain h hskip hfirst hloop

theorem bracedProgram_branch {index close next : Nat} {cond : Text} {chain : Chain}
    (h : s.lines[index]? = some (ifLine .braced cond)) (hcond : isCondition cond)
    (hclose : s.braces.get? index = some close)
    (htail : tailAt language.dialect s index (ifLine .braced cond) = (chain, next))
    (hnext : index < next) :
    bracedProgram language.dialect s index = .branch index
      (.clause (ifLine .braced cond) (Condition.read cond)
        (bracedProgram language.dialect s (index + 1)) close chain)
      (bracedProgram language.dialect s next) := by
  have hskip : isSkipped language.dialect (ifLine .braced cond) = false :=
    isSkipped_of_openingWord language "if" (by decide) (' ' :: (cond ++ [' ', '\x7b']))
  obtain ⟨u, hu, hread⟩ := firstCondition?_ifLine hcond
  have hahead : index < (tailAt language.dialect s index (ifLine .braced cond)).2 := by
    rw [htail]
    exact hnext
  rw [bracedProgram_conditional h hskip hu (bounds_opened hclose _) hahead, htail, hread]

/-- The first line of a loop is neither passed over nor a conditional, and its header is read. -/
theorem loopLine_reads {header : Text} {head : Loop}
    (hloop : loop? language.dialect header.trimRight = some head) :
    isSkipped language.dialect (opened .braced header) = false ∧
      firstCondition? (opened .braced header) = none ∧
      loop? language.dialect (bracedHeader (opened .braced header)) = some head := by
  obtain ⟨w, hw, rest, hrest⟩ := loop_begins hloop
  obtain ⟨w', hw', rest', hrest'⟩ := header_begins hloop
  have hhead : header.head? ≠ some '\x7d' := by
    rw [hrest']
    exact head?_of_loopWord w' hw' rest'
  refine ⟨?_, ?_, by rw [bracedHeader_opened hhead, hloop]⟩
  · rw [opened, hrest', List.append_assoc]
    exact isSkipped_of_openingWord language w' (List.mem_cons_of_mem _ hw') _
  · rw [firstCondition?_opened hhead, hrest, ifForm_of_loopWord w hw]
    rfl

theorem bracedProgram_loop {index close : Nat} {header : Text} {head : Loop}
    (h : s.lines[index]? = some (loopLine .braced header))
    (hloop : loop? language.dialect header.trimRight = some head)
    (hclose : s.braces.get? index = some close) (hlt : index < close) :
    bracedProgram language.dialect s index = .loop index (loopLine .braced header) head
      (bracedProgram language.dialect s (index + 1)) close
      (bracedProgram language.dialect s (close + 1)) := by
  obtain ⟨hskip, hfirst, hheader⟩ := loopLine_reads hloop
  exact bracedProgram_of_loop h hskip hfirst hheader (bounds_opened hclose header) (by omega)

/-! ### Further clauses -/

theorem isElse_of_getElem? {index : Nat} {line : Text} (h : s.lines[index]? = some line) :
    s.isElse index = elseForm.matchesFront line := by
  rw [isElse, h]
  rfl

/-- No further clause stands where a structured program begins, if none stands behind it. -/
theorem Block.isElse_first {b : Block} {first stop : Nat}
    (h : b.Placed s.lines s.braces first stop) (hfollows : b.follows (bracedRules language.dialect))
    (hstop : s.isElse stop = false) : s.isElse first = false := by
  cases b with
  | done =>
    rw [Block.Placed] at h
    rw [h, hstop]
  | leaf text rest =>
    rw [Block.Placed] at h
    simp only [Block.follows, bracedRules, Bool.and_eq_true, Bool.not_eq_true'] at hfollows
    rw [isElse_of_getElem? h.1]
    exact elseForm_of_isBraceless hfollows.1.1.1.1.1 hfollows.1.2
  | branch cond body further rest =>
    rw [Block.Placed] at h
    obtain ⟨_, _, hline, -⟩ := h
    rw [isElse_of_getElem? hline]
    exact elseForm_of_openingWord "if" (by decide) (' ' :: (cond ++ [' ', '\x7b']))
  | loop header head body rest =>
    rw [Block.Placed] at h
    obtain ⟨_, hline, -⟩ := h
    simp only [Block.follows, bracedRules, Bool.and_eq_true, beq_iff_eq] at hfollows
    obtain ⟨w, hw, rest, hrest⟩ := header_begins hfollows.1.1.1
    rw [isElse_of_getElem? hline, loopLine, opened, hrest, List.append_assoc]
    exact elseForm_of_openingWord w (List.mem_cons_of_mem _ hw) _

/-- Behind a body the clause on the line behind its closing brace follows. -/
theorem tailAt_of_isElse {d : Dialect} {index close : Nat} {header line : Text}
    (hclose : s.braces.get? index = some close) (hlt : index < close)
    (hbrace : s.lines[close]? = some ['\x7d']) (hline : s.lines[close + 1]? = some line)
    (helse : elseForm.matchesFront line = true) (hsome : (s.braces.get? (close + 1)).isSome) :
    tailAt d s index (opened .braced header) =
      ((row d s (close + 1) line (rowsAt (makeRow d s) s.lines (close + 1 + 1))).chain,
        (row d s (close + 1) line (rowsAt (makeRow d s) s.lines (close + 1 + 1))).after) := by
  have hopener : s.elseLine? close = some (close + 1) := by
    simp only [elseLine?, isElse_of_getElem? hbrace, isElse_of_getElem? hline, helse]
    rw [if_neg (by decide), if_pos trivial, Option.filter_some, if_pos hsome]
  rw [tailAt, tail, bounds_opened hclose, hopener]
  simp only [Below.row?_rowsAt (show index + 1 ≤ close + 1 by omega), rowsAt_of_getElem? hline,
    List.head?_cons]

/-- No clause follows a body if none stands behind its closing brace. -/
theorem tailAt_of_not_isElse {d : Dialect} {index close : Nat} {header : Text}
    (hclose : s.braces.get? index = some close) (hbrace : s.lines[close]? = some ['\x7d'])
    (helse : s.isElse (close + 1) = false) :
    tailAt d s index (opened .braced header) = (.finished, close + 1) := by
  have hopener : s.elseLine? close = none := by
    simp only [elseLine?, isElse_of_getElem? hbrace, helse]
    rfl
  rw [tailAt, tail, bounds_opened hclose, hopener]

theorem row_furtherLine {d : Dialect} {index close next : Nat} {cond : Text} {chain : Chain}
    (hcond : isCondition cond) (hclose : s.braces.get? index = some close)
    (htail : tailAt d s index (furtherLine .braced cond) = (chain, next)) :
    let row := row d s index (furtherLine .braced cond) (rowsAt (makeRow d s) s.lines (index + 1))
    (row.chain, row.after) =
      (.clause (furtherLine .braced cond) (Condition.read cond) (bracedProgram d s (index + 1))
        close chain, next) := by
  obtain ⟨u, hu, hread⟩ := furtherCondition?_furtherLine hcond
  have hbounds : s.bounds index (furtherLine .braced cond) = ⟨close, close + 1⟩ :=
    bounds_opened hclose _
  rw [tailAt] at htail
  simp only [row_chain, row_after, hu, htail, hread, hbounds, Below.program_rowsAt (Nat.le_refl _)]

theorem row_elseLine {d : Dialect} {index close : Nat}
    (hclose : s.braces.get? index = some close) :
    let row := row d s index (elseLine .braced) (rowsAt (makeRow d s) s.lines (index + 1))
    (row.chain, row.after) = (.otherwise (bracedProgram d s (index + 1)) close, close + 1) := by
  have hnone : furtherCondition? (elseLine .braced) = none := rfl
  have hbounds : s.bounds index (elseLine .braced) = ⟨close, close + 1⟩ := bounds_opened hclose _
  simp only [row_chain, row_after, hnone, hbounds, Below.program_rowsAt (Nat.le_refl _)]

mutual

/-- A structured program in its place is read as it is, if no further clause stands behind it. -/
theorem Block.readAs_of_placed (hlayout : language.dialect.layout = .braced) :
    ∀ {b : Block} {first stop : Nat}, b.Placed s.lines s.braces first stop →
    b.follows (bracedRules language.dialect) → s.isElse stop = false →
    b.ReadAs language.dialect (bracedProgram language.dialect s) first stop
  | .done, first, stop, h, _, _ => by
    rw [Block.Placed] at h
    rw [Block.ReadAs]
    exact h
  | .leaf text rest, first, stop, h, hfollows, hstop => by
    rw [Block.Placed] at h
    rw [Block.follows, Bool.and_eq_true] at hfollows
    rw [Block.ReadAs]
    exact ⟨bracedProgram_leaf h.1 hfollows.1,
      Block.readAs_of_placed hlayout h.2 hfollows.2 hstop⟩
  | .branch cond body further rest, first, stop, h, hfollows, hstop => by
    rw [Block.Placed] at h
    obtain ⟨close, next, hline, hclose, hbody, hbrace, hfurther, hrest⟩ := h
    simp only [Block.follows, Bool.and_eq_true] at hfollows
    obtain ⟨⟨⟨hcond, hfollowsBody⟩, hfollowsFurther⟩, hfollowsRest⟩ := hfollows
    have hreadBody := Block.readAs_of_placed hlayout hbody hfollowsBody (isElse_of_getElem? hbrace)
    have hreadRest := Block.readAs_of_placed hlayout hrest hfollowsRest hstop
    obtain ⟨chain, hlt, htail, hchain⟩ := Clauses.tailAt_of_placed hlayout ("if ".toList ++ cond)
      hclose hreadBody.le hbrace hfurther hfollowsFurther
      (Block.isElse_first hrest hfollowsRest hstop)
    have hnext : first < next := Nat.lt_trans hreadBody.le hlt
    rw [Block.ReadAs, hlayout]
    exact ⟨close, next, chain, hnext,
      bracedProgram_branch hline (Bool.and_eq_true_iff.1 hcond).1 hclose htail hnext,
      hreadBody, hchain, hreadRest⟩
  | .loop header head body rest, first, stop, h, hfollows, hstop => by
    rw [Block.Placed] at h
    obtain ⟨close, hline, hclose, hbody, hbrace, hrest⟩ := h
    simp only [Block.follows, bracedRules, Bool.and_eq_true, beq_iff_eq] at hfollows
    obtain ⟨⟨⟨hloop, -⟩, hfollowsBody⟩, hfollowsRest⟩ := hfollows
    have hreadBody := Block.readAs_of_placed hlayout hbody hfollowsBody (isElse_of_getElem? hbrace)
    rw [Block.ReadAs, hlayout]
    exact ⟨close, close + 1, Nat.lt_succ_of_lt hreadBody.le,
      bracedProgram_loop hline hloop hclose hreadBody.le, hreadBody,
      Block.readAs_of_placed hlayout hrest hfollowsRest hstop⟩

/-- Further clauses in their place are found behind the body before them. -/
theorem Clauses.tailAt_of_placed (hlayout : language.dialect.layout = .braced) :
    ∀ {c : Clauses} {index close next : Nat} (header : Text),
    s.braces.get? index = some close → index < close → s.lines[close]? = some ['\x7d'] →
    c.Placed s.lines s.braces (close + 1) next → c.follows (bracedRules language.dialect) →
    s.isElse next = false →
    ∃ chain, close < next ∧
      tailAt language.dialect s index (opened .braced header) = (chain, next) ∧
      c.ReadAs language.dialect (bracedProgram language.dialect s) chain
  | .none, index, close, next, header, hclose, hlt, hbrace, h, _, hnext => by
    rw [Clauses.Placed] at h
    subst h
    refine ⟨.finished, Nat.lt_succ_self _, tailAt_of_not_isElse hclose hbrace hnext, ?_⟩
    rw [Clauses.ReadAs]
  | .clause cond body further, index, close, next, header, hclose, hlt, hbrace, h, hfollows,
      hnext => by
    rw [Clauses.Placed] at h
    obtain ⟨close', hline, hclose', hbody, hbrace', hfurther⟩ := h
    simp only [Clauses.follows, Bool.and_eq_true] at hfollows
    obtain ⟨⟨hcond, hfollowsBody⟩, hfollowsFurther⟩ := hfollows
    have hreadBody := Block.readAs_of_placed hlayout hbody hfollowsBody (isElse_of_getElem? hbrace')
    obtain ⟨chain, hlt', htail, hchain⟩ := Clauses.tailAt_of_placed hlayout
      (furtherWord .braced ++ ' ' :: cond) hclose' hreadBody.le hbrace' hfurther hfollowsFurther
      hnext
    refine ⟨_, Nat.lt_trans (Nat.lt_of_succ_lt hreadBody.le) hlt',
      (tailAt_of_isElse hclose hlt hbrace hline rfl (by rw [hclose']; rfl)).trans
        (row_furtherLine (Bool.and_eq_true_iff.1 hcond).1 hclose' htail), ?_⟩
    rw [Clauses.ReadAs, hlayout]
    exact ⟨_, _, _, rfl, hreadBody, hchain⟩
  | .otherwise body, index, close, next, header, hclose, hlt, hbrace, h, hfollows, hnext => by
    rw [Clauses.Placed] at h
    obtain ⟨close', hline, hclose', hbody, hbrace', rfl⟩ := h
    rw [Clauses.follows] at hfollows
    have hreadBody := Block.readAs_of_placed hlayout hbody hfollows (isElse_of_getElem? hbrace')
    refine ⟨_, Nat.lt_trans (Nat.lt_of_succ_lt hreadBody.le) (Nat.lt_succ_self _),
      (tailAt_of_isElse hclose hlt hbrace hline rfl (by rw [hclose']; rfl)).trans
        (row_elseLine hclose'), ?_⟩
    rw [Clauses.ReadAs]
    exact ⟨_, _, rfl, hreadBody⟩

end

end Reading

/-! ## Traces -/

mutual

/-- Without loops over numbers no loop is cut before its last value. -/
theorem Block.run_visited {d d' : Dialect} {limits : Limits} :
    ∀ {b : Block}, b.follows (bracedRules d') →
      b.run d limits (·.visited limits.entries) = b.run d limits Sweep.values
  | .done, _ => rfl
  | .leaf text rest, h => by
    rw [Block.follows, Bool.and_eq_true] at h
    rw [Block.run, Block.run, Block.run_visited h.2]
  | .branch cond body further rest, h => by
    simp only [Block.follows, Bool.and_eq_true] at h
    rw [Block.run, Block.run, Block.run_visited h.1.1.2, Clauses.run_visited h.1.2,
      Block.run_visited h.2]
  | .loop header head body rest, h => by
    simp only [Block.follows, bracedRules, Bool.and_eq_true, Bool.not_eq_true'] at h
    rw [Block.run, Block.run, Block.run_visited h.1.2, Block.run_visited h.2]
    refine congrArg (· >>= _) ?_
    cases head with
    | range | span => cases h.1.1.2
    | guarded => rfl
    | each item items =>
      -- the values of a list are not cut
      refine Run.ext fun r => ?_
      simp only [runLoop, Loop.sweep]
      rw [Run.exec_bind_ok (Run.exec_store r), Run.exec_bind_ok (Run.exec_store r)]
      rcases r.store.get? items with _ | _ | _ | _ | _ | values <;> rfl

theorem Clauses.run_visited {d d' : Dialect} {limits : Limits} :
    ∀ {c : Clauses}, c.follows (bracedRules d') →
      c.run d limits (·.visited limits.entries) = c.run d limits Sweep.values
  | .none, _ => rfl
  | .clause cond body next, h => by
    simp only [Clauses.follows, Bool.and_eq_true] at h
    rw [Clauses.run, Clauses.run, Block.run_visited h.1.2, Clauses.run_visited h.2]
  | .otherwise body, h => by
    rw [Clauses.follows] at h
    rw [Clauses.run, Clauses.run, Block.run_visited h]

end

/-- Every quotation that is opened in a condition or a header is closed in it, and the braces in the
code of a header match. -/
def closedHeaders : Rules where
  leaf _ := true
  cond t := t.closesQuotes
  loop header _ := header.closesBraces && header.closesQuotes

theorem Block.placed_ofLines {d : Dialect} {b : Block} (hfollows : b.follows (bracedRules d))
    (hclosed : b.follows closedHeaders) :
    b.Placed b.bracedLines (BraceMap.ofLines b.bracedLines) 0 b.bracedLines.length := by
  have hscan : b.follows scanRules := by
    refine Block.follows_of_and (fun t h _ => ?_) (fun t h h' => ?_) (fun t head h h' => ?_)
      hfollows hclosed
    · simp only [bracedRules, Bool.and_eq_true] at h
      exact h.1.1.1.1
    · simp only [bracedRules, Bool.and_eq_true] at h
      exact Bool.and_eq_true_iff.2 ⟨h.2, h'⟩
    · exact h'
  have hplaces := b.places_bracedLines hscan (.all _) (Nat.zero_add _) ⟨[], []⟩
  exact hplaces.linked _ fun _ _ _ => rfl

/-- In a braced dialect a snippet with the lines of a structured program has the trace of that
program. -/
theorem trace_eq_of_bracedLines {language : Language} (hlayout : language.dialect.layout = .braced)
    (limits : Limits) {source : Text} {b : Block}
    (hfollows : b.follows (bracedRules language.dialect))
    (hclosed : b.follows closedHeaders)
    (hlines : bracedLines language.dialect source = b.bracedLines) :
    language.dialect.trace limits source =
      (b.run language.dialect limits Sweep.values).outcome := by
  have hplaced := Block.placed_ofLines hfollows hclosed
  have hend : (BracedSource.ofLines b.bracedLines).isElse b.bracedLines.length = false := by
    simp [isElse, BracedSource.ofLines]
  have hread := Block.readAs_of_placed hlayout hplaced hfollows hend
  have hprogram : Program.read language.dialect source =
      (bracedProgram language.dialect (.ofLines b.bracedLines) 0, b.bracedLines.length) := by
    simp only [Program.read, hlayout, hlines, Program.ofBraced, rows_eq]
    rfl
  rw [Dialect.trace, hprogram, ← Block.run_visited hfollows]
  exact Block.outcome_of_readAs (run_programAt_of_le _ _ _) hread

/-- The snippet of a structured program. -/
def Block.bracedSnippet (b : Block) : Text := Text.joined ['\n'] b.bracedLines

/-- Nested loops and conditionals with all kinds of clauses. -/
def sumBlock : Block :=
  .leaf "let xs = [3, 1, 2];".toList <|
  .leaf "let sum = 0;".toList <|
  .ofHeader .javascript "for (const x of xs)".toList
    (.branch "(x > 2)".toList
      (.leaf "console.log(\"big \x7b\");".toList .done)
      (.clause "(x > 1)".toList
        (.ofHeader .javascript "for (let i = 0; i < x; i++)".toList
          (.leaf "sum += i;".toList .done) .done)
        (.otherwise
          (.ofHeader .javascript "while (sum < 4)".toList (.leaf "sum += 2;".toList .done) .done)))
      .done)
    (.leaf "console.log(sum);".toList .done)

/-- Its trace has two entries before the outer loop, three, seven and seven in its rounds, and one
behind it. -/
theorem trace_eq_of_bracedLines_nested :
    let d := Language.dialect .javascript
    d.layout = .braced ∧ sumBlock.follows (bracedRules d) ∧ sumBlock.follows closedHeaders ∧
    bracedLines d sumBlock.bracedSnippet = sumBlock.bracedLines ∧
    d.trace .usual sumBlock.bracedSnippet = (sumBlock.run d .usual Sweep.values).outcome ∧
    (sumBlock.run d .usual Sweep.values).outcome.length? = some 20 := by
  have hfollows : sumBlock.follows (bracedRules (Language.dialect .javascript)) := by
    decide +kernel
  have hclosed : sumBlock.follows closedHeaders := by decide +kernel
  have hlines : bracedLines (Language.dialect .javascript) sumBlock.bracedSnippet =
      sumBlock.bracedLines := by
    decide +kernel
  exact ⟨rfl, hfollows, hclosed, hlines,
    trace_eq_of_bracedLines rfl .usual hfollows hclosed hlines, by decide +kernel⟩

/-- A conditional whose condition does not close a quotation. -/
def openQuotationBlock : Block :=
  .branch "(x > \"a)".toList (.leaf "y = 1;".toList .done) .none (.leaf "z = 2;".toList .done)

/-- A conditional around a loop whose header does not close a brace. -/
def openBraceBlock : Block :=
  .branch "(0 > 1)".toList
    (.ofHeader .javascript "for (let i = \x7b; i < 1; i++)".toList (.leaf "x = 1;".toList .done)
      .done)
    .none (.leaf "y = 2;".toList .done)

/-- In an open quotation the brace at the end of a header is no code, and an open brace in a header
is closed in place of another one. In both cases the body of the conditional has no end, and what
stands behind it is passed over with it. -/
theorem trace_of_open_header :
    (openQuotationBlock.follows (bracedRules .c) ∧
      bracedLines .c openQuotationBlock.bracedSnippet = openQuotationBlock.bracedLines ∧
      (Dialect.c.trace .usual openQuotationBlock.bracedSnippet).length? = some 1 ∧
      (openQuotationBlock.run .c .usual Sweep.values).outcome.length? = some 2) ∧
    openBraceBlock.follows (bracedRules .javascript) ∧
      bracedLines .javascript openBraceBlock.bracedSnippet = openBraceBlock.bracedLines ∧
      (Dialect.javascript.trace .usual openBraceBlock.bracedSnippet).length? = some 1 ∧
      (openBraceBlock.run .javascript .usual Sweep.values).outcome.length? = some 2 := by
  decide +kernel

end Structured

end StepTrace
