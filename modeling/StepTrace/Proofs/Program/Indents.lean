import Mathlib.Data.List.Forall2
import Mathlib.Order.Monotone.Basic
import StepTrace.Proofs.Run.Localized
import StepTrace.Proofs.Structured.Indented

/-!
# Indents up to their order

A run of indented lines looks at an indent only to compare it with the indent of an earlier line: a
line below a header belongs to its block if it is deeper, and a clause behind the block belongs to
its conditional if it is level with it. So two rows of lines are run in the same way if they have
the same texts and their indents stand in the same order (`SameShape`). They are even read as the
same program (`SameShape.ofIndented`), however irregular the indents are, and two snippets with such
lines have the same trace (`SameShape.trace`).

A strictly increasing change of the indents keeps their order, so that nothing depends on the width
of an indent (`Dialect.runLines_reindented`).
-/

namespace StepTrace

/-! ## Running lines -/

namespace Dialect

/-- The outcome of running the lines of a snippet. -/
def runLines (d : Dialect) (limits : Limits) (lines : List IndentedLine) : Outcome :=
  (Program.ofIndented d lines).outcome limits lines.length

/-- The outcome of running the lines of a snippet, with its notes in a language. -/
def runLinesIn (d : Dialect) (l : Locale) (limits : Limits) (lines : List IndentedLine) :
    LocalOutcome :=
  (Program.ofIndented d lines).outcomeIn l limits lines.length

theorem trace_eq_runLines {d : Dialect} (h : d.layout = .indented) (limits : Limits)
    (source : Text) : d.trace limits source = d.runLines limits (indentedLines d source) := by
  simp only [trace, Program.read, h, runLines]

theorem traceIn_eq_runLinesIn {d : Dialect} (h : d.layout = .indented) (l : Locale)
    (limits : Limits) (source : Text) :
    d.traceIn l limits source = d.runLinesIn l limits (indentedLines d source) := by
  simp only [traceIn, Program.read, h, runLinesIn]

end Dialect

/-! ## Lines with the same shape -/

/-- Two lines below two headers have the same text, and they are both deeper than their headers or
both level with them, or none is. -/
structure IndentedLine.Matches (header header' line line' : IndentedLine) : Prop where
  text : line.text = line'.text
  deeper : header.indent < line.indent ↔ header'.indent < line'.indent
  level : line.indent = header.indent ↔ line'.indent = header'.indent

/-- Two rows of lines have the same texts, and their indents stand in the same order. -/
inductive SameShape : List IndentedLine → List IndentedLine → Prop
  | nil : SameShape [] []
  | cons {line line' lines lines'} (htext : line.text = line'.text)
      (hbelow : List.Forall₂ (line.Matches line') lines lines') (hrest : SameShape lines lines') :
      SameShape (line :: lines) (line' :: lines')

section Headers

variable {header header' : IndentedLine} {lines lines' : List IndentedLine}

/-- The blocks of both headers have as many lines. -/
theorem bodyLength_of_matches (h : List.Forall₂ (header.Matches header') lines lines') :
    bodyLength header.indent lines = bodyLength header'.indent lines' := by
  induction h with
  | nil => rfl
  | @cons line line' lines lines' hline _ ih =>
    unfold bodyLength at ih ⊢
    by_cases hdeep : header.indent < line.indent
    · rw [List.takeWhile_cons_of_pos (by simpa using hdeep),
        List.takeWhile_cons_of_pos (by simpa using hline.deeper.1 hdeep), List.length_cons,
        List.length_cons, ih]
    · rw [List.takeWhile_cons_of_neg (by simpa using hdeep),
        List.takeWhile_cons_of_neg (by simpa using fun h => hdeep (hline.deeper.2 h))]

/-- A clause stands in front of both rows or of none. -/
theorem isClause_of_matches (h : List.Forall₂ (header.Matches header') lines lines')
    (beginning : Text) :
    isClause beginning header.indent lines = isClause beginning header'.indent lines' := by
  cases h with
  | nil => rfl
  | @cons line line' _ _ hline _ =>
    have hlevel : ((line.indent : Int) == header.indent) =
        ((line'.indent : Int) == header'.indent) :=
      Bool.eq_iff_iff.2 (by simpa [Int.ofNat_inj] using hline.level)
    rw [isClause, isClause, hline.text, hlevel]

/-- The row of a line depends on the lines below through its block and the clause behind. -/
theorem indentedRow_of_matches (d : Dialect) (index : Nat) (htext : header.text = header'.text)
    (h : List.Forall₂ (header.Matches header') lines lines') (rows : List Row) :
    indentedRow d index header lines rows = indentedRow d index header' lines' rows := by
  have hlength := bodyLength_of_matches h
  have hbehind := isClause_of_matches (List.forall₂_drop (bodyLength header.indent lines) h)
  have hbounds : indentedBounds index header.indent lines =
      indentedBounds index header'.indent lines' := by
    rw [indentedBounds, indentedBounds, hlength]
  simp only [indentedRow, hbehind, hbounds, htext]
  rw [hlength]

end Headers

namespace SameShape

variable {lines lines' : List IndentedLine}

theorem length_eq (h : SameShape lines lines') : lines.length = lines'.length := by
  induction h with
  | nil => rfl
  | cons _ _ _ ih => rw [List.length_cons, List.length_cons, ih]

/-- Lines with the same shape have the same rows. -/
theorem indentedRows (h : SameShape lines lines') (d : Dialect) (index : Nat) :
    StepTrace.indentedRows d index lines = StepTrace.indentedRows d index lines' := by
  induction h generalizing index with
  | nil => rfl
  | cons htext hbelow _ ih =>
    rw [StepTrace.indentedRows, StepTrace.indentedRows, ih (index + 1),
      indentedRow_of_matches d index htext hbelow]

/-- Lines with the same shape are read as the same program. -/
theorem ofIndented (h : SameShape lines lines') (d : Dialect) :
    Program.ofIndented d lines = Program.ofIndented d lines' := by
  rw [Program.ofIndented, Program.ofIndented, h.indentedRows]

theorem runLines (h : SameShape lines lines') (d : Dialect) (limits : Limits) :
    d.runLines limits lines = d.runLines limits lines' := by
  rw [Dialect.runLines, Dialect.runLines, h.ofIndented, h.length_eq]

theorem runLinesIn (h : SameShape lines lines') (d : Dialect) (l : Locale) (limits : Limits) :
    d.runLinesIn l limits lines = d.runLinesIn l limits lines' := by
  rw [Dialect.runLinesIn, Dialect.runLinesIn, h.ofIndented, h.length_eq]

/-- In an indented dialect two snippets whose lines have the same shape have the same trace. -/
theorem trace (h : SameShape lines lines') {d : Dialect} (hlayout : d.layout = .indented)
    {source source' : Text} (hlines : indentedLines d source = lines)
    (hlines' : indentedLines d source' = lines') (limits : Limits) :
    d.trace limits source = d.trace limits source' := by
  rw [Dialect.trace_eq_runLines hlayout, Dialect.trace_eq_runLines hlayout, hlines, hlines',
    h.runLines]

end SameShape

/-! ## Changing the indents -/

/-- The line with its indent changed. -/
def IndentedLine.reindent (f : Nat → Nat) (line : IndentedLine) : IndentedLine :=
  { line with indent := f line.indent }

/-- The indents of some lines. -/
def indents (lines : List IndentedLine) : Set Nat := {n | ∃ line ∈ lines, line.indent = n}

theorem IndentedLine.matches_reindent {f : Nat → Nat} {s : Set Nat} (hf : StrictMonoOn f s)
    {header line : IndentedLine} (hheader : header.indent ∈ s) (hline : line.indent ∈ s) :
    header.Matches (header.reindent f) line (line.reindent f) where
  text := rfl
  deeper := (hf.lt_iff_lt hheader hline).symm
  level := (hf.injOn.eq_iff hline hheader).symm

theorem sameShape_reindent {f : Nat → Nat} {s : Set Nat} (hf : StrictMonoOn f s) :
    ∀ {lines : List IndentedLine}, (∀ line ∈ lines, line.indent ∈ s) →
      SameShape lines (lines.map (·.reindent f))
  | [], _ => .nil
  | line :: lines, h => by
    obtain ⟨hline, hlines⟩ := List.forall_mem_cons.1 h
    refine .cons rfl ?_ (sameShape_reindent hf hlines)
    exact List.forall₂_map_right_iff.2 (List.forall₂_same.2 fun below hbelow =>
      IndentedLine.matches_reindent hf hline (hlines below hbelow))

/-- If the indents of some lines are changed by a function that is strictly increasing on them, the
lines have the same outcome, be it a trace or a fault, and the same one with its notes in any
language. -/
theorem Dialect.runLines_reindented (d : Dialect) {f : Nat → Nat} {lines : List IndentedLine}
    (hf : StrictMonoOn f (indents lines)) (limits : Limits) :
    d.runLines limits (lines.map (·.reindent f)) = d.runLines limits lines ∧
    ∀ code, d.runLinesIn (.ofCode code) limits (lines.map (·.reindent f)) =
      d.runLinesIn (.ofCode code) limits lines := by
  have hshape := sameShape_reindent hf fun line hline => ⟨line, hline, rfl⟩
  exact ⟨(hshape.runLines d limits).symm, fun code => (hshape.runLinesIn d _ limits).symm⟩

/-- A loop whose body falls back to an indent between those of its header and its first line. -/
def raggedLoop : Text :=
  " for i in range(3):\n      if i > 1:\n         x = 1\n      elif i > 0:\n".toList ++
    "       x = 2\n      else:\n        x = 3\n   y = x\nz = y".toList

/-- With its indents spread out from the fifth column on it has the same trace. -/
theorem Dialect.runLines_reindented_ragged :
    let f : Nat → Nat := fun n => if n < 5 then n else 4 * n
    let lines := indentedLines .python raggedLoop
    let wide := lines.map (·.reindent f)
    StrictMonoOn f (indents lines) ∧
    lines.map (·.indent) = [1, 6, 9, 6, 7, 6, 8, 3, 0] ∧
    wide.map (·.indent) = [1, 24, 36, 24, 28, 24, 32, 3, 0] ∧
    Dialect.python.runLines .usual wide = Dialect.python.trace .usual raggedLoop ∧
    (∀ code, Dialect.python.runLinesIn (.ofCode code) .usual wide =
      Dialect.python.traceIn (.ofCode code) .usual raggedLoop) ∧
    (Dialect.python.trace .usual raggedLoop).length? = some 15 := by
  intro f lines wide
  have hf : StrictMonoOn f (indents lines) := by
    intro m _ n _ hmn
    dsimp only [f]
    split_ifs <;> omega
  obtain ⟨hsame, hlocal⟩ := Dialect.runLines_reindented .python hf .usual
  refine ⟨hf, by decide +kernel, by decide +kernel, ?_, fun code => ?_, by decide +kernel⟩
  · exact hsame.trans (trace_eq_runLines rfl _ _).symm
  · exact (hlocal code).trans (traceIn_eq_runLinesIn rfl _ _ _).symm

end StepTrace
