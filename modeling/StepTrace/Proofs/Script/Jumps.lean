import StepTrace.Proofs.Matching
import StepTrace.Script.Basic

/-!
# Which lines of a script belong together

The jumps of a script are found in one pass with a stack for conditionals and one for loops. Each
stack sees only the lines of its own kind, so the pass is two passes that do not disturb each other
(`JumpScan.loopPart_lines`, `JumpScan.ifPart_lines`), and each is matching by a stack. A loop is
linked with the first end line up to which more loops end than begin behind it, wherever
conditionals begin and end, and the other way round (`Jumps.links_ofLines`).
-/

namespace StepTrace.Script

/-! ## Lines that begin and end something -/

/-- Trimmed lines that begin with `opening` open something, and the line `closing` closes it. -/
def lineBrackets (opening closing : Text) (h : closing.startsWith opening = false) :
    Brackets Text where
  opens line := line.trim.startsWith opening
  closes line := line.trim == closing
  apart line hopens := by
    rw [beq_eq_false_iff_ne]
    intro hcloses
    rw [hcloses, h] at hopens
    cases hopens

/-- The lines at which conditionals begin and end. -/
def ifLines : Brackets Text := lineBrackets "if ".toList "endif".toList rfl

/-- The lines at which loops begin and end. -/
def loopLines : Brackets Text := lineBrackets "loop ".toList "end".toList rfl

theorem head?_of_startsWith {t front : Text} {c : Char} (hfront : front.head? = some c)
    (h : t.startsWith front = true) : t.head? = some c := by
  obtain ⟨rest, rfl⟩ := List.isPrefixOf_iff_prefix.1 h
  rw [List.head?_append, hfront]
  rfl

/-- A line of one kind is no line of the other. -/
theorem not_loopLine_of_ifLine {line : Text}
    (h : ifLines.opens line = true ∨ ifLines.closes line = true) :
    loopLines.opens line = false ∧ loopLines.closes line = false := by
  rcases h with h | h
  · have hhead : line.trim.head? = some 'i' := head?_of_startsWith rfl h
    refine ⟨Bool.eq_false_iff.2 fun hloop => ?_, beq_eq_false_iff_ne.2 fun hend => ?_⟩
    · have hhead' : line.trim.head? = some 'l' := head?_of_startsWith rfl hloop
      rw [hhead] at hhead'
      exact absurd hhead' (by decide)
    · rw [hend] at hhead
      exact absurd hhead (by decide)
  · have hline : line.trim = "endif".toList := beq_iff_eq.1 h
    simp only [loopLines, lineBrackets, hline]
    exact ⟨by decide, by decide⟩

/-! ## Two passes in one -/

namespace JumpScan

variable (s : JumpScan) (index : Nat) (line : Text) (lines : List Text)

/-- What the pass knows of conditionals. -/
def ifPart : Brackets.Matching := ⟨s.openIfs, s.jumps.ifs⟩

/-- What the pass knows of loops. -/
def loopPart : Brackets.Matching := ⟨s.openLoops, s.jumps.loops⟩

theorem ifPart_step : (s.step index line).ifPart = ifLines.step s.ifPart (line, index) := by
  have hopens : ifLines.opens line = true ↔ line.trim.startsWith "if ".toList = true := Iff.rfl
  have hcloses : ifLines.closes line = true ↔ line.trim = "endif".toList := beq_iff_eq
  simp only [JumpScan.step, Brackets.step, hopens, hcloses]
  split_ifs
  · rfl
  · obtain ⟨openIfs, openLoops, jumps⟩ := s
    cases openIfs <;> rfl
  · rfl
  · cases s.openLoops <;> rfl
  · rfl

theorem loopPart_step : (s.step index line).loopPart = loopLines.step s.loopPart (line, index) := by
  have hopens : loopLines.opens line = true ↔ line.trim.startsWith "loop ".toList = true := Iff.rfl
  have hcloses : loopLines.closes line = true ↔ line.trim = "end".toList := beq_iff_eq
  by_cases hif : ifLines.opens line = true ∨ ifLines.closes line = true
  · -- A line of a conditional changes nothing here.
    obtain ⟨hnotOpens, hnotCloses⟩ := not_loopLine_of_ifLine hif
    have hstay : loopLines.step s.loopPart (line, index) = s.loopPart := by
      simp [Brackets.step, hnotOpens, hnotCloses]
    rw [hstay, JumpScan.step]
    rcases hif with hif | hif
    · rw [if_pos (show line.trim.startsWith "if ".toList = true from hif)]
      rfl
    · have hline : line.trim = "endif".toList := beq_iff_eq.1 hif
      rw [if_neg (by rw [hline]; decide), if_pos hline]
      cases s.openIfs <;> rfl
  · rw [not_or] at hif
    have hnotOpens : ¬line.trim.startsWith "if ".toList = true := hif.1
    have hnotCloses : line.trim ≠ "endif".toList := fun hline => hif.2 (beq_iff_eq.2 hline)
    simp only [JumpScan.step, Brackets.step, hopens, hcloses]
    rw [if_neg hnotOpens, if_neg hnotCloses]
    split_ifs
    · rfl
    · obtain ⟨openIfs, openLoops, jumps⟩ := s
      cases openLoops <;> rfl
    · rfl

theorem ifPart_lines :
    (s.lines index lines).ifPart = (lines.zipIdx index).foldl ifLines.step s.ifPart := by
  induction lines generalizing s index with
  | nil => rfl
  | cons line lines ih =>
    rw [JumpScan.lines, ih, ifPart_step]
    rfl

theorem loopPart_lines :
    (s.lines index lines).loopPart = (lines.zipIdx index).foldl loopLines.step s.loopPart := by
  induction lines generalizing s index with
  | nil => rfl
  | cons line lines ih =>
    rw [JumpScan.lines, ih, loopPart_step]
    rfl

end JumpScan

namespace Jumps

variable {lines : List Text} {i j : Nat}

theorem ifEnd?_ofLines : (ofLines lines).ifEnd? i = some j ↔ ifLines.Mates lines i j := by
  have hifs : (ofLines lines).ifs = (ifLines.scan lines).pairs :=
    congrArg Brackets.Matching.pairs (JumpScan.ifPart_lines ⟨[], [], ⟨[], []⟩⟩ 0 lines)
  rw [ifEnd?, hifs, Brackets.lookup_pairs_scan]

theorem loops_ofLines (lines : List Text) :
    (ofLines lines).loops = (loopLines.scan lines).pairs :=
  congrArg Brackets.Matching.pairs (JumpScan.loopPart_lines ⟨[], [], ⟨[], []⟩⟩ 0 lines)

theorem loopEnd?_ofLines : (ofLines lines).loopEnd? i = some j ↔ loopLines.Mates lines i j := by
  rw [loopEnd?, loops_ofLines, Brackets.lookup_pairs_scan]

theorem loopStart?_ofLines : (ofLines lines).loopStart? j = some i ↔ loopLines.Mates lines i j := by
  rw [loopStart?, loops_ofLines, Brackets.find?_pairs_scan]

/-- Loops are linked with their ends and back, and conditionals with their ends, each by the lines
of their own kind only. So no line ends two of a kind, and two of a kind do not cross. -/
theorem links_ofLines (lines : List Text) :
    (∀ i j, (ofLines lines).loopEnd? i = some j ↔ loopLines.Mates lines i j) ∧
    (∀ i j, (ofLines lines).loopStart? j = some i ↔ (ofLines lines).loopEnd? i = some j) ∧
    (∀ i j, (ofLines lines).ifEnd? i = some j ↔ ifLines.Mates lines i j) ∧
    Brackets.Laminar (ofLines lines).loopEnd? ∧ Brackets.Laminar (ofLines lines).ifEnd? :=
  ⟨fun _ _ => loopEnd?_ofLines, fun _ _ => loopStart?_ofLines.trans loopEnd?_ofLines.symm,
    fun _ _ => ifEnd?_ofLines, Brackets.laminar_of_mates fun _ _ => loopEnd?_ofLines,
    Brackets.laminar_of_mates fun _ _ => ifEnd?_ofLines⟩

/-- A loop and a conditional may cross, and an end with nothing open belongs to nothing. -/
example :
    let jumps := ofLines (["endif", "loop 2", "if a > b", "end", "endif", "end"].map String.toList)
    jumps.loopEnd? 1 = some 3 ∧ jumps.ifEnd? 2 = some 4 ∧ jumps.loopStart? 5 = none := by
  decide

end Jumps

end StepTrace.Script
