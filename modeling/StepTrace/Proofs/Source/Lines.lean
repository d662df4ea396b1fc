import Mathlib.Data.List.Infix

/-!
# Lines at an index

A part of a list of lines is found again by the index of its first line. If several parts stand one
after the other, each stands where the one before it ends.
-/

namespace StepTrace

variable {α : Type}

/-- What stands behind a part is found behind its length. -/
theorem drop_add_length {lines a b : List α} {index : Nat} (h : lines.drop index = a ++ b) :
    lines.drop (index + a.length) = b := by
  rw [← List.drop_drop, h, List.drop_left]

/-- Where the lines end that are written as a line, those below it and those behind. -/
theorem add_length_cons_append (first : Nat) (line : α) (inner behind : List α) :
    first + (line :: (inner ++ behind)).length = first + 1 + inner.length + behind.length := by
  simp only [List.length_cons, List.length_append]
  omega

/-- The lines of `part` stand in `lines` from an index on. -/
def StandsAt (lines : List α) (index : Nat) (part : List α) : Prop := part <+: lines.drop index

namespace StandsAt

variable {lines a b : List α} {index : Nat} {line : α}

theorem all (lines : List α) : StandsAt lines 0 lines := List.prefix_refl lines

theorem left (h : StandsAt lines index (a ++ b)) : StandsAt lines index a :=
  (List.prefix_append a b).trans h

theorem right (h : StandsAt lines index (a ++ b)) : StandsAt lines (index + a.length) b := by
  obtain ⟨rest, hrest⟩ := h
  rw [List.append_assoc] at hrest
  exact ⟨rest, (drop_add_length hrest.symm).symm⟩

theorem head (h : StandsAt lines index (line :: b)) : lines[index]? = some line := by
  obtain ⟨rest, hrest⟩ := h
  rw [← List.head?_drop, ← hrest]
  rfl

theorem tail (h : StandsAt lines index (line :: b)) : StandsAt lines (index + 1) b :=
  right (a := [line]) h

end StandsAt

end StepTrace
