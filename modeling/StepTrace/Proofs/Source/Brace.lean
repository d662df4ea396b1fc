import Mathlib.Tactic.Common
import StepTrace.Source.Brace

/-!
# Where braces close

A brace is closed on the line that opens it or on a later one, and every line in the map is a line
of the snippet (`BraceMap.get?_ofLines`). A line may well close itself: it is enough that the brace
it closed last was opened on it.
-/

namespace StepTrace

/-- The open and the closed braces of a scan are on lines before `count`, and none is closed before
it is opened. -/
structure BraceScan.Within (count : Nat) (s : BraceScan) : Prop where
  opened : ∀ line ∈ s.stack, line < count
  closed : ∀ p ∈ s.closed, p.1 ≤ p.2 ∧ p.2 < count

namespace BraceScan.Within

theorem mono {m n : Nat} {s : BraceScan} (h : s.Within m) (hmn : m ≤ n) : s.Within n where
  opened line hline := Nat.lt_of_lt_of_le (h.opened line hline) hmn
  closed p hp := ⟨(h.closed p hp).1, Nat.lt_of_lt_of_le (h.closed p hp).2 hmn⟩

theorem step {index : Nat} {s : BraceScan} (h : s.Within (index + 1)) (c : Char) :
    (s.step index c).Within (index + 1) := by
  unfold BraceScan.step
  split_ifs
  · refine ⟨fun line hline => ?_, h.closed⟩
    rcases List.mem_cons.1 hline with rfl | hline
    · exact Nat.lt_succ_self _
    · exact h.opened line hline
  · rcases hstack : s.stack with _ | ⟨line, stack⟩
    · exact h
    · have hopened : ∀ l ∈ line :: stack, l < index + 1 := hstack ▸ h.opened
      refine ⟨fun l hl => hopened l (by simp [hl]), fun p hp => ?_⟩
      rcases List.mem_cons.1 hp with rfl | hp
      · exact ⟨Nat.le_of_lt_succ (hopened line (by simp)), Nat.lt_succ_self _⟩
      · exact h.closed p hp
  · exact h

theorem foldl {index : Nat} : ∀ (code : Text) {s : BraceScan}, s.Within (index + 1) →
    (code.foldl (BraceScan.step index) s).Within (index + 1)
  | [], _, h => h
  | c :: code, _, h => foldl code (h.step c)

theorem lines : ∀ (ts : List Text) {s : BraceScan} {index : Nat}, s.Within index →
    (s.lines index ts).Within (index + ts.length)
  | [], _, _, h => h
  | t :: rest, s, index, h => by
    have hline : (s.line index t).Within (index + 1) := foldl t.code (h.mono (Nat.le_succ index))
    have hrest := lines rest hline
    rw [List.length_cons, Nat.add_comm rest.length 1, ← Nat.add_assoc]
    exact hrest

end BraceScan.Within

/-- A block is closed on a line of the snippet that is not before the one that opens it. -/
theorem BraceMap.get?_ofLines {ts : List Text} {i j : Nat} (h : (ofLines ts).get? i = some j) :
    i ≤ j ∧ j < ts.length := by
  obtain ⟨front, back, hclosed, -⟩ := List.lookup_eq_some_iff.1 h
  have hscan : (BraceScan.lines ⟨[], []⟩ 0 ts).Within (0 + ts.length) :=
    .lines ts ⟨fun _ h => (nomatch h), fun _ h => (nomatch h)⟩
  have hij := hscan.closed (i, j) (by
    show (i, j) ∈ ofLines ts
    simp [hclosed])
  exact ⟨hij.1, by simpa using hij.2⟩

end StepTrace
