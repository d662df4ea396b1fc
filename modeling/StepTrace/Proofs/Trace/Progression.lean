import Mathlib.Data.Set.Card
import StepTrace.Trace.Progression

/-!
# Progressions before a stop

The number of values of a progression is a quotient that is rounded up, in the direction of the
step. It counts the values before the stop (`lt_total_iff`): these are the first ones, because the
progression goes one way.

A progression that is cut is made anew with a stop of its own, so many steps behind the start. Such
a stop is never between two values, and so many values are before it (`total_add_mul`). So what is
left are the first values, and they lie between the start and the stop (`bounded_counts`).
-/

namespace StepTrace.Progression

/-- Strictly before a stop in the direction of a step. -/
def IsBefore (step value stop : Int) : Prop := if 0 < step then value < stop else stop < value

/-- A quotient that is rounded up counts the steps of a positive width that do not reach the end of
a span. -/
theorem lt_rounds_iff {span step : Int} (hstep : 0 < step) {k : Nat} :
    k < ((span + step - 1) / step).toNat ↔ k * step < span :=
  calc k < ((span + step - 1) / step).toNat
    _ ↔ (k : Int) + 1 ≤ (span + step - 1) / step := by omega
    _ ↔ ((k : Int) + 1) * step ≤ span + step - 1 := Int.le_ediv_iff_mul_le hstep
    _ ↔ k * step < span := by rw [Int.add_mul, Int.one_mul]; omega

/-- The values before the stop are the first ones. -/
theorem lt_total_iff (start stop : Int) {step : Int} (hstep : step ≠ 0) {k : Nat} :
    k < total start stop step ↔ IsBefore step (start + k * step) stop := by
  unfold total IsBefore
  split_ifs with hpos
  · rw [lt_rounds_iff hpos]
    omega
  · rw [Int.sub_eq_add_neg (b := step), lt_rounds_iff (by omega : 0 < -step), Int.mul_neg]
    omega

/-- So many values are before a stop that is so many steps behind the start. -/
theorem total_add_mul (start count : Int) {step : Int} (hstep : step ≠ 0) :
    total start (start + count * step) step = count.toNat := by
  refine eq_of_forall_lt_iff fun k => ?_
  rw [lt_total_iff start _ hstep]
  unfold IsBefore
  split_ifs with hpos
  · rw [Int.add_lt_add_iff_left, Int.mul_lt_mul_right hpos]
    omega
  · have hneg : step < 0 := by omega
    rw [Int.add_lt_add_iff_left, Int.mul_lt_mul_right_of_neg hneg]
    omega

theorem bounded_of_ne_zero (start stop limit : Int) {step : Int} (hstep : step ≠ 0) :
    bounded start stop step limit =
      .ok (values start step (min (total start stop step : Int) limit).toNat,
        total start stop step) := by
  simp only [bounded, if_neg hstep, range, total_add_mul start _ hstep]

/-- The first values of a progression lie between its start and its stop. -/
theorem between_of_mem_values {start stop step : Int} (hstep : step ≠ 0) {count : Nat}
    (hcount : count ≤ total start stop step) {n : Int} (h : n ∈ values start step count) :
    (0 < step ∧ start ≤ n ∧ n < stop) ∨ (step < 0 ∧ stop < n ∧ n ≤ start) := by
  obtain ⟨k, hk, rfl⟩ := List.mem_map.1 h
  have hbefore : IsBefore step (start + k * step) stop :=
    (lt_total_iff start stop hstep).1 (Nat.lt_of_lt_of_le (List.mem_range.1 hk) hcount)
  unfold IsBefore at hbefore
  split_ifs at hbefore with hpos
  · have hahead : 0 ≤ k * step := Int.mul_nonneg (by omega) (by omega)
    exact Or.inl ⟨hpos, by omega, hbefore⟩
  · have hback : k * step ≤ 0 := Int.mul_nonpos_of_nonneg_of_nonpos (by omega) (by omega)
    exact Or.inr ⟨by omega, hbefore, by omega⟩

/-- A cut progression: its total is the number of all values before the stop, and it has the first
of them, as many as the limit allows, all between the start and the stop. -/
theorem bounded_counts (start stop limit : Int) {step : Int} (hstep : step ≠ 0) :
    ∃ first count, bounded start stop step limit = .ok (first, count) ∧
      {k : ℕ | IsBefore step (start + k * step) stop}.encard = count ∧
      first = (List.range (max 0 (min (count : Int) limit)).toNat).map
        (fun k : ℕ => start + k * step) ∧
      ∀ n ∈ first, (0 < step ∧ start ≤ n ∧ n < stop) ∨ (step < 0 ∧ stop < n ∧ n ≤ start) := by
  refine ⟨_, _, bounded_of_ne_zero start stop limit hstep, ?_, ?_, fun n hn => ?_⟩
  · simp only [← lt_total_iff start stop hstep]
    exact Set.Nat.encard_range _
  · rw [values, show (max 0 (min (total start stop step : Int) limit)).toNat =
      (min (total start stop step : Int) limit).toNat by omega]
  · exact between_of_mem_values hstep (by omega) hn

/-- A stop that the fourth step down meets exactly, and a limit below the total. -/
theorem bounded_counts_down :
    (-3 : Int) ≠ 0 ∧ bounded 10 (-2) (-3) 3 = .ok ([10, 7, 4], 4) ∧
      {k : ℕ | IsBefore (-3) (10 + k * -3) (-2)}.encard = 4 ∧
      ∀ n ∈ [10, 7, 4], -2 < n ∧ n ≤ 10 := by
  obtain ⟨first, count, h, hcount, hfirst, hbetween⟩ :=
    bounded_counts 10 (-2) 3 (by decide : (-3 : Int) ≠ 0)
  have hfound : bounded 10 (-2) (-3) 3 = .ok ([10, 7, 4], 4) := by decide +kernel
  obtain ⟨rfl, rfl⟩ : [10, 7, 4] = first ∧ 4 = count := by simpa using hfound.symm.trans h
  exact ⟨by decide, h, hcount, fun n hn => (hbetween n hn).elim (fun h => by omega) (·.2)⟩

end StepTrace.Progression
