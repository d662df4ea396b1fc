import Mathlib.Algebra.Group.Nat.Defs
import Mathlib.Tactic.Common
import StepTrace.Number.Literal

/-!
# Numbers in normal form

The magnitude of a finite double is at most `Double.largestUnits`, the largest one that 53
significant bits give below `2¹⁰²⁴`. Rounding respects this bound from both sides: every rounded
double keeps to it (`Double.rounded_fits`), and what keeps to it is not rounded out of range
(`Double.roundUnits_le`).

A number is in normal form (`Number.IsNormal`) if it is a whole number that a double can be close
to, or a double that is not whole. Whatever arithmetic and literals give is in normal form, and a
number in normal form has a nearest double and a floor in the same range.
-/

namespace StepTrace

namespace Double

/-! ## Rounding

The exponent of the largest magnitude is kept as a variable, so that its power is never computed. -/

section Rounding

variable {num den e m : Nat}

theorem roundDiv_le_succ (num den : Nat) : roundDiv num den ≤ num / den + 1 := by
  unfold roundDiv
  dsimp only
  split_ifs <;> omega

/-- A quotient that is not above a whole number is not rounded above it. -/
theorem roundDiv_le (h : num ≤ m * den) : roundDiv num den ≤ m := by
  have hquot : num / den ≤ m := Nat.div_le_of_le_mul (by rwa [Nat.mul_comm])
  rcases Nat.lt_or_eq_of_le hquot with hlt | heq
  · exact Nat.le_trans (roundDiv_le_succ num den) hlt
  · have hmod : num % den = 0 := by
      have hdiv := Nat.div_add_mod num den
      rw [heq, Nat.mul_comm] at hdiv
      omega
    have hzero : den = 0 → m = 0 := by
      rintro rfl
      rw [← heq, Nat.div_zero]
    unfold roundDiv
    dsimp only
    rw [hmod, heq]
    split_ifs <;> omega

theorem spacing_eq (units : Nat) : spacing units = 2 ^ (units.log2 - 52) := rfl

theorem log2_lt (h : num < 2 ^ (53 + e)) : num.log2 < 53 + e := by
  by_cases hzero : num = 0
  · rw [hzero, Nat.log2_zero]
    omega
  · exact (Nat.log2_lt hzero).2 h

/-- What is not above the largest magnitude is not rounded above it. -/
theorem roundUnits_le_of_le (h : num ≤ (2 ^ 53 - 1) * 2 ^ e * den) :
    roundUnits num den ≤ (2 ^ 53 - 1) * 2 ^ e := by
  have hquot : num / den ≤ (2 ^ 53 - 1) * 2 ^ e := Nat.div_le_of_le_mul (by rwa [Nat.mul_comm])
  have hlog : (num / den).log2 < 53 + e := by
    refine log2_lt (Nat.lt_of_le_of_lt hquot ?_)
    rw [Nat.pow_add]
    exact Nat.mul_lt_mul_of_pos_right (by decide) (Nat.two_pow_pos e)
  -- The step divides the largest magnitude, so that one is a whole number of steps.
  have hsplit : 2 ^ e = 2 ^ (e - ((num / den).log2 - 52)) * spacing (num / den) := by
    rw [spacing_eq, ← Nat.pow_add]
    congr 1
    omega
  have hround : roundDiv num (den * spacing (num / den)) ≤
      (2 ^ 53 - 1) * 2 ^ (e - ((num / den).log2 - 52)) := by
    refine roundDiv_le ?_
    rw [hsplit] at h
    calc num ≤ _ := h
      _ = _ := by rw [Nat.mul_comm den, ← Nat.mul_assoc, ← Nat.mul_assoc]
  calc roundUnits num den = roundDiv num (den * spacing (num / den)) * spacing (num / den) := rfl
    _ ≤ (2 ^ 53 - 1) * 2 ^ (e - ((num / den).log2 - 52)) * spacing (num / den) :=
      Nat.mul_le_mul_right _ hround
    _ = (2 ^ 53 - 1) * 2 ^ e := by rw [Nat.mul_assoc, ← hsplit]

/-- What is rounded to less than the next power of two is not above the largest magnitude. -/
theorem roundUnits_le_of_lt (he : 0 < e) (h : roundUnits num den < 2 ^ 53 * 2 ^ e) :
    roundUnits num den ≤ (2 ^ 53 - 1) * 2 ^ e := by
  unfold roundUnits at h ⊢
  dsimp only at h ⊢
  rw [spacing_eq] at h ⊢
  generalize hk : (num / den).log2 - 52 = k at h ⊢
  have hround : roundDiv num (den * 2 ^ k) ≤ 2 ^ 53 := by
    have hquot : num / (den * 2 ^ k) < 2 ^ 53 := by
      rw [← Nat.div_div_eq_div_mul, Nat.div_lt_iff_lt_mul (Nat.two_pow_pos k), ← Nat.pow_add]
      refine Nat.lt_of_lt_of_le Nat.lt_log2_self ?_
      exact Nat.pow_le_pow_right (by decide) (by omega)
    exact Nat.le_trans (roundDiv_le_succ _ _) hquot
  rcases Nat.lt_or_ge k e with hstep | hstep
  · -- With small steps at most `2 ^ 53` of them are taken.
    have hdouble : 2 ^ e = 2 * 2 ^ (e - 1) := by
      rw [← Nat.pow_add_one']
      congr 1
      omega
    calc roundDiv num (den * 2 ^ k) * 2 ^ k ≤ 2 ^ 53 * 2 ^ (e - 1) :=
        Nat.mul_le_mul hround (Nat.pow_le_pow_right (by decide) (by omega))
      _ ≤ (2 ^ 53 - 1) * 2 ^ e := by
        rw [hdouble, ← Nat.mul_assoc]
        exact Nat.mul_le_mul_right _ (by decide)
  · -- With large steps the magnitude is a multiple of the least one of them.
    have hsplit : 2 ^ k = 2 ^ (k - e) * 2 ^ e := by
      rw [← Nat.pow_add]
      congr 1
      omega
    rw [hsplit, ← Nat.mul_assoc] at h ⊢
    have hlt := Nat.lt_of_mul_lt_mul_right h
    exact Nat.mul_le_mul_right _ (by omega)

end Rounding

/-! ## The range of doubles -/

/-- The largest finite magnitude in units. -/
def largestUnits : Nat := (2 ^ 53 - 1) * 2 ^ 2045

theorem largestUnits_eq : largestUnits = largestInt * one := by decide +kernel

theorem one_pos : 0 < one := by decide +kernel

theorem tooLarge_eq : tooLarge = 2 ^ 53 * 2 ^ 2045 := by decide +kernel

theorem largestUnits_lt : largestUnits < tooLarge := by decide +kernel

end Double

-- From here on nothing may try to write the powers out.
attribute [local irreducible] Double.one Double.tooLarge Double.largestInt Double.largestUnits

namespace Double

/-- The magnitude of a finite double is in range. -/
def Fits : Double → Prop
  | .finite _ units => units ≤ largestUnits
  | _ => True

theorem roundUnits_le {num den : Nat} (h : num ≤ largestUnits * den) :
    roundUnits num den ≤ largestUnits := by
  unfold largestUnits at h ⊢
  exact roundUnits_le_of_le (e := 2045) h

theorem rounded_of_lt (negative : Bool) {num den : Nat} (h : roundUnits num den < tooLarge) :
    rounded negative num den = .finite negative (roundUnits num den) :=
  if_pos h

/-- Whatever is rounded keeps to the range or is infinite. -/
theorem rounded_fits (negative : Bool) (num den : Nat) : (rounded negative num den).Fits := by
  rcases Nat.lt_or_ge (roundUnits num den) tooLarge with h | h
  · rw [rounded_of_lt negative h]
    rw [tooLarge_eq] at h
    show roundUnits num den ≤ largestUnits
    unfold largestUnits
    exact roundUnits_le_of_lt (e := 2045) (by decide) h
  · rw [show rounded negative num den = .infinite negative from if_neg (Nat.not_lt.2 h)]
    exact trivial

theorem roundUnits_lt {m : Nat} (h : m ≤ largestInt) : roundUnits (m * one) 1 < tooLarge := by
  have hle : m * one ≤ largestUnits * 1 := by
    rw [Nat.mul_one, largestUnits_eq]
    exact Nat.mul_le_mul_right one h
  exact Nat.lt_of_le_of_lt (roundUnits_le hle) largestUnits_lt

/-- A whole number that is not too large has a nearest double. -/
theorem ofInt?_isSome {n : Int} (h : n.natAbs ≤ largestInt) : (ofInt? n).isSome := by
  rw [ofInt?, rounded_of_lt _ (roundUnits_lt h)]
  rfl

theorem natAbs_signed (negative : Bool) (units : Nat) : (signed negative units).natAbs = units := by
  cases negative <;> simp [signed]

theorem Fits.toInt? {x : Double} (hx : x.Fits) {n : Int} (h : x.toInt? = some n) :
    n.natAbs ≤ largestInt := by
  cases x with
  | finite negative units =>
    simp only [Double.toInt?] at h
    split_ifs at h
    cases h
    rw [natAbs_signed]
    exact Nat.div_le_of_le_mul (by rw [Nat.mul_comm, ← largestUnits_eq]; exact hx)
  | _ => cases h

theorem Fits.floor? {x : Double} (hx : x.Fits) {n : Int} (h : x.floor? = some n) :
    n.natAbs ≤ largestInt := by
  cases x with
  | finite negative units =>
    have hone : (0 : Int) < one := Int.natCast_pos.2 one_pos
    have hle : (units : Int) ≤ largestInt * one := by
      rw [← Int.natCast_mul, ← largestUnits_eq]
      exact Int.ofNat_le.2 hx
    obtain rfl : signed negative units / (one : Int) = n := by simpa [Double.floor?] using h
    have hupper : signed negative units / (one : Int) ≤ largestInt := by
      refine Int.ediv_le_of_le_mul hone ?_
      cases negative <;> simp only [signed] <;> omega
    have hlower : -(largestInt : Int) ≤ signed negative units / (one : Int) := by
      refine (Int.le_ediv_iff_mul_le hone).2 ?_
      rw [Int.neg_mul]
      cases negative <;> simp only [signed] <;> omega
    omega
  | _ => cases h

/-! ## Arithmetic -/

theorem finite?_eq_some {x y : Double} (h : x.finite? = some y) : x = y := by
  cases x with
  | finite negative units => simpa [finite?] using h
  | _ => cases h

theorem fits_ite {p : Prop} [Decidable p] {x y : Double} (hx : x.Fits) (hy : y.Fits) :
    (if p then x else y).Fits := by
  split_ifs
  · exact hx
  · exact hy

theorem fits_zero (negative : Bool) : (finite negative 0).Fits := Nat.zero_le _

theorem add_fits (x y : Double) : (add x y).Fits := by
  cases x with
  | nan => cases y <;> exact trivial
  | infinite s =>
    cases y with
    | infinite t => exact fits_ite trivial trivial
    | _ => exact trivial
  | finite s a =>
    cases y with
    | finite t b => exact fits_ite (fits_zero _) (rounded_fits _ _ _)
    | _ => exact trivial

theorem mul_fits (x y : Double) : (mul x y).Fits := by
  cases x with
  | nan => cases y <;> exact trivial
  | infinite s =>
    cases y with
    | finite t b => exact fits_ite trivial trivial
    | _ => exact trivial
  | finite s a =>
    cases y with
    | nan => exact trivial
    | infinite t => exact fits_ite trivial trivial
    | finite t b => exact rounded_fits _ _ _

theorem div_fits (x y : Double) : (div x y).Fits := by
  cases x with
  | nan => cases y <;> exact trivial
  | infinite s => cases y <;> exact trivial
  | finite s a =>
    cases y with
    | nan => exact trivial
    | infinite t => exact fits_zero _
    | finite t b => exact rounded_fits _ _ _

end Double

namespace Number

open Double (largestInt)

/-! ## Numbers in range -/

/-- A double is in range; a whole number may have any size. -/
def Fits : Number → Prop
  | .int _ => True
  | .float x => x.Fits

/-- A whole number close to a double, or a double that is not whole. -/
def IsNormal : Number → Prop
  | .int n => n.natAbs ≤ largestInt
  | .float x => x.Fits ∧ x.toInt? = none

theorem IsNormal.fits {n : Number} (h : n.IsNormal) : n.Fits := by
  cases n with
  | int n => exact trivial
  | float x => exact h.1

theorem isNormal_zero : IsNormal .zero := Nat.zero_le _

theorem isNormal_infinite (negative : Bool) : IsNormal (.float (.infinite negative)) :=
  ⟨trivial, rfl⟩

theorem isNormal_of_le {n : Nat} (h : n ≤ largestInt) : IsNormal (.int n) := h

/-- The normal form of a number in range. -/
theorem normalize_isNormal {n : Number} (h : n.Fits) : n.normalize.IsNormal := by
  cases n with
  | int n =>
    simp only [normalize]
    split_ifs with hlarge
    · exact isNormal_infinite _
    · exact Nat.le_of_not_lt hlarge
  | float x =>
    simp only [normalize]
    cases hint : x.toInt? with
    | none => exact ⟨h, hint⟩
    | some n => exact Double.Fits.toInt? h hint

theorem applyDouble_fits (op : Operator) (x y : Double) : (applyDouble op x y).Fits := by
  cases op with
  | add => exact Double.add_fits x y
  | sub => exact Double.add_fits x _
  | mul => exact Double.mul_fits x y
  | div => exact Double.div_fits x y

theorem quotient?_fits {a b : Int} {x : Double} (h : quotient? a b = some x) : x.Fits :=
  Double.finite?_eq_some h ▸ Double.rounded_fits _ _ _

theorem combine?_fits {op : Operator} {left right n : Number} (hl : left.Fits)
    (h : combine? op left right = some n) : n.Fits := by
  unfold combine? at h
  split_ifs at h
  · cases h
    exact hl
  · split at h
    · cases h
      exact trivial
    · cases h
      exact trivial
    · cases h
      exact trivial
    · obtain ⟨x, hx, rfl⟩ := Option.map_eq_some_iff.1 h
      exact quotient?_fits hx
    · obtain ⟨x, -, hx⟩ := Option.bind_eq_some_iff.1 h
      obtain ⟨y, -, hy⟩ := Option.bind_eq_some_iff.1 hx
      cases hy
      exact applyDouble_fits _ x y

/-- The result of an operator is in normal form. -/
theorem apply_isNormal (op : Operator) {left : Number} (hl : left.Fits) (right : Number) :
    (apply op left right).IsNormal := by
  unfold apply
  cases h : combine? op left right with
  | none => exact isNormal_infinite _
  | some n => exact normalize_isNormal (combine?_fits hl h)

theorem toDouble_fits (l : Literal) : l.toDouble.Fits := by
  unfold Literal.toDouble Literal.nearest
  dsimp only
  split_ifs
  · exact Double.fits_zero _
  · exact trivial
  · exact Double.fits_zero _
  · exact Double.rounded_fits _ _ _
  · exact Double.rounded_fits _ _ _

theorem ofLiteral?_isNormal {t : Text} {n : Number} (h : ofLiteral? t = some n) : n.IsNormal := by
  obtain ⟨l, -, rfl⟩ := Option.map_eq_some_iff.1 h
  split_ifs
  · exact normalize_isNormal trivial
  · exact normalize_isNormal (toDouble_fits l)

theorem IsNormal.toDouble? {n : Number} (h : n.IsNormal) : n.toDouble?.isSome := by
  cases n with
  | int n => exact Double.ofInt?_isSome h
  | float x => rfl

theorem IsNormal.natAbs_floor_le {n : Number} (h : n.IsNormal) : n.floor.natAbs ≤ largestInt := by
  cases n with
  | int n => exact h
  | float x =>
    simp only [floor]
    cases hfloor : x.floor? with
    | none => exact Nat.zero_le _
    | some n => exact h.1.floor? hfloor

end Number

end StepTrace
