import Mathlib.Data.List.Basic
import StepTrace.Proofs.Number.Normal
import StepTrace.Proofs.Number.Numeral
import StepTrace.Value

/-!
# Whole numbers that are shown and read

A whole number is shown in decimal digits with a minus sign before them. Such a text is a numeral
(`Numeral.ofInt`), and reading it gives back the number, as long as it is not beyond the largest
double (`Number.ofLiteral?_display`). The largest one has 309 digits. With a sign that is just the
length up to which a literal is read exactly.

Conversely, what is shown as a literal without point and exponent is such a whole number, provided
that no double is whole (`Number.exists_of_isInteger_display`). All other doubles are shown with a
point or an exponent or as words.
-/

namespace StepTrace

open CharClass

/-! ## Digits -/

namespace CharClass

/-- The digits of the basic range have their usual values. -/
theorem digitValue?_of_isDigit {c : Char} (h : c.isDigit = true) :
    digitValue? c = some (c.toNat - '0'.toNat) := by
  obtain ⟨hlow, hhigh⟩ := Bool.and_eq_true_iff.1 h
  have hlow : 48 ≤ c.toNat := UInt32.le_iff_toNat_le.1 (of_decide_eq_true hlow)
  have hhigh : c.toNat ≤ 57 := UInt32.le_iff_toNat_le.1 (of_decide_eq_true hhigh)
  rw [digitValue?, if_pos (by omega), if_pos (by omega)]
  rfl

theorem isDecimal_of_isDigit {c : Char} (h : c.isDigit = true) : isDecimal c = true := by
  rw [isDecimal, digitValue?_of_isDigit h]
  rfl

end CharClass

theorem Text.isDigit_of_mem_ofNat {n : Nat} {c : Char} (h : c ∈ ofNat n) : c.isDigit = true :=
  Nat.isDigit_of_mem_toDigits (by decide) (by decide) h

theorem Literal.value_of_isDigit {digits : Text} (h : ∀ c ∈ digits, c.isDigit = true) :
    value digits = Nat.ofDigitChars 10 digits 0 := by
  rw [value, Nat.ofDigitChars]
  refine List.foldl_ext _ _ _ fun n c hc => ?_
  rw [digitValue?_of_isDigit (h c hc)]
  rfl

/-- Reading the digits of a number gives the number. -/
theorem Literal.value_ofNat (n : Nat) : value (Text.ofNat n) = n := by
  rw [value_of_isDigit fun _ => Text.isDigit_of_mem_ofNat]
  exact Nat.ofDigitChars_toDigits (by decide) (by decide)

theorem Text.length_ofNat_le {n k : Nat} (hk : 0 < k) (h : n < 10 ^ k) : (ofNat n).length ≤ k :=
  (Nat.length_toDigits_le_iff (by decide) hk).2 h

theorem Double.largestInt_lt : largestInt < 10 ^ 309 := by decide +kernel

-- From here on nothing may try to write the powers out.
attribute [local irreducible] Double.one Double.largestInt

/-! ## Whole numbers -/

/-- The numeral of a whole number. -/
def Numeral.ofInt (n : Int) : Numeral where
  sign := if n < 0 then .minus else .absent
  whole := Text.ofNat n.natAbs
  fraction := none
  exponent := none
  isDigits c hc := by
    rw [Option.getD_none, List.append_nil] at hc
    exact isDecimal_of_isDigit (Text.isDigit_of_mem_ofNat hc)
  filled := by
    rw [Option.getD_none, List.append_nil]
    exact Nat.toDigits_ne_nil

namespace Numeral

theorem text_ofInt (n : Int) : (ofInt n).text = Text.ofInt n := by
  simp only [text, mantissa, tail, ofInt, Option.elim_none, List.append_nil, Text.ofInt]
  split_ifs <;> rfl

theorem toInt_ofInt (n : Int) : (ofInt n).literal.toInt = n := by
  simp only [literal, ofInt, Literal.toInt, Literal.value_ofNat]
  rcases Int.lt_or_le n 0 with hneg | hpos
  · rw [if_pos hneg, Sign.isMinus, if_pos rfl]
    omega
  · rw [if_neg (Int.not_lt.2 hpos), show Sign.absent.isMinus = false from rfl,
      if_neg Bool.false_ne_true]
    omega

theorem length_text_ofInt {n : Int} (h : n.natAbs ≤ Double.largestInt) :
    (ofInt n).text.length ≤ Number.longestExact := by
  have hlen := Text.length_ofNat_le (by decide) (Nat.lt_of_le_of_lt h Double.largestInt_lt)
  rw [text_ofInt, Text.ofInt, Number.longestExact]
  split_ifs
  · rw [List.length_cons]
    omega
  · omega

theorem value_ofInt {n : Int} (h : n.natAbs ≤ Double.largestInt) : (ofInt n).value = .int n := by
  rw [value, if_pos ⟨rfl, rfl, length_text_ofInt h⟩, toInt_ofInt, Number.normalize,
    if_neg (Nat.not_lt.2 h)]

end Numeral

namespace Number

theorem display_int {n : Int} (h : n.natAbs ≤ Double.largestInt) :
    display (.int n) = (Numeral.ofInt n).text := by
  rw [Numeral.text_ofInt, display, normalize, if_neg (Nat.not_lt.2 h)]
  rfl

/-- A whole number that is not too large is read back from what is shown of it. -/
theorem ofLiteral?_display {n : Int} (h : n.natAbs ≤ Double.largestInt) :
    ofLiteral? (display (.int n)) = some (.int n) := by
  rw [display_int h, ofLiteral?_text, Numeral.value_ofInt h]

/-! ## Literals without point and exponent -/

/-- No double that is a whole number. -/
def IsReduced : Number → Prop
  | .int _ => True
  | .float x => x.toInt? = none

theorem IsNormal.isReduced {n : Number} (h : n.IsNormal) : n.IsReduced := by
  cases n with
  | int n => exact trivial
  | float x => exact h.2

theorem normalize_isReduced (n : Number) : n.normalize.IsReduced := by
  cases n with
  | int n =>
    rw [normalize]
    split_ifs
    · rfl
    · exact trivial
  | float x =>
    simp only [normalize]
    cases hint : x.toInt? with
    | none => exact hint
    | some n => exact trivial

theorem apply_isReduced (op : Operator) (left right : Number) :
    (apply op left right).IsReduced := by
  rw [apply]
  cases combine? op left right with
  | none => rfl
  | some n => exact normalize_isReduced n

end Number

/-- A literal without point and exponent. -/
def Text.isInteger (t : Text) : Bool := (Literal.ofText? t).any Literal.isWhole

/-- An integer has nothing but a sign and digits in it. -/
theorem Text.mem_of_isInteger {t : Text} (h : t.isInteger) {c : Char} (hc : c ∈ t) :
    isDecimal c = true ∨ c = '+' ∨ c = '-' := by
  obtain ⟨l, hl, hwhole⟩ := (Option.any_eq_true _ _).1 h
  obtain ⟨n, rfl, rfl⟩ := Numeral.exists_of_ofText? hl
  obtain ⟨hfraction, hexponent⟩ := Bool.and_eq_true_iff.1 hwhole
  have hfraction : n.fraction = none := Option.isNone_iff_eq_none.1 hfraction
  have hexponent : n.exponent = none :=
    Option.map_eq_none_iff.1 (Option.isNone_iff_eq_none.1 hexponent)
  rw [Numeral.text, Numeral.mantissa, Numeral.tail, hfraction, hexponent, List.mem_append] at hc
  rcases hc with hc | hc
  · cases hsign : n.sign <;> rw [hsign] at hc <;> simp [Sign.text] at hc <;> simp [hc]
  · exact .inl (n.isDecimal_of_mem_whole (by simpa using hc))

/-- The notation of a double has a point or an exponent. -/
theorem Decimal.mark_mem_layout (x : Scaled) : '.' ∈ layout x ∨ 'e' ∈ layout x := by
  rw [layout]
  dsimp only
  split_ifs
  · exact .inl (by simp)
  · exact .inl (by simp)
  · exact .inl (by simp)
  · exact .inr (by simp)

namespace Number

/-- Only a whole number is shown as a literal without point and exponent. -/
theorem exists_of_isInteger_display {a : Number} (ha : a.IsReduced) (h : a.display.isInteger) :
    ∃ n : Int, a = .int n ∧ n.natAbs ≤ Double.largestInt := by
  have hno : ∀ c ∈ ['.', 'e', 'N', 'I'], c ∉ a.display := by
    intro c hc hmem
    have hother : ∀ c ∈ ['.', 'e', 'N', 'I'], ¬(isDecimal c = true ∨ c = '+' ∨ c = '-') := by
      decide
    exact hother c hc (Text.mem_of_isInteger h hmem)
  cases a with
  | int n =>
    rcases Nat.lt_or_ge Double.largestInt n.natAbs with hlarge | hsmall
    · refine absurd ?_ (hno 'I' (by decide))
      rw [display, normalize, if_pos hlarge]
      simp
    · exact ⟨n, rfl, hsmall⟩
  | float x =>
    have hint : x.toInt? = none := ha
    cases x with
    | nan => exact absurd (by decide) (hno 'N' (by decide))
    | infinite negative => exact absurd (by cases negative <;> decide) (hno 'I' (by decide))
    | finite negative units =>
      have hdisplay : display (.float (.finite negative units)) =
          Decimal.ofDouble (.finite negative units) := by
        rw [display, normalize, hint]
        rfl
      have hunits : units ≠ 0 := by
        rintro rfl
        simp [Double.toInt?] at hint
      rw [hdisplay, Decimal.ofDouble, if_neg hunits] at hno
      rcases Decimal.mark_mem_layout (Decimal.shortest units) with hmark | hmark
      · exact absurd (List.mem_append_right _ hmark) (hno '.' (by decide))
      · exact absurd (List.mem_append_right _ hmark) (hno 'e' (by decide))

end Number

end StepTrace
