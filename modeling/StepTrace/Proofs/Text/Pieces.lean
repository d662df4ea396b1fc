import Mathlib.Data.List.TakeWhile
import Mathlib.Tactic.Common
import StepTrace.Print.Argument
import StepTrace.Text.Nesting

/-!
# Pieces of a text

Most of what a reader does to a text is to take a piece of it. What is trimmed, cut into lines or
into parts, or taken out of quotes is an infix of the text it comes from, so it is not longer
(`Text.trim_isInfix`, `Text.infix_of_mem_lines`, `Text.infix_of_mem_splitTop`). A text has at most
one part more than it has characters.
-/

namespace StepTrace

/-! ## Blanks -/

namespace CharClass

/-- The code points of a table of ranges. -/
def codes : List Nat → List Nat
  | low :: high :: rest => List.range' low (high - low) ++ codes rest
  | _ => []

theorem mem_codes : ∀ {ranges : List Nat} {n : Nat}, within ranges n = true → n ∈ codes ranges
  | [], _, h => nomatch h
  | [_], _, h => nomatch h
  | low :: high :: rest, n, h => by
    rw [within] at h
    rw [codes, List.mem_append, List.mem_range'_1]
    split_ifs at h with hlow hhigh
    · exact Or.inl ⟨by omega, by omega⟩
    · exact Or.inr (mem_codes h)

theorem not_isWord_of_isBlank {c : Char} (h : isBlank c = true) : isWord c = false := by
  have hall : ∀ n ∈ codes blankRanges, isWord (Char.ofNat n) = false := by decide +kernel
  rw [← Char.ofNat_toNat c]
  exact hall c.toNat (mem_codes h)

end CharClass

namespace Text

/-! ## Trimming -/

theorem dropTail_isPrefix (p : Char → Bool) (t : Text) : t.dropTail p <+: t := by
  have h : (t.reverse.dropWhile p).reverse <+: t.reverse.reverse :=
    List.reverse_prefix.2 (List.dropWhile_suffix p)
  rwa [List.reverse_reverse] at h

/-- What does not satisfy `p` ends the dropping. -/
theorem dropTail_append {p : Char → Bool} (front : Text) {t : Text} (h : ∃ c ∈ t, p c = false) :
    (front ++ t).dropTail p = front ++ t.dropTail p := by
  obtain ⟨c, hc, hp⟩ := h
  have hkept : (t.reverse.dropWhile p).isEmpty = false := by
    rw [List.isEmpty_eq_false_iff, Ne, List.dropWhile_eq_nil_iff]
    exact fun hall => by simp [hall c (List.mem_reverse.2 hc)] at hp
  rw [dropTail, List.reverse_append, List.dropWhile_append, hkept]
  simp [dropTail]

theorem trim_isInfix (t : Text) : t.trim <:+: t :=
  (dropTail_isPrefix _ _).isInfix.trans (List.dropWhile_suffix _).isInfix

/-! ## Cutting -/

/-- All texts are pieces of a text, and the first begins `skip` characters behind its front. -/
structure Pieces (t : Text) (skip : Nat) (pieces : List Text) : Prop where
  first : ∀ piece ∈ pieces.head?, piece <+: t.drop skip
  all : ∀ piece ∈ pieces, piece <:+: t

namespace Pieces

variable {t : Text} {pieces : List Text}

theorem consFirst (h : Pieces t 0 pieces) (c : Char) :
    Pieces (c :: t) 0 (Text.consFirst c pieces) := by
  cases pieces with
  | nil =>
    have hpre : [c] <+: c :: t := ⟨t, rfl⟩
    refine ⟨fun p hp => ?_, fun p hp => ?_⟩
    · cases hp
      exact hpre
    · rw [List.mem_singleton.1 hp]
      exact hpre.isInfix
  | cons piece rest =>
    have hpre : c :: piece <+: c :: t := List.cons_prefix_cons.2 ⟨rfl, h.first piece rfl⟩
    refine ⟨fun p hp => ?_, fun p hp => ?_⟩
    · cases hp
      exact hpre
    · rcases List.mem_cons.1 hp with rfl | hp
      · exact hpre.isInfix
      · exact (h.all p (by simp [hp])).trans (List.suffix_cons c t).isInfix

theorem cut {skip : Nat} (h : Pieces t skip pieces) (c : Char) :
    Pieces (c :: t) 0 ([] :: pieces) where
  first p hp := by
    cases hp
    exact List.nil_prefix
  all p hp := by
    rcases List.mem_cons.1 hp with rfl | hp
    · exact List.nil_infix
    · exact (h.all p hp).trans (List.suffix_cons c t).isInfix

theorem skip {skip : Nat} (h : Pieces t skip pieces) (c : Char) :
    Pieces (c :: t) (skip + 1) pieces where
  first := h.first
  all p hp := (h.all p hp).trans (List.suffix_cons c t).isInfix

end Pieces

theorem pieces_lines (t : Text) : Pieces t 0 t.lines := by
  fun_induction lines t with
  | case1 => exact ⟨fun _ h => (nomatch h), fun _ h => (nomatch h)⟩
  | case2 t ih => exact (ih.skip '\n').cut '\r'
  | case3 c t _ _ ih => exact ih.cut c
  | case4 c t _ _ ih => exact ih.consFirst c

theorem infix_of_mem_lines {t line : Text} (h : line ∈ t.lines) : line <:+: t :=
  (pieces_lines t).all line h

theorem not_isLineEnd_of_mem_lines {t line : Text} (h : line ∈ t.lines) :
    ∀ c ∈ line, CharClass.isLineEnd c = false := by
  fun_induction lines t generalizing line with
  | case1 => cases h
  | case2 t ih =>
    rcases List.mem_cons.1 h with rfl | h
    · simp
    · exact ih h
  | case3 c t _ _ ih =>
    rcases List.mem_cons.1 h with rfl | h
    · simp
    · exact ih h
  | case4 c t _ hend ih =>
    have hc : CharClass.isLineEnd c = false := by simpa using hend
    cases hlines : lines t with
    | nil =>
      rw [hlines] at h
      obtain rfl := List.mem_singleton.1 h
      simpa using hc
    | cons first rest =>
      rw [hlines] at h ih
      rcases List.mem_cons.1 h with rfl | h
      · have hfirst : ∀ a ∈ first, CharClass.isLineEnd a = false := ih (by simp)
        simpa [hc] using hfirst
      · exact ih (by simp [h])

theorem partsFrom_ne_nil (separator : Text) : ∀ (t : Text) (n : Nesting) (skip : Nat),
    partsFrom separator n skip t ≠ []
  | [], _, _ => by simp [partsFrom]
  | _ :: t, n, skip + 1 => partsFrom_ne_nil separator t n skip
  | c :: t, n, 0 => by
    rw [partsFrom]
    split_ifs
    · exact List.cons_ne_nil _ _
    · cases partsFrom separator (n.step c) 0 t <;> exact List.cons_ne_nil _ _

/-- The parts between separators are pieces of the text. -/
theorem pieces_partsFrom (separator : Text) : ∀ (t : Text) (n : Nesting) (skip : Nat),
    Pieces t skip (partsFrom separator n skip t)
  | [], n, skip => by
    rw [partsFrom]
    refine ⟨fun p hp => ?_, fun p hp => ?_⟩
    · cases hp
      exact List.nil_prefix
    · obtain rfl := List.mem_singleton.1 hp
      exact List.nil_infix
  | c :: t, n, skip + 1 => (pieces_partsFrom separator t n skip).skip c
  | c :: t, n, 0 => by
    rw [partsFrom]
    split_ifs
    · exact (pieces_partsFrom separator t n _).cut c
    · exact (pieces_partsFrom separator t (n.step c) 0).consFirst c

theorem infix_of_mem_splitTop {separator t part : Text} (h : part ∈ splitTop separator t) :
    part <:+: t := by
  obtain ⟨piece, hpiece, rfl⟩ := List.mem_map.1 h
  exact (trim_isInfix piece).trans ((pieces_partsFrom separator t .start 0).all piece hpiece)

theorem infix_of_mem_splitParts {separator t part : Text} (h : part ∈ splitParts separator t) :
    part <:+: t :=
  infix_of_mem_splitTop (List.mem_filter.1 h).1

theorem length_consFirst_le (c : Char) (pieces : List Text) :
    (Text.consFirst c pieces).length ≤ max 1 pieces.length := by
  cases pieces <;> simp [Text.consFirst]

theorem length_partsFrom_le (separator : Text) : ∀ (t : Text) (n : Nesting) (skip : Nat),
    (partsFrom separator n skip t).length ≤ t.length + 1
  | [], n, skip => by
    rw [partsFrom]
    simp
  | c :: t, n, skip + 1 => (length_partsFrom_le separator t n skip).trans (by simp)
  | c :: t, n, 0 => by
    rw [partsFrom]
    split_ifs
    · simpa using length_partsFrom_le separator t n _
    · have hrest := length_partsFrom_le separator t (n.step c) 0
      have hfirst := length_consFirst_le c (partsFrom separator (n.step c) 0 t)
      rw [List.length_cons]
      omega

theorem length_splitTop_le (separator t : Text) : (splitTop separator t).length ≤ t.length + 1 := by
  rw [splitTop, List.length_map]
  exact length_partsFrom_le separator t .start 0

/-! ## Quotes and brackets -/

theorem unquote?_isInfix {t inner : Text} (h : t.unquote? = some inner) : inner <:+: t := by
  unfold unquote? at h
  split at h
  · rename_i quote rest htrim
    dsimp only at h
    split_ifs at h
    cases h
    have hrest : rest <:+: t.trim := htrim ▸ (List.suffix_cons quote rest).isInfix
    exact (List.dropLast_prefix rest).isInfix.trans (hrest.trans (trim_isInfix t))
  · cases h

end Text

end StepTrace
