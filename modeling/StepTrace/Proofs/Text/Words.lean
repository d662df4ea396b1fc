import Mathlib.Data.List.TakeWhile
import Mathlib.Tactic.Common
import StepTrace.Proofs.Text.Trim

/-!
# The words of a text

The words of a text are its longest pieces without white space. A blank parts a text into two, and
its words are those of the one and then those of the other (`Text.words_append_blank`). All the rest
follows from this: white space at the ends does not matter, the trimmed text begins with the first
word (`Text.exists_of_words_eq_cons`), and from words that are written with single spaces they can
be read back (`Text.words_joined`).

A text is respaced by writing its words with single spaces between them (`Text.respaced`). The white
space at its ends stays.
-/

namespace StepTrace

open CharClass

namespace Text

/-- A word: not empty, and without white space. -/
def isWord (w : Text) : Bool := !w.isEmpty && w.all (! isBlank ·)

theorem isWord_iff {w : Text} : isWord w ↔ w ≠ [] ∧ ∀ c ∈ w, isBlank c = false := by
  simp [isWord]

/-! ## Cutting at blanks -/

section Cutting

variable {p : Char → Bool}

theorem cutAt_ne_nil (t : Text) : cutAt p t ≠ [] := by
  fun_induction cutAt p t with
  | case1 => simp
  | case2 c t hc ih => simp
  | case3 c t hc ih => cases h : cutAt p t <;> simp [consFirst]

theorem consFirst_append (c : Char) {a : List Text} (ha : a ≠ []) (b : List Text) :
    consFirst c (a ++ b) = consFirst c a ++ b := by
  obtain ⟨piece, rest, rfl⟩ := List.exists_cons_of_ne_nil ha
  rfl

theorem cutAt_append {c : Char} (hc : p c = true) (s t : Text) :
    cutAt p (s ++ c :: t) = cutAt p s ++ cutAt p t := by
  induction s with
  | nil => simp [cutAt, hc]
  | cons a s ih =>
    rw [List.cons_append, cutAt, cutAt, ih]
    split_ifs
    · rfl
    · exact consFirst_append a (cutAt_ne_nil s) _

theorem cutAt_of_forall {w : Text} (h : ∀ a ∈ w, p a = false) : cutAt p w = [w] := by
  induction w with
  | nil => rfl
  | cons a w ih =>
    have hrest := ih fun b hb => h b (List.mem_cons_of_mem a hb)
    simp [cutAt, h a List.mem_cons_self, hrest, consFirst]

theorem forall_of_mem_cutAt {t piece : Text} (h : piece ∈ cutAt p t) :
    ∀ a ∈ piece, p a = false := by
  induction t generalizing piece with
  | nil =>
    rw [List.mem_singleton.1 h]
    exact List.forall_mem_nil _
  | cons c t ih =>
    obtain ⟨first, rest, hcut⟩ := List.exists_cons_of_ne_nil (cutAt_ne_nil (p := p) t)
    rw [hcut] at ih
    rw [cutAt, hcut] at h
    split_ifs at h with hc
    · rcases List.mem_cons.1 h with rfl | h
      · exact List.forall_mem_nil _
      · exact ih h
    · rcases List.mem_cons.1 h with rfl | h
      · exact List.forall_mem_cons.2 ⟨by simpa using hc, ih List.mem_cons_self⟩
      · exact ih (List.mem_cons_of_mem first h)

end Cutting

/-! ## Words -/

theorem isWord_of_mem_words {t w : Text} (h : w ∈ t.words) : w.isWord := by
  obtain ⟨hcut, hne⟩ := List.mem_filter.1 h
  exact isWord_iff.2 ⟨by simpa using hne, forall_of_mem_cutAt hcut⟩

/-- A blank belongs to no word and ends one. -/
theorem words_append_blank {c : Char} (hc : isBlank c = true) (s t : Text) :
    words (s ++ c :: t) = words s ++ words t := by
  rw [words, cutAt_append hc, List.filter_append, words, words]

theorem words_of_isWord {w : Text} (hw : isWord w) : words w = [w] := by
  obtain ⟨hne, hall⟩ := isWord_iff.1 hw
  rw [words, cutAt_of_forall hall]
  simp [hne]

theorem words_append {w : Text} (hw : isWord w) {c : Char} (hc : isBlank c = true) (t : Text) :
    words (w ++ c :: t) = w :: words t := by
  rw [words_append_blank hc, words_of_isWord hw, List.singleton_append]

theorem words_blanks_append {front : Text} (h : ∀ c ∈ front, isBlank c = true) (t : Text) :
    words (front ++ t) = words t := by
  induction front with
  | nil => rfl
  | cons c front ih =>
    rw [List.forall_mem_cons] at h
    exact (words_append_blank h.1 [] (front ++ t)).trans (ih h.2)

theorem words_of_blank {t : Text} (h : ∀ c ∈ t, isBlank c = true) : words t = [] := by
  rw [← List.append_nil t, words_blanks_append h]
  rfl

theorem words_cons_ne_nil {c : Char} (hc : isBlank c = false) (t : Text) : words (c :: t) ≠ [] := by
  obtain ⟨first, rest, hcut⟩ := List.exists_cons_of_ne_nil (cutAt_ne_nil (p := isBlank) t)
  simp [words, cutAt, hc, hcut, consFirst]

theorem words_eq_nil_iff {t : Text} : words t = [] ↔ ∀ c ∈ t, isBlank c = true := by
  refine ⟨fun h => ?_, words_of_blank⟩
  induction t with
  | nil => exact List.forall_mem_nil _
  | cons c t ih =>
    cases hc : isBlank c with
    | false => exact absurd h (words_cons_ne_nil hc t)
    | true =>
      rw [show words (c :: t) = words t from words_append_blank hc [] t] at h
      exact List.forall_mem_cons.2 ⟨hc, ih h⟩

theorem words_append_blanks {back : Text} (h : ∀ c ∈ back, isBlank c = true) (t : Text) :
    words (t ++ back) = words t := by
  cases back with
  | nil => rw [List.append_nil]
  | cons c back =>
    rw [List.forall_mem_cons] at h
    rw [words_append_blank h.1, words_of_blank h.2, List.append_nil]

theorem words_trim (t : Text) : t.trim.words = t.words := by
  obtain ⟨front, back, ht, hfront, hback, -⟩ := exists_trim t
  conv_rhs => rw [ht, words_append_blanks hback, words_blanks_append hfront]

/-- A text without white space, or what stands before its first blank and behind it. -/
theorem forall_or_exists_blank (t : Text) : (∀ c ∈ t, isBlank c = false) ∨
    ∃ w c rest, t = w ++ c :: rest ∧ (∀ a ∈ w, isBlank a = false) ∧ isBlank c = true := by
  induction t with
  | nil => exact Or.inl (List.forall_mem_nil _)
  | cons a t ih =>
    cases ha : isBlank a with
    | true => exact Or.inr ⟨[], a, t, rfl, List.forall_mem_nil _, ha⟩
    | false =>
      refine ih.imp (fun h => List.forall_mem_cons.2 ⟨ha, h⟩) ?_
      rintro ⟨w, c, rest, rfl, hw, hc⟩
      exact ⟨a :: w, c, rest, rfl, List.forall_mem_cons.2 ⟨ha, hw⟩, hc⟩

/-- The first word stands at the front of the trimmed text. It is all of it, or a blank stands
behind it and then the other words. -/
theorem exists_of_words_eq_cons {t w : Text} {ws : List Text} (h : t.words = w :: ws) :
    (ws = [] ∧ t.trim = w) ∨
      ∃ c rest, isBlank c = true ∧ t.trim = w ++ c :: rest ∧ words rest = ws ∧ ws ≠ [] := by
  have htrim := isTrimmed_trim t
  rw [← words_trim] at h
  generalize t.trim = u at h htrim ⊢
  rcases forall_or_exists_blank u with hu | ⟨v, c, rest, rfl, hv, hc⟩
  · have hne : u ≠ [] := by
      rintro rfl
      cases h
    rw [words_of_isWord (isWord_iff.2 ⟨hne, hu⟩)] at h
    cases h
    exact Or.inl ⟨rfl, rfl⟩
  · have hne : v ≠ [] := by
      rintro rfl
      rw [htrim.head c rfl] at hc
      cases hc
    rw [words_append (isWord_iff.2 ⟨hne, hv⟩) hc] at h
    cases h
    refine Or.inr ⟨c, rest, hc, rfl, rfl, fun hnil => ?_⟩
    -- Otherwise the trimmed text would end in white space.
    have hblank : ∀ a ∈ c :: rest, isBlank a = true :=
      List.forall_mem_cons.2 ⟨hc, words_eq_nil_iff.1 hnil⟩
    have hlast := List.getLast?_eq_some_getLast (List.cons_ne_nil c rest)
    have hend := htrim.last ((c :: rest).getLast (List.cons_ne_nil c rest))
      (by rw [List.getLast?_append, hlast, Option.some_or]; rfl)
    rw [hblank _ (List.getLast_mem _)] at hend
    cases hend

theorem trim_eq_iff_words {t w : Text} (hw : w.isWord) : t.trim = w ↔ t.words = [w] := by
  constructor
  · intro h
    rw [← words_trim, h, words_of_isWord hw]
  · intro h
    rcases exists_of_words_eq_cons h with ⟨-, ht⟩ | ⟨-, -, -, -, -, hne⟩
    · exact ht
    · exact absurd rfl hne

/-! ## Words with single spaces -/

theorem joined_cons_cons (w v : Text) (ws : List Text) :
    joined [' '] (w :: v :: ws) = w ++ ' ' :: joined [' '] (v :: ws) := by
  simp [joined, List.intercalate_cons_cons]

/-- The words of a line that was written with single spaces. -/
theorem words_joined : ∀ {ws : List Text}, (∀ w ∈ ws, isWord w) → words (joined [' '] ws) = ws
  | [], _ => rfl
  | [w], h => by
    simpa [joined] using words_of_isWord (h w (by simp))
  | w :: v :: ws, h => by
    have hrest : words (joined [' '] (v :: ws)) = v :: ws :=
      words_joined fun u hu => h u (List.mem_cons_of_mem w hu)
    rw [joined_cons_cons, words_append (h w (by simp)) (by decide), hrest]

theorem isTrimmed_joined {ws : List Text} (h : ∀ w ∈ ws, isWord w) :
    IsTrimmed (joined [' '] ws) := by
  induction ws with
  | nil => exact isTrimmed_of_forall (List.forall_mem_nil _)
  | cons w ws ih =>
    rw [List.forall_mem_cons] at h
    obtain ⟨hne, hall⟩ := isWord_iff.1 h.1
    cases ws with
    | nil => simpa [joined] using isTrimmed_of_forall hall
    | cons v ws =>
      have hrest : joined [' '] (v :: ws) ≠ [] := by
        intro hnil
        have hwords := words_joined h.2
        rw [hnil] at hwords
        cases hwords
      rw [joined_cons_cons]
      exact isTrimmed_append (isTrimmed_of_forall hall) (ih h.2) hne hrest [' ']

/-- The words of a text with single spaces between them. The white space at the ends stays. -/
def respaced (t : Text) : Text :=
  t.take t.indent ++ joined [' '] t.words ++ t.drop (t.indent + t.trim.length)

/-- Between the same white space at the ends stand the trimmed text and its words. -/
theorem exists_respaced (t : Text) : ∃ front back, (∀ c ∈ front, isBlank c = true) ∧
    (∀ c ∈ back, isBlank c = true) ∧ t = front ++ t.trim ++ back ∧
      t.respaced = front ++ joined [' '] t.words ++ back := by
  obtain ⟨back, hback, hblank, -⟩ := exists_trimRight t.trimLeft
  have ht : t = t.takeWhile isBlank ++ t.trim ++ back := by
    rw [List.append_assoc, trim, ← hback, trimLeft, List.takeWhile_append_dropWhile]
  have hfront : t.take t.indent = t.takeWhile isBlank :=
    (List.prefix_iff_eq_take.1 (List.takeWhile_prefix isBlank)).symm
  have hdrop : t.drop (t.indent + t.trim.length) = back :=
    (congrArg (List.drop _) ht).trans (List.drop_left' List.length_append)
  refine ⟨_, back, fun c hc => List.mem_takeWhile_imp hc, hblank, ht, ?_⟩
  rw [respaced, hfront, hdrop]

theorem trim_respaced (t : Text) : t.respaced.trim = joined [' '] t.words := by
  obtain ⟨front, back, hfront, hback, -, h⟩ := exists_respaced t
  rw [h, trim_eq hfront hback (isTrimmed_joined fun w hw => isWord_of_mem_words hw)]

theorem words_respaced (t : Text) : t.respaced.words = t.words := by
  rw [← words_trim, trim_respaced, words_joined fun w hw => isWord_of_mem_words hw]

end Text

end StepTrace
