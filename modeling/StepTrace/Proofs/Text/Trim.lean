import StepTrace.Condition
import StepTrace.Proofs.Text.Pieces

/-!
# White space around a text

A text is its trimmed text with white space around it, and the trimmed text has none at its ends
(`Text.exists_trim`). These two properties determine it (`Text.trim_eq`). Reading a condition does
not look at the white space around it (`Condition.read_congr`).
-/

namespace StepTrace

open CharClass

namespace Text

/-- What holds of all characters of a text is decided along the text, and not by going through all
characters that there are. -/
instance (priority := high) decidableForallMem (t : Text) (p : Char → Prop) [DecidablePred p] :
    Decidable (∀ c ∈ t, p c) :=
  List.decidableBAll p t

@[inherit_doc decidableForallMem]
instance (priority := high) decidableForallMemOption (o : Option Char) (p : Char → Prop)
    [DecidablePred p] : Decidable (∀ c ∈ o, p c) :=
  Option.decidableForallMem o

/-- There is no white space at the ends of a text. -/
structure IsTrimmed (t : Text) : Prop where
  head : ∀ c ∈ t.head?, isBlank c = false
  last : ∀ c ∈ t.getLast?, isBlank c = false

theorem trimLeft_append {front : Text} (h : ∀ c ∈ front, isBlank c = true) (t : Text) :
    (front ++ t).trimLeft = t.trimLeft := by
  rw [trimLeft, List.dropWhile_append_of_pos h, trimLeft]

theorem trimRight_append {back : Text} (h : ∀ c ∈ back, isBlank c = true) (t : Text) :
    (t ++ back).trimRight = t.trimRight := by
  have hback : ∀ c ∈ back.reverse, isBlank c = true := fun c hc => h c (List.mem_reverse.1 hc)
  rw [trimRight, dropTail, List.reverse_append, List.dropWhile_append_of_pos hback, trimRight,
    dropTail]

theorem IsTrimmed.trimRight_eq {t : Text} (h : t.IsTrimmed) : t.trimRight = t := by
  rw [trimRight, dropTail]
  cases hrev : t.reverse with
  | nil => simpa using hrev
  | cons c rest =>
    have hlast : c ∈ t.getLast? := by rw [← List.head?_reverse, hrev]; rfl
    rw [List.dropWhile_cons_of_neg (by simp [h.last c hlast]), ← hrev, List.reverse_reverse]

theorem exists_trimRight (t : Text) : ∃ back, t = t.trimRight ++ back ∧
    (∀ c ∈ back, isBlank c = true) ∧ ∀ c ∈ t.trimRight.getLast?, isBlank c = false := by
  refine ⟨(t.reverse.takeWhile isBlank).reverse, ?_, fun c hc => ?_, fun c hc => ?_⟩
  · rw [trimRight, dropTail, ← List.reverse_append, List.takeWhile_append_dropWhile,
      List.reverse_reverse]
  · exact List.mem_takeWhile_imp (List.mem_reverse.1 hc)
  · rw [trimRight, dropTail, List.getLast?_reverse] at hc
    have hnot := List.head?_dropWhile_not isBlank t.reverse
    rw [Option.mem_def.1 hc] at hnot
    exact hnot

/-- A text is its trimmed text with white space around it. -/
theorem exists_trim (t : Text) : ∃ front back, t = front ++ t.trim ++ back ∧
    (∀ c ∈ front, isBlank c = true) ∧ (∀ c ∈ back, isBlank c = true) ∧ t.trim.IsTrimmed := by
  obtain ⟨back, hback, hblank, hlast⟩ := exists_trimRight t.trimLeft
  refine ⟨t.takeWhile isBlank, back, ?_, fun c hc => List.mem_takeWhile_imp hc, hblank,
    fun c hc => ?_, hlast⟩
  · rw [List.append_assoc, trim, ← hback, trimLeft, List.takeWhile_append_dropWhile]
  · have hhead : c ∈ t.trimLeft.head? := by
      rw [hback, List.head?_append, show t.trimLeft.trimRight.head? = some c from hc]
      rfl
    have hnot := List.head?_dropWhile_not isBlank t
    rw [show t.dropWhile isBlank = t.trimLeft from rfl, Option.mem_def.1 hhead] at hnot
    exact hnot

theorem trim_eq {front core back : Text} (hfront : ∀ c ∈ front, isBlank c = true)
    (hback : ∀ c ∈ back, isBlank c = true) (hcore : core.IsTrimmed) :
    (front ++ core ++ back).trim = core := by
  rw [trim, List.append_assoc, trimLeft_append hfront]
  cases core with
  | nil =>
    rw [List.nil_append, trimLeft, List.dropWhile_eq_nil_iff.2 hback]
    rfl
  | cons c core =>
    have hc : isBlank c = false := hcore.head c rfl
    rw [List.cons_append, trimLeft, List.dropWhile_cons_of_neg (by simp [hc]), ← List.cons_append,
      trimRight_append hback, hcore.trimRight_eq]

theorem IsTrimmed.trim_eq {t : Text} (h : t.IsTrimmed) : t.trim = t := by
  have hnil : ∀ c ∈ ([] : Text), isBlank c = true := List.forall_mem_nil _
  simpa using Text.trim_eq hnil hnil h

theorem isTrimmed_of_trim_eq {t : Text} (h : t.trim = t) : t.IsTrimmed := by
  obtain ⟨-, -, -, -, -, htrimmed⟩ := exists_trim t
  exact h ▸ htrimmed

theorem isTrimmed_trim (t : Text) : t.trim.IsTrimmed := by
  obtain ⟨-, -, -, -, -, htrimmed⟩ := exists_trim t
  exact htrimmed

theorem trim_trim (t : Text) : t.trim.trim = t.trim := (isTrimmed_trim t).trim_eq

theorem isTrimmed_of_forall {t : Text} (h : ∀ c ∈ t, isBlank c = false) : t.IsTrimmed :=
  ⟨fun c hc => h c (List.mem_of_head? hc), fun c hc => h c (List.mem_of_getLast? hc)⟩

/-- A text between two characters that are not blank. -/
theorem isTrimmed_enclosed {a b : Char} (ha : isBlank a = false) (hb : isBlank b = false)
    (t : Text) : IsTrimmed (a :: (t ++ [b])) := by
  refine ⟨fun c hc => ?_, fun c hc => ?_⟩
  · cases hc
    exact ha
  · rw [← List.cons_append, List.getLast?_concat] at hc
    cases hc
    exact hb

/-- A character in front that is not blank stays. -/
theorem exists_trim_cons {c : Char} (hc : isBlank c = false) (t : Text) :
    ∃ u, trim (c :: t) = c :: u := by
  obtain ⟨front, back, ht, hfront, hback, -⟩ := exists_trim (c :: t)
  have hblank : ∀ {u v : Text}, c :: t = u ++ v → (∀ x ∈ u, isBlank x = true) → u = [] := by
    intro u v h hu
    cases u with
    | nil => rfl
    | cons x u =>
      rw [← (List.cons.inj h).1] at hu
      exact absurd (hu c List.mem_cons_self) (by rw [hc]; exact Bool.false_ne_true)
  obtain rfl : front = [] := hblank (ht.trans (List.append_assoc _ _ _)) hfront
  cases htrim : trim (c :: t) with
  | nil =>
    rw [htrim] at ht
    have hempty := hblank (v := []) (by simpa using ht) hback
    rw [hempty] at ht
    cases ht
  | cons x u =>
    rw [htrim] at ht
    rw [(List.cons.inj ht).1]
    exact ⟨u, rfl⟩

/-- A character at the end that is not blank stays. -/
theorem exists_trim_concat {c : Char} (hc : isBlank c = false) (t : Text) :
    ∃ u, trim (t ++ [c]) = u ++ [c] := by
  obtain ⟨front, back, ht, hfront, hback, -⟩ := exists_trim (t ++ [c])
  have hblank : ∀ {u v : Text}, t ++ [c] = u ++ v → (∀ x ∈ v, isBlank x = true) → v = [] := by
    intro u v h hv
    rcases List.eq_nil_or_concat v with rfl | ⟨v, x, rfl⟩
    · rfl
    · rw [List.concat_eq_append, ← List.append_assoc] at h
      obtain ⟨-, hx⟩ := List.append_inj' h rfl
      rw [← List.singleton_inj.1 hx] at hv
      exact absurd (hv c (by simp)) (by rw [hc]; exact Bool.false_ne_true)
  obtain rfl : back = [] := hblank ht hback
  rcases List.eq_nil_or_concat (trim (t ++ [c])) with htrim | ⟨u, x, htrim⟩
  · rw [htrim] at ht
    have hempty := hblank (u := []) (by simpa using ht) hfront
    rw [hempty] at ht
    simp at ht
  · rw [htrim, List.concat_eq_append, List.append_nil, ← List.append_assoc] at ht
    obtain ⟨-, hx⟩ := List.append_inj' ht rfl
    rw [htrim, List.concat_eq_append, hx]
    exact ⟨u, rfl⟩

theorem count_trim {c : Char} (hc : isBlank c = false) (t : Text) : t.trim.count c = t.count c := by
  obtain ⟨front, back, ht, hfront, hback, -⟩ := exists_trim t
  have hzero : ∀ {u : Text}, (∀ x ∈ u, isBlank x = true) → u.count c = 0 := by
    intro u hu
    refine List.count_eq_zero.2 fun hmem => ?_
    rw [hu c hmem] at hc
    cases hc
  conv_rhs => rw [ht, List.count_append, List.count_append, hzero hfront, hzero hback]
  omega

/-- What stands between two trimmed texts does not matter. -/
theorem isTrimmed_append {a b : Text} (ha : a.IsTrimmed) (hb : b.IsTrimmed) (hane : a ≠ [])
    (hbne : b ≠ []) (middle : Text) : Text.IsTrimmed (a ++ (middle ++ b)) where
  head c hc := by
    obtain ⟨d, a, rfl⟩ := List.exists_cons_of_ne_nil hane
    exact ha.head c hc
  last c hc := by
    obtain ⟨d, hd⟩ := Option.ne_none_iff_exists'.1 (mt List.getLast?_eq_none_iff.1 hbne)
    rw [← List.append_assoc, List.getLast?_append, hd, Option.some_or] at hc
    exact hb.last c (hd ▸ hc)

/-- White space around a text does not change its trimmed text. -/
theorem trim_append {front back : Text} (hfront : ∀ c ∈ front, isBlank c = true)
    (hback : ∀ c ∈ back, isBlank c = true) (t : Text) : (front ++ t ++ back).trim = t.trim := by
  obtain ⟨f, b, ht, hf, hb, htrim⟩ := exists_trim t
  have hsame : front ++ t ++ back = (front ++ f) ++ t.trim ++ (b ++ back) := by
    conv_lhs => rw [ht]
    simp
  rw [hsame]
  refine trim_eq (fun c hc => ?_) (fun c hc => ?_) htrim
  · exact (List.mem_append.1 hc).elim (hfront c) (hf c)
  · exact (List.mem_append.1 hc).elim (hb c) (hback c)

theorem trim_blanks_append {front : Text} (h : ∀ c ∈ front, isBlank c = true) (t : Text) :
    (front ++ t).trim = t.trim := by
  rw [trim, trimLeft_append h, trim]

theorem trim_append_blanks {back : Text} (h : ∀ c ∈ back, isBlank c = true) (t : Text) :
    (t ++ back).trim = t.trim :=
  @trim_append [] back (by simp) h t

theorem trim_of_blank {t : Text} (h : ∀ c ∈ t, isBlank c = true) : t.trim = [] := by
  rw [← List.append_nil t, trim_blanks_append h]
  rfl

theorem trim_eq_nil_iff {t : Text} : t.trim = [] ↔ t.isEmptyOrBlank = true := by
  refine ⟨fun h => List.all_eq_true.2 fun c hc => ?_, fun h => trim_of_blank (List.all_eq_true.1 h)⟩
  obtain ⟨front, back, hsplit, hfront, hback, -⟩ := exists_trim t
  rw [hsplit, h, List.append_nil] at hc
  exact (List.mem_append.1 hc).elim (hfront c) (hback c)

theorem length_trim_le (t : Text) : t.trim.length ≤ t.length := (trim_isInfix t).length_le

/-- A text without white space. -/
def withoutBlanks (t : Text) : Text := t.filter (! isBlank ·)

theorem withoutBlanks_append (a b : Text) :
    withoutBlanks (a ++ b) = a.withoutBlanks ++ b.withoutBlanks :=
  List.filter_append ..

theorem withoutBlanks_trim (t : Text) : t.trim.withoutBlanks = t.withoutBlanks := by
  obtain ⟨front, back, ht, hfront, hback, -⟩ := exists_trim t
  have hnil : ∀ {u : Text}, (∀ c ∈ u, isBlank c = true) → u.withoutBlanks = [] := fun hu =>
    List.filter_eq_nil_iff.2 fun c hc => by simp [hu c hc]
  conv_rhs => rw [ht, withoutBlanks_append, withoutBlanks_append, hnil hfront, hnil hback,
    List.nil_append, List.append_nil]

/-! ## Parentheses -/

theorem between?_eq_some_iff {opening closing : Char} {t rest : Text} :
    between? opening closing t = some rest ↔ t = opening :: (rest ++ [closing]) := by
  cases t with
  | nil => exact iff_of_false nofun nofun
  | cons c t =>
    rw [between?]
    constructor
    · intro h
      split_ifs at h with hc
      cases h
      obtain ⟨front, rfl⟩ := List.getLast?_eq_some_iff.1 hc.2
      rw [hc.1, List.dropLast_concat]
    · intro h
      cases h
      simp

theorem length_of_between? {opening closing : Char} {t inner : Text}
    (h : between? opening closing t = some inner) : inner.length < t.length := by
  cases t with
  | nil => cases h
  | cons c rest =>
    simp only [between?] at h
    split_ifs at h
    cases h
    rw [List.length_dropLast, List.length_cons]
    omega

/-- As many pairs of parentheses may be taken away as a text has characters. -/
theorem unwrapUpTo_congr : ∀ {m n : Nat} {t : Text}, t.length ≤ m → t.length ≤ n →
    unwrapUpTo m t = unwrapUpTo n t
  | 0, n, t, hm, _ => by
    obtain rfl : t = [] := List.length_eq_zero_iff.1 (Nat.le_zero.1 hm)
    cases n <;> rfl
  | m + 1, 0, t, _, hn => by
    obtain rfl : t = [] := List.length_eq_zero_iff.1 (Nat.le_zero.1 hn)
    rfl
  | m + 1, n + 1, t, hm, hn => by
    rw [unwrapUpTo, unwrapUpTo]
    cases hinner : between? '(' ')' t with
    | none => rfl
    | some inner =>
      have hlt := length_of_between? hinner
      have hle := length_trim_le inner
      simp only
      rw [unwrapUpTo_congr (m := m) (n := n) (by omega) (by omega)]

theorem unwrap_congr {t u : Text} (h : t.trim = u.trim) : t.unwrap = u.unwrap := by
  have ht := length_trim_le t
  have hu := length_trim_le u
  rw [unwrap, unwrap, h]
  exact unwrapUpTo_congr (h ▸ ht) hu

end Text

/-- A condition is read without the white space around it. -/
theorem Condition.read_congr {t u : Text} (h : t.trim = u.trim) :
    Condition.read t = Condition.read u := by
  rw [read, read, Text.unwrap_congr h]

end StepTrace
