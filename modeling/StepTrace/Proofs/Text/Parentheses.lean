import StepTrace.Proofs.Text.Trim

/-!
# Parentheses around a text

A text whose parentheses match can stand between other texts without changing how those match
(`Text.balancedFrom_append`). Such a text may have pairs of parentheses around it, with white space
anywhere between them (`Text.Wrapped`), and taking the outer parentheses away gives the same
whether they are there or not (`Text.Wrapped.unwrap_eq`).

Nothing more is taken away. The first and the last character of a text can be parentheses that do
not belong together, as in `(a) < (b)`, and then what is between them does not match
(`Text.balancedFrom_of_succ`).
-/

namespace StepTrace.Text

open CharClass

/-! ## Matching -/

@[simp] theorem balancedFrom_opening (d : Nat) (t : Text) :
    balancedFrom d ('(' :: t) = balancedFrom (d + 1) t := by
  cases d <;> rfl

@[simp] theorem balancedFrom_closing_zero (t : Text) : balancedFrom 0 (')' :: t) = false := rfl

@[simp] theorem balancedFrom_closing_succ (d : Nat) (t : Text) :
    balancedFrom (d + 1) (')' :: t) = balancedFrom d t := rfl

theorem balancedFrom_other (d : Nat) {c : Char} (t : Text) (hopen : c ≠ '(') (hclose : c ≠ ')') :
    balancedFrom d (c :: t) = balancedFrom d t := by
  cases d <;> simp [balancedFrom, hopen, hclose]

/-- What matches from a depth on closes that many parentheses and leaves the others. -/
theorem balancedFrom_append {a : Text} {k : Nat} (h : balancedFrom k a = true) (d : Nat)
    (b : Text) : balancedFrom (k + d) (a ++ b) = balancedFrom d b := by
  fun_induction balancedFrom k a with
  | case1 k =>
    rw [beq_iff_eq.1 h, Nat.zero_add, List.nil_append]
  | case2 k a ih =>
    rw [List.cons_append, balancedFrom_opening, Nat.add_right_comm]
    exact ih h
  | case3 => exact absurd h Bool.false_ne_true
  | case4 a k _ ih =>
    rw [List.cons_append, Nat.succ_add, balancedFrom_closing_succ]
    exact ih h
  | case5 k c a hopen hclose ih =>
    rw [List.cons_append, balancedFrom_other _ _ hopen hclose]
    exact ih h

theorem balanced_append {a b : Text} (ha : a.balanced) (hb : b.balanced) : (a ++ b).balanced :=
  (balancedFrom_append ha 0 b).trans hb

/-- Without one of the parentheses it closes a text does not match, whatever follows. -/
theorem balancedFrom_of_succ {a : Text} {d : Nat} (h : balancedFrom (d + 1) a = true) (b : Text) :
    balancedFrom d (a ++ b) = false := by
  fun_induction balancedFrom d a with
  | case1 d => exact absurd (beq_iff_eq.1 h) (Nat.succ_ne_zero d)
  | case2 d a ih =>
    rw [List.cons_append, balancedFrom_opening]
    exact ih ((balancedFrom_opening _ _).symm.trans h)
  | case3 => rfl
  | case4 a d _ ih =>
    rw [List.cons_append, balancedFrom_closing_succ]
    exact ih h
  | case5 d c a hopen hclose ih =>
    rw [balancedFrom_other _ _ hopen hclose] at h
    rw [List.cons_append, balancedFrom_other _ _ hopen hclose]
    exact ih h

theorem balanced_of_forall {a : Text} (h : ∀ c ∈ a, c ≠ '(' ∧ c ≠ ')') : a.balanced := by
  induction a with
  | nil => rfl
  | cons c a ih =>
    obtain ⟨hopen, hclose⟩ := h c List.mem_cons_self
    rw [balanced, balancedFrom_other _ _ hopen hclose]
    exact ih fun x hx => h x (List.mem_cons_of_mem c hx)

theorem balanced_of_isBlank {a : Text} (h : ∀ c ∈ a, isBlank c = true) : a.balanced := by
  refine balanced_of_forall fun c hc => ⟨?_, ?_⟩
  all_goals
    rintro rfl
    exact absurd (h _ hc) (by decide)

theorem balanced_parens {t : Text} (h : t.balanced) : Text.balanced ('(' :: (t ++ [')'])) := by
  rw [balanced, balancedFrom_opening, Nat.add_comm]
  exact balancedFrom_append h 1 [')']

/-- As many parentheses are closed as were open and are opened. -/
theorem count_of_balancedFrom {t : Text} {d : Nat} (h : balancedFrom d t = true) :
    t.count ')' = d + t.count '(' := by
  fun_induction balancedFrom d t with
  | case1 d => exact (beq_iff_eq.1 h).symm
  | case2 d t ih =>
    have ih := ih h
    rw [List.count_cons_self, List.count_cons_of_ne (by decide)]
    omega
  | case3 => exact absurd h Bool.false_ne_true
  | case4 t d _ ih =>
    have ih := ih h
    rw [List.count_cons_self, List.count_cons_of_ne (by decide)]
    omega
  | case5 d c t hopen hclose ih =>
    rw [List.count_cons_of_ne hclose, List.count_cons_of_ne hopen]
    exact ih h

/-- At no place more are closed than were open and have been opened. -/
theorem count_le_of_balancedFrom {a b : Text} {d : Nat} (h : balancedFrom d (a ++ b) = true) :
    a.count ')' ≤ d + a.count '(' := by
  fun_induction balancedFrom d a with
  | case1 => exact Nat.zero_le _
  | case2 d a ih =>
    rw [List.cons_append, balancedFrom_opening] at h
    have ih := ih h
    rw [List.count_cons_self, List.count_cons_of_ne (by decide)]
    omega
  | case3 a => exact absurd h Bool.false_ne_true
  | case4 a d _ ih =>
    rw [List.cons_append, balancedFrom_closing_succ] at h
    have ih := ih h
    rw [List.count_cons_self, List.count_cons_of_ne (by decide)]
    omega
  | case5 d c a hopen hclose ih =>
    rw [List.cons_append, balancedFrom_other _ _ hopen hclose] at h
    rw [List.count_cons_of_ne hclose, List.count_cons_of_ne hopen]
    exact ih h

/-- The end of a text that matches opens no more parentheses than it closes. -/
theorem count_le_of_balanced {a b : Text} (h : (a ++ b).balanced) : b.count '(' ≤ b.count ')' := by
  have hall := count_of_balancedFrom h
  have hfront := count_le_of_balancedFrom h
  simp only [List.count_append] at hall
  omega

/-! ## Taking parentheses away -/

theorem isTrimmed_parens (t : Text) : IsTrimmed ('(' :: (t ++ [')'])) :=
  isTrimmed_enclosed (by decide) (by decide) t

/-- Parentheses around a whole text do not matter. -/
theorem unwrap_parens {t : Text} (h : t.balanced) : unwrap ('(' :: (t ++ [')'])) = t.unwrap := by
  have hbetween : between? '(' ')' ('(' :: (t ++ [')'])) = some t := by simp [between?]
  have hlen : ('(' :: (t ++ [')'])).length = t.length + 1 + 1 := by simp
  rw [unwrap, (isTrimmed_parens t).trim_eq, hlen, unwrapUpTo, hbetween]
  show (if t.balanced then unwrapUpTo (t.length + 1) t.trim else _) = _
  rw [if_pos h, unwrap]
  exact unwrapUpTo_congr (Nat.le_succ_of_le (length_trim_le t)) (length_trim_le t)

/-- Parentheses at both ends that do not belong together are left where they are. -/
theorem unwrap_eq_trim {t : Text}
    (h : ∀ inner, between? '(' ')' t.trim = some inner → inner.balanced = false) :
    t.unwrap = t.trim := by
  rw [unwrap]
  cases t.length with
  | zero => rfl
  | succ n =>
    rw [unwrapUpTo]
    cases hinner : between? '(' ')' t.trim with
    | none => rfl
    | some inner =>
      simp only
      rw [h inner hinner, if_neg Bool.false_ne_true]

theorem unwrap_of_head? {t : Text} (h : t.trim.head? ≠ some '(') : t.unwrap = t.trim := by
  refine unwrap_eq_trim fun inner hinner => ?_
  cases htrim : t.trim with
  | nil =>
    rw [htrim] at hinner
    cases hinner
  | cons c rest =>
    rw [htrim] at hinner h
    simp only [between?] at hinner
    split_ifs at hinner with hc
    exact absurd (congrArg some hc.1) h

/-! ## Any number of pairs -/

/-- A text with any number of pairs of parentheses around it, and with white space around each of
them. -/
inductive Wrapped (core : Text) : Text → Prop
  | bare : Wrapped core core
  | parens {t : Text} (h : Wrapped core t) : Wrapped core ('(' :: (t ++ [')']))
  | spaced {t front back : Text} (h : Wrapped core t) (hfront : ∀ c ∈ front, isBlank c = true)
    (hback : ∀ c ∈ back, isBlank c = true) : Wrapped core (front ++ t ++ back)

namespace Wrapped

variable {core t : Text}

theorem balanced (h : Wrapped core t) (hcore : core.balanced) : t.balanced := by
  induction h with
  | bare => exact hcore
  | parens _ ih => exact balanced_parens ih
  | spaced _ hfront hback ih =>
    exact balanced_append (balanced_append (balanced_of_isBlank hfront) ih)
      (balanced_of_isBlank hback)

/-- The pairs around a text are taken away, and the white space with them. -/
theorem unwrap_eq (h : Wrapped core t) (hcore : core.balanced) : t.unwrap = core.unwrap := by
  induction h with
  | bare => rfl
  | parens h ih => rw [unwrap_parens (h.balanced hcore), ih]
  | spaced _ hfront hback ih => rw [unwrap_congr (trim_append hfront hback _), ih]

end Wrapped

theorem wrapped_unwrapUpTo : ∀ (count : Nat) (t : Text), Wrapped (unwrapUpTo count t) t
  | 0, t => .bare
  | count + 1, t => by
    rw [unwrapUpTo]
    cases hinner : between? '(' ')' t with
    | none => exact .bare
    | some inner =>
      dsimp only
      split_ifs
      · obtain ⟨front, back, ht, hfront, hback, -⟩ := exists_trim inner
        rw [between?_eq_some_iff.1 hinner]
        refine .parens ?_
        have hwrapped := Wrapped.spaced (wrapped_unwrapUpTo count inner.trim) hfront hback
        rwa [← ht] at hwrapped
      · exact .bare

/-- Only pairs of parentheses and white space are taken away. -/
theorem wrapped_unwrap (t : Text) : Wrapped t.unwrap t := by
  obtain ⟨front, back, ht, hfront, hback, -⟩ := exists_trim t
  have hwrapped := Wrapped.spaced (wrapped_unwrapUpTo t.length t.trim) hfront hback
  rwa [← ht] at hwrapped

theorem isTrimmed_unwrapUpTo : ∀ (count : Nat) {t : Text}, t.IsTrimmed →
    (unwrapUpTo count t).IsTrimmed
  | 0, _, ht => ht
  | count + 1, t, ht => by
    rw [unwrapUpTo]
    cases between? '(' ')' t with
    | none => exact ht
    | some inner =>
      dsimp only
      split_ifs
      · exact isTrimmed_unwrapUpTo count (isTrimmed_trim inner)
      · exact ht

theorem isTrimmed_unwrap (t : Text) : t.unwrap.IsTrimmed :=
  isTrimmed_unwrapUpTo _ (isTrimmed_trim t)

end StepTrace.Text
