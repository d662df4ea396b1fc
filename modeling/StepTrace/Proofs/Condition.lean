import Mathlib.Data.List.Basic
import StepTrace.Proofs.Text.Parentheses

/-!
# Conditions as they are written

A comparison is written as its two sides with its sign between them, with white space around the
sign or without, and with any number of parentheses around the whole (`Condition.Written`). If the
sides are on one line, have matching parentheses and none of the characters of the signs
(`Condition.IsSide`), reading the condition finds these two sides and this comparison
(`Condition.read_of_written`).

So two comparisons of the same sides have opposite answers if they have for all numbers. Equal and
unequal are opposite, less and not less only for what is a number (`Condition.written_comparisons`).
-/

namespace StepTrace

open CharClass

/-! ## Opposite comparisons -/

namespace Number

theorem compares_ne (x y : Number) : compares .ne x y = !compares .eq x y := rfl

theorem compareIntDouble_eq_none {n : Int} {x : Double} (h : compareIntDouble n x = none) :
    x = .nan := by
  cases x with
  | nan => rfl
  | _ => cases h

theorem compareDoubles_eq_none {x y : Double} (h : compareDoubles x y = none) :
    x = .nan ∨ y = .nan := by
  cases x with
  | nan => exact Or.inl rfl
  | _ =>
    cases y with
    | nan => exact Or.inr rfl
    | _ => cases h

/-- Two numbers have an order unless one of them is no number. -/
theorem exists_order? {x y : Number} (hx : x ≠ .float .nan) (hy : y ≠ .float .nan) :
    ∃ o, order? x y = some o := by
  rw [← Option.ne_none_iff_exists']
  intro h
  match x, y with
  | .int _, .int _ => cases h
  | .int _, .float _ => exact hy (congrArg float (compareIntDouble_eq_none h))
  | .float _, .int _ =>
    exact hx (congrArg float (compareIntDouble_eq_none (Option.map_eq_none_iff.1 h)))
  | .float _, .float _ =>
    rcases compareDoubles_eq_none h with h | h
    · exact hx (congrArg float h)
    · exact hy (congrArg float h)

theorem compares_ge {x y : Number} (hx : x ≠ .float .nan) (hy : y ≠ .float .nan) :
    compares .ge x y = !compares .lt x y := by
  obtain ⟨o, ho⟩ := exists_order? hx hy
  rw [compares, compares, ho]
  cases o <;> rfl

end Number

/-! ## Signs -/

/-- The sign of a comparison. -/
def Comparison.sign : Comparison → Text
  | .eq => ['=', '=']
  | .ne => ['!', '=']
  | .ge => ['>', '=']
  | .le => ['<', '=']
  | .gt => ['>']
  | .lt => ['<']

/-- A character of a sign. -/
def Comparison.isSignChar (c : Char) : Bool := c == '=' || c == '!' || c == '<' || c == '>'

namespace Condition

theorem after?_eq_none {t : Text} (h : t.head? ≠ some '=') : Text.after? ['='] t = none := by
  cases t with
  | nil => rfl
  | cons c t => exact if_neg fun hc => h (congrArg some hc.symm)

/-- A sign is found in front. Behind a short sign the long one is not there. -/
theorem comparisonAt?_sign (c : Comparison) {rest : Text} (hrest : rest.head? ≠ some '=')
    (hfilled : Expr.isFilled rest.trimLeft = true) :
    comparisonAt? (c.sign ++ rest) = some (c, rest.trimLeft) := by
  have hlong := after?_eq_none hrest
  cases c <;> simp [comparisonAt?, signs, Comparison.sign, Text.after?, hfilled, hlong]

theorem comparisonAt?_eq_none {t : Text}
    (h : ∀ c ∈ t.head?, Comparison.isSignChar c = false) : comparisonAt? t = none := by
  cases t with
  | nil => rfl
  | cons c t =>
    have hc : Comparison.isSignChar c = false := h c rfl
    simp only [Comparison.isSignChar, Bool.or_eq_false_iff, beq_eq_false_iff_ne] at hc
    obtain ⟨⟨⟨heq, hne⟩, hlt⟩, hgt⟩ := hc
    simp [comparisonAt?, signs, Text.after?, heq.symm, hne.symm, hlt.symm, hgt.symm]

/-! ## Sides -/

/-- A side of a comparison: a trimmed text on one line whose parentheses match, without the
characters of the signs. -/
structure IsSide (t : Text) : Prop where
  ne_nil : t ≠ []
  trimmed : t.IsTrimmed
  line : '\n' ∉ t
  balanced : t.balanced
  signless : ∀ c ∈ t, Comparison.isSignChar c = false

theorem IsSide.isFilled {t : Text} (h : IsSide t) : Expr.isFilled t = true := by
  simp [Expr.isFilled, h.ne_nil, h.line]

theorem IsSide.trimLeft_eq {t : Text} (h : IsSide t) : t.trimLeft = t := by
  obtain ⟨c, rest, rfl⟩ := List.exists_cons_of_ne_nil h.ne_nil
  exact List.dropWhile_cons_of_neg (by simp [h.trimmed.head c rfl])

/-- Behind a sign comes white space or the right side, and neither begins with an equals sign. -/
theorem IsSide.head?_append {b gap : Text} (hb : IsSide b) (hgap : ∀ c ∈ gap, isBlank c = true) :
    (gap ++ b).head? ≠ some '=' := by
  intro h
  have hmem : '=' ∈ gap ++ b := List.mem_of_head? h
  rcases List.mem_append.1 hmem with h | h
  · exact absurd (hgap _ h) (by decide)
  · exact absurd (hb.signless _ h) (by decide)

/-- What is left of a side behind its first characters: it ends in something that is not blank. -/
theorem trimLeft_append_of_last {a : Text} (hlast : ∀ c ∈ a.getLast?, isBlank c = false)
    (hne : a ≠ []) (rest : Text) : ∃ c t, (a ++ rest).trimLeft = c :: t ∧ c ∈ a := by
  induction a with
  | nil => exact absurd rfl hne
  | cons c a ih =>
    cases hc : isBlank c with
    | false =>
      exact ⟨c, a ++ rest, List.dropWhile_cons_of_neg (by simp [hc]), List.mem_cons_self⟩
    | true =>
      cases a with
      | nil => simp [hc] at hlast
      | cons d a =>
        obtain ⟨x, t, hx, hmem⟩ := ih (fun y hy => hlast y (by simpa using hy)) (by simp)
        refine ⟨x, t, ?_, List.mem_cons_of_mem c hmem⟩
        rw [List.cons_append, Text.trimLeft, List.dropWhile_cons_of_pos hc]
        exact hx

/-- The cut is made behind the left side: no sign begins before its end. -/
theorem cut?_eq_of_found {c : Comparison} {right rest : Text}
    (hfound : comparisonAt? rest.trimLeft = some (c, right)) :
    ∀ {a : Text}, a ≠ [] → (∀ x ∈ a.getLast?, isBlank x = false) → '\n' ∉ a →
      (∀ x ∈ a, Comparison.isSignChar x = false) → cut? (a ++ rest) = some (a, c, right)
  | [], hne, _, _, _ => absurd rfl hne
  | [x], _, _, hline, _ => by
    have hx : x ≠ '\n' := fun h => hline (by simp [h])
    rw [List.cons_append, cut?, if_neg hx, List.nil_append, hfound]
  | x :: y :: a, _, hlast, hline, hsign => by
    have hx : x ≠ '\n' := fun h => hline (by simp [h])
    have hlast' : ∀ z ∈ (y :: a).getLast?, isBlank z = false := fun z hz =>
      hlast z (by simpa using hz)
    have hsign' : ∀ z ∈ y :: a, Comparison.isSignChar z = false := fun z hz =>
      hsign z (List.mem_cons_of_mem x hz)
    have hnone : comparisonAt? (Text.trimLeft (y :: a ++ rest)) = none := by
      obtain ⟨z, t, hz, hmem⟩ := trimLeft_append_of_last hlast' (by simp) rest
      rw [hz]
      refine comparisonAt?_eq_none fun w hw => ?_
      cases hw
      exact hsign' z hmem
    have ih := cut?_eq_of_found hfound (a := y :: a) (by simp) hlast'
      (fun h => hline (List.mem_cons_of_mem x h)) hsign'
    rw [List.cons_append, cut?, if_neg hx]
    rw [hnone]
    simp only [ih, Option.map_some]

/-! ## Written comparisons -/

/-- A way to write a comparison: the sign between the sides, white space around it, and any number
of parentheses around the whole. -/
def Written (c : Comparison) (a b t : Text) : Prop :=
  ∃ before behind : Text, (∀ x ∈ before, isBlank x = true) ∧ (∀ x ∈ behind, isBlank x = true) ∧
    Text.Wrapped (a ++ (before ++ (c.sign ++ (behind ++ b)))) t

section Written

variable {c : Comparison} {a b before behind t : Text}

theorem balanced_sign (c : Comparison) : c.sign.balanced := by
  cases c <;> rfl

theorem balanced_core (ha : IsSide a) (hb : IsSide b) (hbefore : ∀ x ∈ before, isBlank x = true)
    (hbehind : ∀ x ∈ behind, isBlank x = true) :
    Text.balanced (a ++ (before ++ (c.sign ++ (behind ++ b)))) := by
  refine Text.balanced_append ha.balanced ?_
  refine Text.balanced_append (Text.balanced_of_isBlank hbefore) ?_
  refine Text.balanced_append (balanced_sign c) ?_
  exact Text.balanced_append (Text.balanced_of_isBlank hbehind) hb.balanced

theorem isTrimmed_core (ha : IsSide a) (hb : IsSide b) (middle : Text) :
    Text.IsTrimmed (a ++ (middle ++ b)) := by
  refine ⟨fun x hx => ha.trimmed.head x ?_, fun x hx => hb.trimmed.last x ?_⟩
  · obtain ⟨y, rest, rfl⟩ := List.exists_cons_of_ne_nil ha.ne_nil
    exact hx
  · rwa [← List.append_assoc, List.getLast?_append_of_ne_nil _ hb.ne_nil] at hx

/-- The parentheses of the left side are its own: they are not those around the comparison. -/
theorem unwrap_core (ha : IsSide a) (hb : IsSide b) (middle : Text) :
    Text.unwrap (a ++ (middle ++ b)) = a ++ (middle ++ b) := by
  have htrim := (isTrimmed_core ha hb middle).trim_eq
  refine (Text.unwrap_eq_trim fun inner hinner => ?_).trans htrim
  rw [htrim] at hinner
  obtain ⟨x, rest, rfl⟩ := List.exists_cons_of_ne_nil ha.ne_nil
  rw [List.cons_append, Text.between?] at hinner
  split_ifs at hinner with hx
  obtain ⟨rfl, -⟩ := hx
  cases hinner
  have hrest : Text.balancedFrom 1 rest = true := by
    rw [← Nat.zero_add 1, ← Text.balancedFrom_opening]
    exact ha.balanced
  have hright : middle ++ b ≠ [] := by simp [hb.ne_nil]
  rw [List.dropLast_append_of_ne_nil hright]
  exact Text.balancedFrom_of_succ hrest _

theorem cut?_core (ha : IsSide a) (hb : IsSide b) (hbefore : ∀ x ∈ before, isBlank x = true)
    (hbehind : ∀ x ∈ behind, isBlank x = true) :
    cut? (a ++ (before ++ (c.sign ++ (behind ++ b)))) = some (a, c, b) := by
  refine cut?_eq_of_found ?_ ha.ne_nil ha.trimmed.last ha.line ha.signless
  have hright : (behind ++ b).trimLeft = b := by
    rw [Text.trimLeft_append hbehind, hb.trimLeft_eq]
  have hsign : (c.sign ++ (behind ++ b)).trimLeft = c.sign ++ (behind ++ b) := by
    cases c <;> exact List.dropWhile_cons_of_neg (by decide)
  rw [Text.trimLeft_append hbefore, hsign,
    comparisonAt?_sign c (hb.head?_append hbehind) (by rw [hright]; exact hb.isFilled), hright]

/-- A text with a sign in it is none of the words for true and false. -/
theorem ne_of_sign {w : Text} (hw : ∀ x ∈ w, Comparison.isSignChar x = false) (c : Comparison)
    (front rest : Text) : front ++ (c.sign ++ rest) ≠ w := by
  intro h
  obtain ⟨x, hx, hsign⟩ : ∃ x ∈ c.sign, Comparison.isSignChar x = true := by
    cases c <;> exact ⟨_, List.mem_cons_self, rfl⟩
  have hmem : x ∈ w := h ▸ List.mem_append_right _ (List.mem_append_left _ hx)
  exact absurd (hw x hmem) (by simp [hsign])

/-- A comparison is read as it was written. -/
theorem read_of_written (ha : IsSide a) (hb : IsSide b) (h : Written c a b t) :
    read t = .compares c (Expr.read a) (Expr.read b) := by
  obtain ⟨before, behind, hbefore, hbehind, hwrapped⟩ := h
  have hbody : t.unwrap = a ++ (before ++ (c.sign ++ (behind ++ b))) := by
    rw [hwrapped.unwrap_eq (balanced_core ha hb hbefore hbehind)]
    simpa using unwrap_core ha hb (before ++ (c.sign ++ behind))
  have hword : ∀ w : Text, (∀ x ∈ w, Comparison.isSignChar x = false) →
      a ++ (before ++ (c.sign ++ (behind ++ b))) ≠ w := fun w hw => by
    simpa using ne_of_sign hw c (a ++ before) (behind ++ b)
  have htrue := not_or.2 ⟨hword "true".toList (by decide), hword "True".toList (by decide)⟩
  have hfalse := not_or.2 ⟨hword "false".toList (by decide), hword "False".toList (by decide)⟩
  rw [read, hbody, if_neg htrue, if_neg hfalse, cut?_core ha hb hbefore hbehind]

end Written

/-- The answer to a condition that was written as a comparison is the comparison of the values of
its sides. Unequal is the opposite of equal, and not less is the opposite of less unless one of the
sides is no number. -/
theorem written_comparisons {a b : Text} (ha : IsSide a) (hb : IsSide b) (s : Store) :
    (∀ c t, Written c a b t → (read t).eval s = do
      let x ← (Expr.read a).eval s
      let y ← (Expr.read b).eval s
      return Number.compares c x y) ∧
    (∀ t t', Written .eq a b t → Written .ne a b t' →
      (read t').eval s = ((read t).eval s).map (!·)) ∧
    ((Expr.read a).eval s ≠ .ok (.float .nan) → (Expr.read b).eval s ≠ .ok (.float .nan) →
      ∀ t t', Written .lt a b t → Written .ge a b t' →
        (read t').eval s = ((read t).eval s).map (!·)) := by
  refine ⟨fun c t h => ?_, fun t t' h h' => ?_, fun hna hnb t t' h h' => ?_⟩
  · rw [read_of_written ha hb h, eval]
  · rw [read_of_written ha hb h, read_of_written ha hb h', eval, eval]
    cases (Expr.read a).eval s with
    | error f => rfl
    | ok x =>
      cases (Expr.read b).eval s with
      | error f => rfl
      | ok y => exact congrArg Except.ok (Number.compares_ne x y)
  · rw [read_of_written ha hb h, read_of_written ha hb h', eval, eval]
    cases hx : (Expr.read a).eval s with
    | error f => rfl
    | ok x =>
      cases hy : (Expr.read b).eval s with
      | error f => rfl
      | ok y =>
        have hxn : x ≠ .float .nan := fun h => hna (by rw [hx, h])
        have hyn : y ≠ .float .nan := fun h => hnb (by rw [hy, h])
        exact congrArg Except.ok (Number.compares_ge hxn hyn)

theorem written_comparisons_wrapped :
    let s := Store.ofList [("x".toList, .num (.int 3)), ("y".toList, .num (.int 1))]
    (read "( ((x)<=\ny + 2) )".toList).eval s = .ok true ∧
      (read "(x)==y + 2".toList).eval s = .ok true ∧
      (read "((x) != y + 2)".toList).eval s = .ok false ∧
      (read "(x) < y + 2".toList).eval s = .ok false ∧
      (read "(x)>=y + 2".toList).eval s = .ok true := by
  intro s
  have ha : IsSide "(x)".toList :=
    ⟨by decide, ⟨by decide, by decide⟩, by decide, by decide, by decide⟩
  have hb : IsSide "y + 2".toList :=
    ⟨by decide, ⟨by decide, by decide⟩, by decide, by decide, by decide⟩
  obtain ⟨hvalue, hunequal, hless⟩ := written_comparisons ha hb s
  have hle : Written .le "(x)".toList "y + 2".toList "( ((x)<=\ny + 2) )".toList :=
    ⟨[], ['\n'], by decide, by decide,
      .parens (@Text.Wrapped.spaced _ _ [' '] [' '] (.parens .bare) (by decide) (by decide))⟩
  have heq : Written .eq "(x)".toList "y + 2".toList "(x)==y + 2".toList :=
    ⟨[], [], by decide, by decide, .bare⟩
  have hne : Written .ne "(x)".toList "y + 2".toList "((x) != y + 2)".toList :=
    ⟨[' '], [' '], by decide, by decide, .parens .bare⟩
  have hlt : Written .lt "(x)".toList "y + 2".toList "(x) < y + 2".toList :=
    ⟨[' '], [' '], by decide, by decide, .bare⟩
  have hge : Written .ge "(x)".toList "y + 2".toList "(x)>=y + 2".toList :=
    ⟨[], [], by decide, by decide, .bare⟩
  have hequal : (read "(x)==y + 2".toList).eval s = .ok true :=
    (hvalue _ _ heq).trans (by decide +kernel)
  have hsmaller : (read "(x) < y + 2".toList).eval s = .ok false :=
    (hvalue _ _ hlt).trans (by decide +kernel)
  refine ⟨(hvalue _ _ hle).trans (by decide +kernel), hequal, ?_, hsmaller, ?_⟩
  · rw [hunequal _ _ heq hne, hequal]
    rfl
  · rw [hless (by decide +kernel) (by decide +kernel) _ _ hlt hge, hsmaller]
    rfl

end Condition

end StepTrace
