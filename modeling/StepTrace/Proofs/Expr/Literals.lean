import StepTrace.Proofs.Expr.Operand

/-!
# Literals between operators

The scan for an operator passes a literal whole unless its exponent has a sign of its own
(`Numeral.isPassed`): behind the mark of the exponent that sign is taken for an operator
(`Numeral.cut?_of_signed`). So two literals with an operator between them are read as they stand if
the left one has no such exponent, and cut in the middle of the left one otherwise
(`Expr.read_literals`). The right one can have any form.
-/

namespace StepTrace

open CharClass

/-! ## Numerals in a scan -/

namespace Numeral

open StepTrace.Expr

variable (n : Numeral)

/-- The exponent has a sign of its own. -/
def hasSignedExponent : Bool := n.exponent.any fun e => e.sign != .absent

theorem isInert_of_mem_mantissa {c : Char} (h : c ∈ n.mantissa) : isInert c = true := by
  rcases n.mem_mantissa h with h | rfl
  · exact isInert_of_isDecimal h
  · decide

/-- A part of a numeral that begins with the mantissa and has no further sign is passed. -/
theorem isPassed_append {rest : Text} (hrest : ∀ c ∈ rest, isInert c = true)
    (hmem : ∀ c ∈ rest, c ∈ n.text) : IsPassed (n.sign.text ++ (n.mantissa ++ rest)) := by
  have hinert : ∀ c ∈ n.mantissa ++ rest, isInert c = true := fun c hc =>
    (List.mem_append.1 hc).elim n.isInert_of_mem_mantissa (hrest c)
  have htext : ∀ c ∈ n.mantissa ++ rest, c ∈ n.text := fun c hc =>
    (List.mem_append.1 hc).elim
      (fun h => List.mem_append_right _ (List.mem_append_left _ h)) (hmem c)
  have hne : n.mantissa ++ rest ≠ [] := by simp [n.mantissa_ne_nil]
  have hlast := htext _ (List.getLast_mem hne)
  refine isPassed_of_sign n.sign hinert (List.getLast?_eq_some_getLast hne)
    (n.not_isBlank_of_mem hlast) ?_
  intro hcomma
  exact n.not_mem_text (by decide) (by decide) (hcomma ▸ hlast)

theorem isPassed (h : n.hasSignedExponent = false) : IsPassed n.text := by
  refine n.isPassed_append (fun c hc => ?_)
    fun c hc => List.mem_append_right _ (List.mem_append_right _ hc)
  cases he : n.exponent with
  | none =>
    rw [tail, he] at hc
    cases hc
  | some e =>
    have hsign : e.sign = .absent := by simpa [hasSignedExponent, he] using h
    rw [tail, he, Option.elim_some, Exponent.text, hsign, Sign.text, List.nil_append] at hc
    rcases List.mem_cons.1 hc with rfl | hc
    · rcases e.isMark with h | h <;> rw [h] <;> decide
    · exact isInert_of_isDecimal (e.isDigits c hc)

/-- The sign of an exponent is taken for an operator. -/
theorem cut?_of_signed {e : Exponent} (he : n.exponent = some e) {op : Operator}
    (hsign : e.sign.text = [op.toChar]) :
    Scan.start.cut? n.text = some (n.sign.text ++ (n.mantissa ++ [e.mark]), op, e.digits) := by
  have htext : n.text = n.sign.text ++ (n.mantissa ++ [e.mark]) ++ op.toChar :: e.digits := by
    simp [text, tail, he, Exponent.text, hsign]
  have hpassed : IsPassed (n.sign.text ++ (n.mantissa ++ [e.mark])) := by
    refine n.isPassed_append (fun c hc => ?_) fun c hc => ?_
    · rw [List.mem_singleton.1 hc]
      rcases e.isMark with h | h <;> rw [h] <;> decide
    · rw [htext]
      exact List.mem_append_left _ (List.mem_append_right _ (List.mem_append_right _ hc))
  rw [htext]
  exact hpassed.cut? op e.digits

/-- An exponent with a sign, by the operator that the sign is taken for. -/
theorem exists_of_hasSignedExponent (h : n.hasSignedExponent = true) :
    ∃ e op, n.exponent = some e ∧ e.sign.text = [Operator.toChar op] := by
  obtain ⟨e, he, hsign⟩ := (Option.any_eq_true _ _).1 h
  cases hs : e.sign with
  | absent =>
    rw [hs] at hsign
    cases hsign
  | plus => exact ⟨e, .add, he, by rw [hs]; rfl⟩
  | minus => exact ⟨e, .sub, he, by rw [hs]; rfl⟩

end Numeral

namespace Expr

/-! ## Signs of exponents -/

/-- The operator stands right behind the mark of an exponent. -/
def IsAtExponent (t left : Text) (op : Operator) (right : Text) : Prop :=
  t = left ++ op.toChar :: right ∧ (left.getLast? = some 'e' ∨ left.getLast? = some 'E')

section Exponents

variable {n : Numeral} {left right : Text} {op : Operator}

/-- The first sign behind the mark of an exponent is where a numeral is cut. -/
theorem cut?_of_isAtExponent (h : IsAtExponent n.text left op right)
    (hleft : Scan.start.cut? left = none) : Scan.start.cut? n.text = some (left, op, right) := by
  obtain ⟨htext, hmark⟩ := h
  have hflat : ∀ c ∈ left, isFlat c = true := fun c hc =>
    isFlat_of_mem_numeral (htext ▸ List.mem_append_left _ hc)
  have hpassed : IsPassed left := by
    refine ⟨hleft, Scan.nesting_after_of_isFlat rfl hflat, ?_⟩
    rcases hmark with hmark | hmark <;> rw [Scan.previous_after hmark (by decide)] <;> decide
  rw [htext]
  exact hpassed.cut? op right

/-- What stands in front of the sign of the exponent is passed: a cut there would leave the sign
among the digits. -/
theorem uncut_of_isAtExponent (h : IsAtExponent n.text left op right) :
    Scan.start.cut? left = none := by
  rw [Option.eq_none_iff_forall_ne_some]
  rintro ⟨l, op', r⟩ hcut
  have hwhole := Scan.cut?_append_of_some hcut (op.toChar :: right)
  rw [← h.1] at hwhole
  cases hsigned : n.hasSignedExponent with
  | false =>
    rw [(n.isPassed hsigned).uncut] at hwhole
    cases hwhole
  | true =>
    obtain ⟨e, op'', he, hsign⟩ := n.exists_of_hasSignedExponent hsigned
    rw [n.cut?_of_signed he hsign] at hwhole
    have hmem : op.toChar ∈ e.digits := by
      rw [(Prod.mk.inj (Prod.mk.inj (Option.some.inj hwhole)).2).2]
      simp
    have hdigit := e.isDigits _ hmem
    revert hdigit
    cases op <;> decide

/-- A sign behind the mark of an exponent is the sign of the exponent. -/
theorem exists_of_isAtExponent (h : IsAtExponent n.text left op right) :
    ∃ e, n.exponent = some e ∧ left = n.sign.text ++ (n.mantissa ++ [e.mark]) ∧
      right = e.digits := by
  have hcut := cut?_of_isAtExponent h (uncut_of_isAtExponent h)
  cases hsigned : n.hasSignedExponent with
  | false =>
    rw [(n.isPassed hsigned).uncut] at hcut
    cases hcut
  | true =>
    obtain ⟨e, op', he, hsign⟩ := n.exists_of_hasSignedExponent hsigned
    rw [n.cut?_of_signed he hsign] at hcut
    cases hcut
    exact ⟨e, he, rfl, rfl⟩

theorem isPassed_of_not_isAtExponent
    (h : ∀ left op right, ¬IsAtExponent n.text left op right) : IsPassed n.text := by
  refine n.isPassed (Bool.eq_false_iff.2 fun hsigned => ?_)
  obtain ⟨e, op, he, hsign⟩ := n.exists_of_hasSignedExponent hsigned
  refine h _ op e.digits ⟨Scan.eq_of_cut? (n.cut?_of_signed he hsign), ?_⟩
  rw [← List.append_assoc, List.getLast?_concat, Option.some_inj, Option.some_inj]
  exact e.isMark

/-- A numeral that breaks off behind the mark of its exponent is no literal. -/
theorem isNameless_of_isAtExponent (h : IsAtExponent n.text left op right) : IsNameless left := by
  have htrim : left.IsTrimmed := Text.isTrimmed_of_forall fun c hc =>
    n.not_isBlank_of_mem (h.1 ▸ List.mem_append_left _ hc)
  have hne : left ≠ [] := by
    rintro rfl
    rcases h.2 with hmark | hmark <;> cases hmark
  refine ⟨htrim, hne, fun c hc => ?_, ?_⟩
  · obtain ⟨d, rest, rfl⟩ := List.exists_cons_of_ne_nil hne
    exact not_isNameStart_of_head? (n := n) (by rw [h.1]; exact hc)
  · obtain ⟨e, -, hleft, -⟩ := exists_of_isAtExponent h
    have hmark : ∀ c ∈ [e.mark].head?, isDecimal c = false ∧ c ≠ '.' := by
      rintro c hc
      cases hc
      refine ⟨e.not_isDecimal_mark, ?_⟩
      rcases e.isMark with hm | hm <;> rw [hm] <;> decide
    have hexponent : Literal.exponent? [e.mark] = none := by
      rcases e.isMark with hm | hm <;> rw [hm] <;> rfl
    rw [Number.ofLiteral?, htrim.trim_eq, hleft, n.ofText?_append hmark, hexponent]
    rfl

/-- There is no white space inside of a literal. -/
theorem ofLiteral?_of_mem {t : Text} {c : Char} (h : c ∈ t.trim) (hc : isBlank c = true) :
    Number.ofLiteral? t = none := by
  rw [Option.eq_none_iff_forall_ne_some]
  intro x hx
  obtain ⟨n, hn, -⟩ := Number.ofLiteral?_eq_some_iff.1 hx
  rw [n.not_isBlank_of_mem (hn ▸ h)] at hc
  cases hc

/-- The digits of an exponent with white space somewhere behind them. -/
theorem isNameless_digits (e : Exponent) {rest : Text}
    (htrim : Text.IsTrimmed (e.digits ++ rest)) {c : Char} (h : c ∈ rest)
    (hc : isBlank c = true) : IsNameless (e.digits ++ rest) := by
  obtain ⟨d, digits, hdigits⟩ := List.exists_cons_of_ne_nil e.filled
  refine ⟨htrim, by simp [e.filled], fun x hx => ?_, ?_⟩
  · rw [hdigits] at hx
    obtain rfl : d = x := Option.some.inj hx
    have hdecimal := e.isDigits d (hdigits ▸ List.mem_cons_self)
    rw [Bool.eq_false_iff]
    intro hstart
    rw [not_isDecimal_of_isNameStart hstart] at hdecimal
    cases hdecimal
  · refine ofLiteral?_of_mem (c := c) ?_ hc
    rw [htrim.trim_eq]
    exact List.mem_append_right _ h

end Exponents

/-! ## Two literals with an operator -/

/-- Two operands with the operator between them, and a space on either side of it. -/
def spaced (a : Text) (op : Operator) (b : Text) : Text := a ++ ' ' :: op.toChar :: ' ' :: b

section Spaced

variable {a b : Text} {x y : Number}

theorem trim_spaced (ha : a.trim ≠ []) (hb : b.trim ≠ []) (op : Operator) :
    ∃ before behind, (∀ c ∈ before, isBlank c = true) ∧ (∀ c ∈ behind, isBlank c = true) ∧
      ' ' ∈ before ∧
      (spaced a op b).trim = a.trim ++ (before ++ op.toChar :: (behind ++ b.trim)) := by
  obtain ⟨front, before, hfront, hfrontBlank, hbefore, -⟩ := Text.exists_trim a
  obtain ⟨behind, back, hback, hbehind, hbackBlank, -⟩ := Text.exists_trim b
  have hcore : Text.IsTrimmed
      (a.trim ++ ((before ++ ' ' :: op.toChar :: ' ' :: behind) ++ b.trim)) :=
    Text.isTrimmed_append (Text.isTrimmed_trim a) (Text.isTrimmed_trim b) ha hb _
  have htrim := Text.trim_eq hfrontBlank hbackBlank hcore
  refine ⟨before ++ [' '], ' ' :: behind, ?_, ?_, by simp, ?_⟩
  · exact List.forall_mem_append.2 ⟨hbefore, by decide⟩
  · exact List.forall_mem_cons.2 ⟨by decide, hbehind⟩
  · rw [spaced]
    conv_lhs => rw [hfront, hback]
    simpa using htrim

/-- A left literal that is passed whole is read as it stands. -/
theorem read_of_isPassed (ha : Number.ofLiteral? a = some x) (hb : Number.ofLiteral? b = some y)
    (hpassed : IsPassed a.trim) (op : Operator) :
    read (spaced a op b) = .binary op (.literal x) (.literal y) := by
  obtain ⟨m, hm, -⟩ := Number.ofLiteral?_eq_some_iff.1 ha
  obtain ⟨n, hn, -⟩ := Number.ofLiteral?_eq_some_iff.1 hb
  have hane : a.trim ≠ [] := hm ▸ m.text_ne_nil
  have hbne : b.trim ≠ [] := hn ▸ n.text_ne_nil
  obtain ⟨before, behind, hbefore, hbehind, hspace, ht⟩ := trim_spaced hane hbne op
  have hcut : cut? (spaced a op b).trim = some (a.trim, op, b.trim) := by
    rw [ht]
    exact cut?_binary hpassed hane (Text.isTrimmed_trim a) hbne (Text.isTrimmed_trim b)
      hbefore hbehind op
  have hliteral : Number.ofLiteral? (spaced a op b) = none :=
    ofLiteral?_of_mem (ht ▸ List.mem_append_right _ (List.mem_append_left _ hspace)) (by decide)
  rw [read_of_cut hliteral hcut, operand_of_literal ((Number.ofLiteral?_trim a).trans ha),
    operand_of_literal ((Number.ofLiteral?_trim b).trans hb)]

/-- A left literal with a sign in its exponent is cut there, and neither side has a meaning. -/
theorem read_of_isAtExponent {left digits : Text} {sign : Operator}
    (ha : Number.ofLiteral? a = some x) (hb : Number.ofLiteral? b = some y)
    (h : IsAtExponent a.trim left sign digits) (op : Operator) :
    ∃ right, (spaced a op b).trim = left ++ sign.toChar :: right ∧
      IsNameless left ∧ IsNameless right ∧
      read (spaced a op b) = .binary sign (operand left) (operand right) := by
  obtain ⟨m, hm, -⟩ := Number.ofLiteral?_eq_some_iff.1 ha
  obtain ⟨n, hn, -⟩ := Number.ofLiteral?_eq_some_iff.1 hb
  have hbne : b.trim ≠ [] := hn ▸ n.text_ne_nil
  obtain ⟨before, behind, -, -, hspace, ht⟩ := trim_spaced (hm ▸ m.text_ne_nil) hbne op
  rw [← hm] at h
  obtain ⟨e, -, -, rfl⟩ := exists_of_isAtExponent h
  have hcut := Scan.cut?_append_of_some (cut?_of_isAtExponent h (uncut_of_isAtExponent h))
    (before ++ op.toChar :: (behind ++ b.trim))
  rw [hm, ← ht] at hcut
  -- The digits of the exponent go to the right side, together with the other literal.
  have htrim : Text.IsTrimmed (e.digits ++ (before ++ op.toChar :: (behind ++ b.trim))) := by
    have hdigits : Text.IsTrimmed e.digits := Text.isTrimmed_of_forall fun c hc =>
      m.not_isBlank_of_mem (h.1 ▸ List.mem_append_right _ (List.mem_cons_of_mem _ hc))
    simpa using Text.isTrimmed_append hdigits (Text.isTrimmed_trim b) e.filled hbne
      (before ++ op.toChar :: behind)
  have hleft := isNameless_of_isAtExponent h
  have hright := isNameless_digits e htrim (List.mem_append_left _ hspace) (by decide)
  have hliteral : Number.ofLiteral? (spaced a op b) = none :=
    ofLiteral?_of_mem (ht ▸ List.mem_append_right _ (List.mem_append_left _ hspace)) (by decide)
  refine ⟨_, Scan.eq_of_cut? hcut, hleft, hright, ?_⟩
  have hparts := cut?_of_scan hcut (by rw [hleft.trimmed.trim_eq]; exact hleft.filled)
    (by rw [htrim.trim_eq]; exact hright.filled)
  rw [read_of_cut hliteral hparts, hleft.trimmed.trim_eq, htrim.trim_eq]

end Spaced

/-- A literal is no expression with an operator. Two literals with an operator between them are the
two sides of that operator, unless the exponent of the left one has a sign. Then that sign is taken
for the operator, both sides are names of nothing, and the value is 0. -/
theorem read_literals {a b : Text} {x y : Number} (ha : Number.ofLiteral? a = some x)
    (hb : Number.ofLiteral? b = some y) (op : Operator) :
    read a = .literal x ∧
    ((∀ left sign digits, ¬IsAtExponent a.trim left sign digits) →
      read (spaced a op b) = .binary op (.literal x) (.literal y) ∧
        ∀ s, (read (spaced a op b)).eval s = .ok (Number.apply op x y)) ∧
    ∀ left sign digits, IsAtExponent a.trim left sign digits →
      ∃ right, (spaced a op b).trim = left ++ sign.toChar :: right ∧
        read (spaced a op b) = .binary sign (.named left) (.named right) ∧
        ∀ s : Store, s.BindsNames → (read (spaced a op b)).eval s = .ok .zero := by
  refine ⟨read_of_literal ha, fun h => ?_, fun left sign digits h => ?_⟩
  · obtain ⟨m, hm, -⟩ := Number.ofLiteral?_eq_some_iff.1 ha
    have hread := read_of_isPassed ha hb (hm ▸ isPassed_of_not_isAtExponent (hm ▸ h)) op
    exact ⟨hread, fun s => by rw [hread]; rfl⟩
  · obtain ⟨right, ht, hleft, hright, hread⟩ := read_of_isAtExponent ha hb h op
    refine ⟨right, ht, by rw [hread, hleft.operand_eq, hright.operand_eq], fun s hs => ?_⟩
    rw [hread, eval_binary (hleft.eval_operand hs) (hright.eval_operand hs), Number.apply_zero]

/-- A literal with an exponent and one whose exponent has a sign, either way round. -/
theorem read_literals_exponents :
    read (spaced "2.5E1".toList .mul "-1e+2".toList) =
        .binary .mul (.literal (.int 25)) (.literal (.int (-100))) ∧
      (read (spaced "-1e+2".toList .mul "2.5E1".toList)).eval ⟨[("e".toList, .num (.int 7))]⟩ =
        .ok .zero := by
  have hleft : Number.ofLiteral? "2.5E1".toList = some (.int 25) := by decide +kernel
  have hright : Number.ofLiteral? "-1e+2".toList = some (.int (-100)) := by decide +kernel
  have hunsigned : ∀ left sign digits, ¬IsAtExponent "2.5E1".toList left sign digits := by
    rintro left sign digits ⟨h, -⟩
    have hmem : sign.toChar ∈ "2.5E1".toList := by simp [h]
    cases sign <;> exact absurd hmem (by decide)
  obtain ⟨-, -, -, hzero⟩ := (read_literals hright hleft .mul).2.2 "-1e".toList .add "2".toList
    ⟨by decide, by decide⟩
  exact ⟨((read_literals hleft hright .mul).2.1 hunsigned).1, hzero _ (by decide)⟩

/-- The sign of an exponent is taken for the operator. -/
theorem read_signed_exponent :
    Number.ofLiteral? "1e+2".toList = some (.int 100) ∧
      Number.ofLiteral? "1".toList = some (.int 1) ∧
      read (spaced "1e+2".toList .add "1".toList) =
        .binary .add (.named "1e".toList) (.named "2 + 1".toList) ∧
      (read (spaced "1e+2".toList .add "1".toList)).eval .empty = .ok .zero := by
  decide +kernel

end Expr

end StepTrace
