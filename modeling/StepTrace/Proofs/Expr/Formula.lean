import StepTrace.Proofs.Expr.Literals
import StepTrace.Proofs.Expr.Normal
import StepTrace.Proofs.Expr.Passed

/-!
# Formulas

A formula is an atom, or two atoms with an operator between them (`Formula`). Atoms are numerals
without exponent, names, lengths of what a name stands for, and elements of a list, whose index is a
formula again. A formula has a text and a value, both by recursion on it, and the text is read as
the formula: it has that value in every store with numbers in normal form (`Formula.eval_read`).

The text of an atom is passed whole by the scan for an operator, and inside of brackets the text of
every formula is (`Atom.isOperandText`, `Formula.isSolid`). Both are by induction on the formula,
since the brackets of an index have to match. The value of an index is in normal form
(`Formula.value_isNormal`), so it is never too large for a double.
-/

namespace StepTrace

open CharClass

/-! ## Syntax -/

/-- A name. -/
structure Identifier where
  text : Text
  isName : text.isName

/-- White space on one line. -/
structure Gap where
  text : Text
  blank : ∀ c ∈ text, isBlank c = true
  oneLine : '\n' ∉ text

/-- The ways to ask for the length of what a name stands for. -/
inductive LengthForm where
  | lower
  | upper
  | count
  | method
  | call
deriving DecidableEq, Repr

/-- The text that asks for a length. -/
def LengthForm.text (name : Text) : LengthForm → Text
  | .lower => name ++ ".length".toList
  | .upper => name ++ ".Length".toList
  | .count => name ++ ".Count".toList
  | .method => name ++ ".len()".toList
  | .call => "len(".toList ++ (name ++ [')'])

mutual

/-- An operand of a formula. -/
inductive Atom where
  | literal (n : Numeral) (plain : n.exponent = none)
  | named (x : Identifier)
  | length (form : LengthForm) (x : Identifier)
  | element (x : Identifier) (index : Formula)

/-- An atom, or two atoms with an operator between them. -/
inductive Formula where
  | atom (a : Atom)
  | binary (left : Atom) (before : Gap) (op : Operator) (behind : Gap) (right : Atom)

end

mutual

/-- The text of an atom. -/
def Atom.text : Atom → Text
  | .literal n _ => n.text
  | .named x => x.text
  | .length form x => form.text x.text
  | .element x index => x.text ++ '[' :: (index.text ++ [']'])

/-- The text of a formula. -/
def Formula.text : Formula → Text
  | .atom a => a.text
  | .binary left before op behind right =>
    left.text ++ (before.text ++ op.toChar :: (behind.text ++ right.text))

end

/-- The atoms of a formula. -/
def Formula.atoms : Formula → List Atom
  | .atom a => [a]
  | .binary left _ _ _ right => [left, right]

/-! ## Values -/

/-- The item at an index of the list under a name, and 0 if there is no list. -/
def Store.itemOf (s : Store) (name : Text) (index : Number) : Number :=
  match s.get? name with
  | some (.list items) => itemAt items index
  | _ => .zero

mutual

/-- The value of an atom. -/
def Atom.value (s : Store) : Atom → Number
  | .literal n _ => n.value
  | .named x => s.number x.text
  | .length _ x => s.lengthOf x.text
  | .element x index => s.itemOf x.text (index.value s)

/-- The value of a formula. -/
def Formula.value (s : Store) : Formula → Number
  | .atom a => a.value s
  | .binary left _ op _ right => Number.apply op (left.value s) (right.value s)

end

/-- Only names are bound, the numbers are in normal form, and the lengths are within the range of
doubles. -/
structure Store.IsRegular (s : Store) : Prop where
  names : s.BindsNames
  normal : ∀ {name v n}, s.get? name = some v → v.Holds n → n.IsNormal
  sized : ∀ {name v k}, s.get? name = some v → v.length? = some k → k ≤ Double.largestInt

section Normal

variable {s : Store}

theorem Store.IsRegular.isNormal_lengthOf (hs : s.IsRegular) (name : Text) :
    (s.lengthOf name).IsNormal := by
  rw [Store.lengthOf]
  cases hlength : (s.get? name).bind Value.length? with
  | none => exact Number.isNormal_zero
  | some k =>
    obtain ⟨v, hv, hk⟩ := Option.bind_eq_some_iff.1 hlength
    exact Number.isNormal_of_le (hs.sized hv hk)

theorem Store.IsRegular.isNormal_itemOf (hs : s.IsRegular) (name : Text) (index : Number) :
    (s.itemOf name index).IsNormal := by
  rw [Store.itemOf]
  split
  · exact isNormal_itemAt (hs.normal ‹_›) index
  · exact Number.isNormal_zero

/-- The value of an atom is in normal form. -/
theorem Atom.value_isNormal (hs : s.IsRegular) (a : Atom) : (a.value s).IsNormal := by
  cases a with
  | literal n plain => exact Number.ofLiteral?_isNormal (Number.ofLiteral?_text n)
  | named x => exact Store.isNormal_number hs.normal
  | length form x => exact hs.isNormal_lengthOf x.text
  | element x index => exact hs.isNormal_itemOf x.text _

theorem Formula.value_isNormal (hs : s.IsRegular) (e : Formula) : (e.value s).IsNormal := by
  cases e with
  | atom a => exact a.value_isNormal hs
  | binary left before op behind right =>
    exact Number.apply_isNormal op (left.value_isNormal hs).fits _

end Normal

/-! ## Texts of formulas in a scan -/

open StepTrace.Expr

theorem isSolid_binary {a b : Text} (ha : IsSolid a) (hb : IsSolid b) (before : Gap)
    (op : Operator) (behind : Gap) :
    IsSolid (a ++ (before.text ++ op.toChar :: (behind.text ++ b))) := by
  have hflat : ∀ {gap : Gap}, ∀ c ∈ gap.text, isFlat c = true := fun {gap} c hc =>
    isFlat_of_isInert (isInert_of_isBlank (gap.blank c hc))
  have hop : isFlat op.toChar = true ∧ op.toChar ≠ '\n' := by cases op <;> decide
  have hmiddle : Enclosed (before.text ++ op.toChar :: behind.text) := by
    refine enclosed_of_isFlat (List.forall_mem_append.2 ⟨hflat, ?_⟩)
    exact List.forall_mem_cons.2 ⟨hop.1, hflat⟩
  have hsplit : a ++ (before.text ++ op.toChar :: (behind.text ++ b)) =
      a ++ ((before.text ++ op.toChar :: behind.text) ++ b) := by simp
  rw [hsplit]
  refine ⟨by simp [ha.filled], Text.isTrimmed_append ha.trimmed hb.trimmed ha.filled hb.filled _,
    ?_, ?_, enclosed_append ha.enclosed (enclosed_append hmiddle hb.enclosed)⟩
  · obtain ⟨c, rest, rfl⟩ := List.exists_cons_of_ne_nil ha.filled
    exact ha.head
  · simp [ha.oneLine, hb.oneLine, before.oneLine, behind.oneLine, hop.2.symm]

theorem Numeral.isOperandText (n : Numeral) (plain : n.exponent = none) :
    IsOperandText n.text := by
  have hhead : n.text.head? ≠ some '(' := fun h =>
    n.not_mem_text (by decide) (by decide) (List.mem_of_head? h)
  have hpassed : IsPassed n.text := n.isPassed (by rw [Numeral.hasSignedExponent, plain]; rfl)
  exact ⟨⟨n.text_ne_nil, n.isTrimmed_text, hhead, n.not_mem_text (by decide) (by decide),
    enclosed_of_isFlat fun c hc => isFlat_of_mem_numeral hc⟩, hpassed⟩

theorem LengthForm.isOperandText (form : LengthForm) (x : Identifier) :
    IsOperandText (form.text x.text) := by
  cases form with
  | lower | upper | count | method => exact isOperandText_of_ending x.isName (by decide)
  | call =>
    have hx := isOperandText_of_isName x.isName
    exact isOperandText_of_call (hx.trimmed.trim_eq.symm ▸ x.isName) hx.oneLine

mutual

/-- The scan passes every atom. -/
theorem Atom.isOperandText : ∀ a : Atom, IsOperandText a.text
  | .literal n plain => by
    rw [Atom.text]
    exact n.isOperandText plain
  | .named x => by
    rw [Atom.text]
    exact isOperandText_of_isName x.isName
  | .length form x => by
    rw [Atom.text]
    exact form.isOperandText x
  | .element x index => by
    have hindex := index.isSolid
    rw [Atom.text]
    exact isOperandText_of_element x.isName hindex.enclosed hindex.oneLine

/-- The scan passes every formula inside of brackets. -/
theorem Formula.isSolid : ∀ e : Formula, IsSolid e.text
  | .atom a => by
    rw [Formula.text]
    exact a.isOperandText.toIsSolid
  | .binary left before op behind right => by
    have hleft := left.isOperandText
    have hright := right.isOperandText
    rw [Formula.text]
    exact isSolid_binary hleft.toIsSolid hright.toIsSolid before op behind

end

/-! ## Values of formulas -/

section Evaluating

variable {s : Store}

theorem eval_element (hs : s.BindsNames) {name whole : Text} (hwhole : whole.isName = false)
    {index : Expr} {i : Number} (hindex : index.eval s = .ok i) (hi : i.IsNormal) :
    (Expr.element name index whole).eval s = .ok (s.itemOf name i) := by
  have hzero : s.number whole = .zero := Store.number_eq_zero hs hwhole
  rw [Expr.eval, Store.itemOf]
  cases s.get? name with
  | none => rw [hzero]
  | some v =>
    cases v with
    | list items =>
      rw [hindex]
      exact elementAt_eq hi items
    | _ => rw [hzero]

theorem LengthForm.operand_eq (form : LengthForm) (x : Identifier) :
    operand (form.text x.text) = .length x.text (form.text x.text) := by
  have htrim := (form.isOperandText x).trimmed
  cases form with
  | lower | upper | count | method => exact operand_of_ending x.isName (by decide) htrim
  | call =>
    have hx := isOperandText_of_isName x.isName
    exact operand_of_call x.isName (by simp [isFilled, hx.filled, hx.oneLine]) hx.trimmed htrim

theorem LengthForm.isName_text (form : LengthForm) (x : Identifier) :
    (form.text x.text).isName = false := by
  cases form with
  | lower | upper | count | method =>
    exact Text.isName_eq_false_of_mem (c := '.') (List.mem_append_right _ (by decide)) (by decide)
  | call =>
    exact Text.isName_eq_false_of_mem (c := '(') (List.mem_append_left _ (by decide)) (by decide)

/-- An atom that is no numeral begins with a name. -/
theorem Atom.exists_name (a : Atom) : (∃ n plain, a = .literal n plain) ∨
    ∃ name rest, Text.isName name ∧ a.text = name ++ rest := by
  cases a with
  | literal n plain => exact .inl ⟨n, plain, rfl⟩
  | named x => exact .inr ⟨x.text, [], x.isName, (List.append_nil _).symm⟩
  | length form x =>
    cases form with
    | lower | upper | count | method => exact .inr ⟨x.text, _, x.isName, rfl⟩
    | call => exact .inr ⟨"len".toList, '(' :: (x.text ++ [')']), by decide, rfl⟩
  | element x index => exact .inr ⟨x.text, _, x.isName, rfl⟩

/-- An atom with an operator behind it is no literal. -/
theorem ofLiteral?_binary (left : Atom) (before : Gap) (op : Operator) (behind : Gap)
    (right : Atom) :
    Number.ofLiteral? (Formula.binary left before op behind right).text = none := by
  have htrim := (Formula.binary left before op behind right).isSolid.trimmed.trim_eq
  rw [Formula.text] at htrim ⊢
  rcases left.exists_name with ⟨n, plain, rfl⟩ | ⟨name, rest, hname, htext⟩
  · -- White space or an operator stands where an exponent could.
    have hhead : ∃ c rest, before.text ++ op.toChar :: (behind.text ++ right.text) = c :: rest ∧
        (isBlank c = true ∨ c = op.toChar) := by
      cases hgap : before.text with
      | nil => exact ⟨_, _, rfl, .inr rfl⟩
      | cons c gap => exact ⟨c, _, rfl, .inl (before.blank c (hgap ▸ List.mem_cons_self))⟩
    obtain ⟨c, rest, hrest, hc⟩ := hhead
    have hmark : isDecimal c = false ∧ c ≠ '.' ∧ ¬(c = 'e' ∨ c = 'E') := by
      rcases hc with hc | rfl
      · refine ⟨not_isDecimal_of_isBlank hc, ?_, ?_⟩ <;> rintro h
        · exact absurd hc (by rw [h]; decide)
        · rcases h with h | h <;> exact absurd hc (by rw [h]; decide)
      · cases op <;> decide
    have htext : Atom.text (.literal n plain) = n.sign.text ++ n.mantissa := by
      simp [Atom.text, Numeral.text, Numeral.tail, plain]
    rw [Number.ofLiteral?, htrim, htext, hrest, List.append_assoc,
      n.ofText?_append fun x hx => by cases hx; exact ⟨hmark.1, hmark.2.1⟩,
      Exponent.exponent?_eq_none hmark.2.2]
    rfl
  · rw [htext, List.append_assoc] at htrim ⊢
    exact ofLiteral?_eq_none hname htrim

/-- A formula is read as the operator between its atoms. -/
theorem Formula.eval_read_of_atoms (e : Formula)
    (h : ∀ a ∈ e.atoms, (operand a.text).eval s = .ok (a.value s)) :
    (read e.text).eval s = .ok (e.value s) := by
  cases e with
  | atom a =>
    rw [Formula.text, Formula.value, a.isOperandText.read_eq]
    exact h a List.mem_cons_self
  | binary left before op behind right =>
    have hleft := left.isOperandText
    have hright := right.isOperandText
    have htrim := (Formula.binary left before op behind right).isSolid.trimmed.trim_eq
    have hread : read (Formula.binary left before op behind right).text =
        .binary op (operand left.text) (operand right.text) := by
      refine read_of_cut (ofLiteral?_binary left before op behind right) ?_
      rw [htrim, Formula.text]
      exact cut?_binary hleft.passed hleft.filled hleft.trimmed hright.filled hright.trimmed
        before.blank behind.blank op
    rw [hread, Formula.value]
    exact eval_binary (h left (by simp [atoms])) (h right (by simp [atoms])) op

theorem Atom.eval_operand_element (hs : s.IsRegular) (x : Identifier) {index : Formula}
    (h : ∀ a ∈ index.atoms, (operand a.text).eval s = .ok (a.value s)) :
    (operand (Atom.element x index).text).eval s = .ok ((Atom.element x index).value s) := by
  have hindex := index.isSolid
  have htrim := (Atom.element x index).isOperandText.trimmed
  have hfilled : isFilled index.text := by simp [isFilled, hindex.filled, hindex.oneLine]
  have hwhole : (Atom.element x index).text.isName = false :=
    Text.isName_eq_false_of_mem (c := '[') (by simp [Atom.text]) (by decide)
  rw [Atom.text] at htrim hwhole ⊢
  rw [operand_of_element x.isName hfilled htrim, Atom.value]
  exact eval_element hs.names hwhole (index.eval_read_of_atoms h) (index.value_isNormal hs)

/-- Every atom is read as what it is. -/
theorem Atom.eval_operand (hs : s.IsRegular) :
    ∀ a : Atom, (operand a.text).eval s = .ok (a.value s)
  | .literal n plain => by
    rw [Atom.text, Atom.value, operand_of_literal (Number.ofLiteral?_text n), Expr.eval]
  | .named x => by
    rw [Atom.text, Atom.value, operand_of_isName x.isName, Expr.eval]
  | .length form x => by
    rw [Atom.text, Atom.value, form.operand_eq x, eval_length hs.names (form.isName_text x)]
  | .element x (.atom a) =>
    eval_operand_element hs x (List.forall_mem_singleton.2 (eval_operand hs a))
  | .element x (.binary left _ _ _ right) =>
    eval_operand_element hs x
      (List.forall_mem_cons.2 ⟨eval_operand hs left,
        List.forall_mem_singleton.2 (eval_operand hs right)⟩)

end Evaluating

/-- The text of a formula is read as an expression with the value of the formula, without a fault,
whatever the depth of its brackets. -/
theorem Formula.eval_read {s : Store} (hs : s.IsRegular) (e : Formula) :
    (read e.text).eval s = .ok (e.value s) :=
  e.eval_read_of_atoms fun a _ => a.eval_operand hs

/-- A list and a number. -/
def Store.sample : Store :=
  ⟨[("xs".toList, .list [.num (.int 3), .num (.int (-7))]), ("n".toList, .num (.int 1))]⟩

theorem Store.isRegular_sample : Store.sample.IsRegular where
  names := by decide
  normal {name v n} hv hn := by
    have hmem := Store.mem_of_find? hv
    simp only [sample, List.mem_cons, Prod.mk.injEq, List.not_mem_nil, or_false] at hmem
    have hthree : Number.IsNormal (.int 3) := Number.isNormal_of_le (by decide +kernel)
    have hseven : Number.IsNormal (.int (-7)) :=
      show Int.natAbs (-7) ≤ Double.largestInt by decide +kernel
    rcases hmem with ⟨-, rfl⟩ | ⟨-, rfl⟩
    · cases hn with
      | item hitem h =>
        simp only [List.mem_cons, List.not_mem_nil, or_false] at hitem
        rcases hitem with rfl | rfl <;> cases h
        · exact hthree
        · exact hseven
    · cases hn
      exact Number.isNormal_of_le (by decide +kernel)
  sized {name v k} hv hk := by
    have hmem := Store.mem_of_find? hv
    simp only [sample, List.mem_cons, Prod.mk.injEq, List.not_mem_nil, or_false] at hmem
    rcases hmem with ⟨-, rfl⟩ | ⟨-, rfl⟩ <;> cases hk
    decide +kernel

/-- An element of a list at an element of the same list less the length of the list:
`xs[xs[n-1] - len(xs)] * -2.0`. -/
def Formula.sample : Formula :=
  let tight : Gap := ⟨[], by decide, by decide⟩
  let space : Gap := ⟨[' '], by decide, by decide⟩
  let xs : Identifier := ⟨"xs".toList, by decide⟩
  let n : Identifier := ⟨"n".toList, by decide⟩
  let one : Numeral := ⟨.absent, ['1'], none, none, by decide, by decide⟩
  let factor : Numeral := ⟨.minus, ['2'], some ['0'], none, by decide, by decide⟩
  let inner : Formula := .binary (.named n) tight .sub tight (.literal one rfl)
  let index : Formula := .binary (.element xs inner) space .sub space (.length .call xs)
  .binary (.element xs index) space .mul space (.literal factor rfl)

theorem Formula.eval_read_sample :
    sample.text = "xs[xs[n-1] - len(xs)] * -2.0".toList ∧
      (read "xs[xs[n-1] - len(xs)] * -2.0".toList).eval .sample = .ok (.int 14) := by
  have hvalue : sample.value .sample = .int 14 := by decide +kernel
  exact ⟨rfl, (Formula.eval_read Store.isRegular_sample sample).trans (by rw [hvalue])⟩

end StepTrace
