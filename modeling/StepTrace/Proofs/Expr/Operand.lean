import StepTrace.Proofs.Expr.Scan
import StepTrace.Proofs.Store
import StepTrace.Proofs.Text.Name
import StepTrace.Proofs.Text.Parentheses

/-!
# The forms of operands

An operand is a literal, the length of something under a name, an element of a list under a name,
or a name itself. Each form is a text put together from its parts (`Expr.lengthOf?_eq_some_iff`,
`Expr.lenCall?_eq_some_iff`, `Expr.indexed?_eq_some_iff`). An operand is read with a bound on the
depth of its brackets, and its length is always enough: the index of an element is read as the
expression that it is (`Expr.operand_eq`).

What was read has one of these forms (`Expr.OperandForm`). If only names are bound, the value is 0
unless the text is a literal or has a name in the right place (`Expr.OperandValue`).
-/

namespace StepTrace

open CharClass

/-! ## What names stand for -/

theorem Number.apply_zero (op : Operator) : apply op .zero .zero = .zero := by
  cases op <;> decide +kernel

/-- Only names are bound. -/
def Store.BindsNames (s : Store) : Prop := ∀ name ∈ s.names, Text.isName name = true

instance (s : Store) : Decidable s.BindsNames :=
  inferInstanceAs (Decidable (∀ name ∈ s.names, Text.isName name = true))

namespace Store

variable {s : Store} {t : Text}

theorem get?_eq_none (hs : s.BindsNames) (ht : t.isName = false) : s.get? t = none := by
  cases h : s.get? t with
  | none => rfl
  | some v =>
    rw [hs t (mem_names_of_get? h)] at ht
    cases ht

/-- The length of the list or text under a name, and 0 if there is none. -/
def lengthOf (s : Store) (name : Text) : Number :=
  (((s.get? name).bind Value.length?).map fun k => .int k).getD .zero

/-- What is no name has the value 0. -/
theorem number_eq_zero (hs : s.BindsNames) (ht : t.isName = false) : s.number t = .zero := by
  rw [number, get?_eq_none hs ht]

end Store

namespace Expr

/-! ## Forms -/

section Forms

variable {t name index : Text}

theorem head?_of_mem_lengthEndings {ending : Text} (h : ending ∈ lengthEndings) :
    ∀ c ∈ ending.head?, isWord c = false := by
  simp only [lengthEndings, List.mem_cons, List.not_mem_nil, or_false] at h
  rcases h with rfl | rfl | rfl | rfl <;> decide +kernel

theorem point_mem_of_lengthEndings {ending : Text} (h : ending ∈ lengthEndings) :
    '.' ∈ ending := by
  have hall : ∀ ending ∈ lengthEndings, '.' ∈ ending := by decide
  exact hall ending h

theorem lengthOf?_eq_some_iff : lengthOf? t = some name ↔
    name.isName ∧ ∃ ending ∈ lengthEndings, t = name ++ ending := by
  rw [lengthOf?]
  constructor
  · intro h
    obtain ⟨⟨found, rest⟩, hname, h⟩ := Option.bind_eq_some_iff.1 h
    dsimp only at h
    split_ifs at h with hending
    cases h
    obtain ⟨ht, hfound, -⟩ := Text.name?_eq_some_iff.1 hname
    exact ⟨hfound, rest, List.contains_iff_mem.1 hending, ht⟩
  · rintro ⟨hname, ending, hending, ht⟩
    have hfound : t.name? = some (name, ending) :=
      Text.name?_eq_some_iff.2 ⟨ht, hname, head?_of_mem_lengthEndings hending⟩
    rw [hfound]
    exact if_pos (List.contains_iff_mem.2 hending)

theorem lenCall?_eq_some_iff : lenCall? t = some name ↔
    ∃ inner, isFilled inner ∧ inner.trim = name ∧ t = "len(".toList ++ (inner ++ [')']) := by
  rw [lenCall?]
  constructor
  · intro h
    obtain ⟨rest, hrest, h⟩ := Option.bind_eq_some_iff.1 h
    obtain ⟨inner, hinner, h⟩ := Option.bind_eq_some_iff.1 h
    split_ifs at h with hfilled
    cases h
    rw [Text.before?_eq_some_iff.1 hinner] at hrest
    exact ⟨inner, hfilled, rfl, Text.after?_eq_some_iff.1 hrest⟩
  · rintro ⟨inner, hfilled, rfl, ht⟩
    rw [Text.after?_eq_some_iff.2 ht, Option.bind_eq_bind, Option.bind_some,
      Text.before?_eq_some_iff.2 rfl, Option.bind_some, if_pos hfilled]

theorem indexed?_eq_some_iff : indexed? t = some (name, index) ↔
    name.isName ∧ isFilled index ∧ t = name ++ '[' :: (index ++ [']']) := by
  rw [indexed?]
  constructor
  · intro h
    obtain ⟨⟨found, rest⟩, hname, h⟩ := Option.bind_eq_some_iff.1 h
    obtain ⟨inner, hinner, h⟩ := Option.bind_eq_some_iff.1 h
    split_ifs at h with hfilled
    cases h
    obtain ⟨ht, hfound, -⟩ := Text.name?_eq_some_iff.1 hname
    rw [Text.between?_eq_some_iff.1 hinner] at ht
    exact ⟨hfound, hfilled, ht⟩
  · rintro ⟨hname, hfilled, ht⟩
    have hfound : t.name? = some (name, '[' :: (index ++ [']'])) :=
      Text.name?_eq_some_iff.2 ⟨ht, hname, fun c hc => by cases hc; decide⟩
    have hbetween : Text.between? '[' ']' ('[' :: (index ++ [']'])) = some index :=
      Text.between?_eq_some_iff.2 rfl
    simp [hfound, hbetween, hfilled]

theorem not_isNameStart_of_head? {n : Numeral} {c : Char} (h : c ∈ n.text.head?) :
    isNameStart c = false := by
  rw [Bool.eq_false_iff]
  intro hstart
  rcases n.head?_text h with hc | hc
  · rw [not_isDecimal_of_isNameStart hstart] at hc
    cases hc
  · have hall : ∀ c ∈ ['+', '-', '.'], isNameStart c = false := by decide
    rw [hall c hc] at hstart
    cases hstart

/-- What begins with a name is no literal. -/
theorem ofLiteral?_eq_none {rest : Text} (hname : name.isName)
    (ht : Text.trim t = name ++ rest) : Number.ofLiteral? t = none := by
  rw [Option.eq_none_iff_forall_ne_some]
  intro x hx
  obtain ⟨n, hn, -⟩ := Number.ofLiteral?_eq_some_iff.1 hx
  obtain ⟨c, name, rfl⟩ := List.exists_cons_of_ne_nil (Text.isName_ne_nil hname)
  have hhead : c ∈ n.text.head? := by rw [hn, ht]; rfl
  have hstart := not_isNameStart_of_head? hhead
  rw [(Bool.and_eq_true_iff.1 hname).1] at hstart
  cases hstart

end Forms

/-! ## Depth -/

theorem length_unwrapUpTo_le : ∀ (count : Nat) (t : Text),
    (Text.unwrapUpTo count t).length ≤ t.length
  | 0, t => Nat.le_refl _
  | count + 1, t => by
    rw [Text.unwrapUpTo]
    cases hinner : Text.between? '(' ')' t with
    | none => exact Nat.le_refl _
    | some inner =>
      dsimp only
      split_ifs
      · have hlt := Text.length_of_between? hinner
        have hle := Text.length_trim_le inner
        have ih := length_unwrapUpTo_le count inner.trim
        omega
      · exact Nat.le_refl _

theorem length_unwrap_le (t : Text) : t.unwrap.length ≤ t.length :=
  (length_unwrapUpTo_le _ _).trans (Text.length_trim_le t)

theorem length_of_cut? {t left right : Text} {op : Operator} (h : cut? t = some (left, op, right)) :
    left.length ≤ t.length ∧ right.length ≤ t.length := by
  obtain ⟨l, r, hcut, rfl, rfl, -, -⟩ := exists_of_cut? h
  have hl := Text.length_trim_le l
  have hr := Text.length_trim_le r
  rw [Scan.eq_of_cut? hcut, List.length_append, List.length_cons]
  omega

/-- Only operands that are not longer than the expression are read. -/
theorem readWith_congr {f g : Text → Expr} {t : Text}
    (h : ∀ u : Text, u.length ≤ t.length → f u = g u) : readWith f t = readWith g t := by
  have htrim := Text.length_trim_le t
  rw [readWith, readWith]
  cases Number.ofLiteral? t.trim with
  | some n => rfl
  | none =>
    cases hcut : cut? t.trim with
    | none => exact h _ ((length_unwrap_le _).trans htrim)
    | some parts =>
      obtain ⟨left, op, right⟩ := parts
      obtain ⟨hleft, hright⟩ := length_of_cut? hcut
      simp only [h left (hleft.trans htrim), h right (hright.trans htrim)]

theorem length_of_indexed? {t name index : Text} (h : indexed? t = some (name, index)) :
    index.length < t.length := by
  obtain ⟨-, -, rfl⟩ := indexed?_eq_some_iff.1 h
  simp
  omega

/-- Read an operand with the given reader for the index of an element. -/
def operandBy (index : Text → Expr) (t : Text) : Expr :=
  if t.trim.isEmpty then .literal .zero
  else match Number.ofLiteral? t.trim with
    | some n => .literal n
    | none =>
      match lengthOf? t.trim, lenCall? t.trim, indexed? t.trim with
      | some name, _, _ => .length name t.trim
      | none, some name, _ => .length name t.trim
      | none, none, some (name, i) => .element name (index i) t.trim
      | none, none, none => .named t.trim

theorem operandWithin_succ (depth : Nat) (t : Text) :
    operandWithin (depth + 1) t = operandBy (readWith (operandWithin depth)) t := rfl

/-- An index is shorter than the operand that it stands in. -/
theorem operandBy_congr {f g : Text → Expr} {t : Text}
    (h : ∀ u : Text, u.length < t.length → f u = g u) : operandBy f t = operandBy g t := by
  rw [operandBy, operandBy]
  split_ifs
  · rfl
  cases Number.ofLiteral? t.trim with
  | some x => rfl
  | none =>
    cases lengthOf? t.trim with
    | some name => rfl
    | none =>
      cases lenCall? t.trim with
      | some name => rfl
      | none =>
        cases hindex : indexed? t.trim with
        | none => rfl
        | some parts =>
          obtain ⟨name, i⟩ := parts
          have hlen := (length_of_indexed? hindex).trans_le (Text.length_trim_le t)
          exact congrArg (element name · t.trim) (h i hlen)

/-- A depth beyond the length of an operand changes nothing. -/
theorem operandWithin_congr : ∀ {m n : Nat} {t : Text}, t.length < m → t.length < n →
    operandWithin m t = operandWithin n t
  | m + 1, n + 1, t, hm, hn => by
    rw [operandWithin_succ, operandWithin_succ]
    refine operandBy_congr fun u hu => readWith_congr fun v hv => ?_
    exact operandWithin_congr (by omega) (by omega)

/-- The index of an element is read as an expression. -/
theorem operand_eq (t : Text) : operand t = operandBy read t := by
  rw [operand, operandWithin_succ]
  refine operandBy_congr fun u hu => readWith_congr fun v hv => ?_
  exact operandWithin_congr (by omega) (Nat.lt_succ_self _)

/-- The forms that an operand can be read as, by its trimmed text, in the order in which they are
tried. -/
inductive OperandForm (t : Text) : Expr → Prop
  | empty (h : t = []) : OperandForm t (.literal .zero)
  | literal {n : Number} (h : Number.ofLiteral? t = some n) : OperandForm t (.literal n)
  | property {name : Text} (h : lengthOf? t = some name) : OperandForm t (.length name t)
  | call {name : Text} (hproperty : lengthOf? t = none) (h : lenCall? t = some name) :
    OperandForm t (.length name t)
  | element {name index : Text} (hproperty : lengthOf? t = none) (hcall : lenCall? t = none)
    (h : indexed? t = some (name, index)) : OperandForm t (.element name (read index) t)
  | named (hproperty : lengthOf? t = none) (hcall : lenCall? t = none)
    (helement : indexed? t = none) : OperandForm t (.named t)

theorem operandForm (t : Text) : OperandForm t.trim (operand t) := by
  rw [operand_eq, operandBy]
  split_ifs with hempty
  · exact .empty (List.isEmpty_iff.1 hempty)
  split
  · exact .literal ‹_›
  · split
    · exact .property ‹_›
    · exact .call ‹_› ‹_›
    · exact .element ‹_› ‹_› ‹_›
    · exact .named ‹_› ‹_› ‹_›

/-! ## Operands of each form -/

section Operands

variable {name index : Text}

theorem operand_of_isName (hname : name.isName) : operand name = .named name := by
  have htrim : name.IsTrimmed := Text.isTrimmed_of_forall (Text.not_isBlank_of_isName hname)
  have hform := operandForm name
  rw [htrim.trim_eq] at hform
  have hmem : ∀ c ∈ name, c ∉ ['.', '(', '['] := by
    intro c hc h
    have hall : ∀ c ∈ ['.', '(', '['], isWord c = false := by decide
    exact Text.not_mem_of_isName hname (hall c h) hc
  generalize operand name = e at hform
  cases hform with
  | empty h => exact absurd h (Text.isName_ne_nil hname)
  | literal h =>
    rw [ofLiteral?_eq_none hname (htrim.trim_eq.trans (List.append_nil name).symm)] at h
    cases h
  | property h =>
    obtain ⟨-, ending, hending, ht⟩ := lengthOf?_eq_some_iff.1 h
    have hpoint := point_mem_of_lengthEndings hending
    exact absurd (by decide) (hmem '.' (ht ▸ List.mem_append_right _ hpoint))
  | call _ h =>
    obtain ⟨inner, -, -, ht⟩ := lenCall?_eq_some_iff.1 h
    exact absurd (by decide) (hmem '(' (ht ▸ List.mem_append_left _ (by decide)))
  | element _ _ h =>
    obtain ⟨-, -, ht⟩ := indexed?_eq_some_iff.1 h
    exact absurd (by decide) (hmem '[' (ht ▸ List.mem_append_right _ List.mem_cons_self))
  | named => rfl

theorem operand_of_ending {ending : Text} (hname : name.isName) (hending : ending ∈ lengthEndings)
    (htrim : Text.IsTrimmed (name ++ ending)) :
    operand (name ++ ending) = .length name (name ++ ending) := by
  have hform := operandForm (name ++ ending)
  rw [htrim.trim_eq] at hform
  have hlength : lengthOf? (name ++ ending) = some name :=
    lengthOf?_eq_some_iff.2 ⟨hname, ending, hending, rfl⟩
  generalize operand (name ++ ending) = e at hform
  cases hform with
  | empty h => exact absurd (List.append_eq_nil_iff.1 h).1 (Text.isName_ne_nil hname)
  | literal h =>
    rw [ofLiteral?_eq_none hname htrim.trim_eq] at h
    cases h
  | property h =>
    rw [hlength] at h
    cases h
    rfl
  | call hproperty | element hproperty | named hproperty =>
    rw [hlength] at hproperty
    cases hproperty

theorem operand_of_call (hname : name.isName) (hfilled : isFilled name) (htrimName : name.IsTrimmed)
    (htrim : Text.IsTrimmed ("len(".toList ++ (name ++ [')']))) :
    operand ("len(".toList ++ (name ++ [')'])) =
      .length name ("len(".toList ++ (name ++ [')'])) := by
  have hform := operandForm ("len(".toList ++ (name ++ [')']))
  rw [htrim.trim_eq] at hform
  have hcall : lenCall? ("len(".toList ++ (name ++ [')'])) = some name :=
    lenCall?_eq_some_iff.2 ⟨name, hfilled, htrimName.trim_eq, rfl⟩
  have hlen : Text.trim ("len(".toList ++ (name ++ [')'])) =
      "len".toList ++ '(' :: (name ++ [')']) := htrim.trim_eq
  have hliteral : Number.ofLiteral? ("len(".toList ++ (name ++ [')'])) = none :=
    ofLiteral?_eq_none (by decide) hlen
  generalize operand ("len(".toList ++ (name ++ [')'])) = e at hform
  cases hform with
  | empty h => cases h
  | literal h =>
    rw [hliteral] at h
    cases h
  | property h =>
    -- An ending has a point in it, and there is none.
    obtain ⟨-, ending, hending, ht⟩ := lengthOf?_eq_some_iff.1 h
    have hpoint : '.' ∈ "len(".toList ++ (name ++ [')']) :=
      ht ▸ List.mem_append_right _ (point_mem_of_lengthEndings hending)
    simp [Text.not_mem_of_isName hname (c := '.') (by decide)] at hpoint
  | call _ h =>
    rw [hcall] at h
    cases h
    rfl
  | element _ hnone | named _ hnone =>
    rw [hcall] at hnone
    cases hnone

theorem operand_of_element (hname : name.isName) (hfilled : isFilled index)
    (htrim : Text.IsTrimmed (name ++ '[' :: (index ++ [']']))) :
    operand (name ++ '[' :: (index ++ [']'])) =
      .element name (read index) (name ++ '[' :: (index ++ [']'])) := by
  have hform := operandForm (name ++ '[' :: (index ++ [']']))
  rw [htrim.trim_eq] at hform
  have hindexed : indexed? (name ++ '[' :: (index ++ [']'])) = some (name, index) :=
    indexed?_eq_some_iff.2 ⟨hname, hfilled, rfl⟩
  have hlast : (name ++ '[' :: (index ++ [']'])).getLast? = some ']' := by
    rw [← List.cons_append, ← List.append_assoc, List.getLast?_concat]
  have hliteral := ofLiteral?_eq_none hname htrim.trim_eq
  generalize name ++ '[' :: (index ++ [']']) = t at *
  generalize operand t = e at hform
  cases hform with
  | empty h =>
    rw [h] at hlast
    cases hlast
  | literal h =>
    rw [hliteral] at h
    cases h
  | property h =>
    -- Neither names nor endings have a bracket in them.
    obtain ⟨hfound, ending, hending, rfl⟩ := lengthOf?_eq_some_iff.1 h
    have hall : ∀ ending ∈ lengthEndings, ']' ∉ ending := by decide
    rcases List.mem_append.1 (List.mem_of_getLast? hlast) with hmem | hmem
    · exact absurd hmem (Text.not_mem_of_isName hfound (by decide))
    · exact absurd hmem (hall ending hending)
  | call _ h =>
    obtain ⟨inner, -, -, rfl⟩ := lenCall?_eq_some_iff.1 h
    rw [← List.append_assoc, List.getLast?_concat] at hlast
    cases hlast
  | element _ _ h =>
    rw [hindexed] at h
    cases h
    rfl
  | named _ _ hnone =>
    rw [hindexed] at hnone
    cases hnone

end Operands

/-! ## The ways to read an expression -/

theorem read_of_literal {t : Text} {x : Number} (h : Number.ofLiteral? t = some x) :
    read t = .literal x := by
  rw [read, readWith, Number.ofLiteral?_trim, h]

theorem read_of_cut {t left right : Text} {op : Operator} (h : Number.ofLiteral? t = none)
    (hcut : cut? t.trim = some (left, op, right)) :
    read t = .binary op (operand left) (operand right) := by
  rw [read, readWith, Number.ofLiteral?_trim, h, hcut]

theorem read_of_uncut {t : Text} (h : Number.ofLiteral? t = none) (hcut : cut? t.trim = none) :
    read t = operand t.trim.unwrap := by
  rw [read, readWith, Number.ofLiteral?_trim, h, hcut]

theorem operand_of_literal {t : Text} {x : Number} (h : Number.ofLiteral? t = some x) :
    operand t = .literal x := by
  obtain ⟨n, hn, -⟩ := Number.ofLiteral?_eq_some_iff.1 h
  have hne : t.trim.isEmpty = false := by
    rw [← hn, List.isEmpty_eq_false_iff]
    exact n.text_ne_nil
  rw [operand_eq, operandBy, hne, Number.ofLiteral?_trim, h]
  rfl

theorem eval_length {s : Store} (hs : s.BindsNames) {name whole : Text}
    (hwhole : whole.isName = false) :
    (Expr.length name whole).eval s = .ok (s.lengthOf name) := by
  rw [Expr.eval, Store.lengthOf]
  cases (s.get? name).bind Value.length? with
  | some k => rfl
  | none =>
    rw [Store.number_eq_zero hs hwhole]
    rfl

theorem eval_binary {s : Store} {left right : Expr} {x y : Number} (hleft : left.eval s = .ok x)
    (hright : right.eval s = .ok y) (op : Operator) :
    (binary op left right).eval s = .ok (Number.apply op x y) := by
  rw [eval, hleft, hright]
  rfl

/-! ## Values of operands -/

/-- What an operand can have as its value, by its trimmed text. If only names are bound, it is 0
unless the text is a literal or has a name in the right place. -/
inductive OperandValue (s : Store) (t : Text) : Except Fault Number → Prop
  | nothing : OperandValue s t (.ok .zero)
  | literal {x : Number} (h : Number.ofLiteral? t = some x) : OperandValue s t (.ok x)
  | property {name ending : Text} (hname : name.isName) (hending : ending ∈ lengthEndings)
    (h : t = name ++ ending) : OperandValue s t (.ok (s.lengthOf name))
  | call {inner : Text} (hname : inner.trim.isName) (hfilled : isFilled inner)
    (h : t = "len(".toList ++ (inner ++ [')'])) : OperandValue s t (.ok (s.lengthOf inner.trim))
  | element {name index : Text} {items : List Value} (h : indexed? t = some (name, index))
    (hitems : s.get? name = some (.list items)) :
    OperandValue s t ((read index).eval s >>= elementAt items)
  | named (h : t.isName) : OperandValue s t (.ok (s.number t))

theorem operandValue {s : Store} (hs : s.BindsNames) (t : Text) :
    OperandValue s t.trim ((operand t).eval s) := by
  have hform := operandForm t
  generalize operand t = e at hform
  generalize t.trim = t at hform
  cases hform with
  | empty => exact .nothing
  | literal h => exact .literal h
  | property h =>
    obtain ⟨hname, ending, hending, ht⟩ := lengthOf?_eq_some_iff.1 h
    have hwhole : t.isName = false := Text.isName_eq_false_of_mem
      (ht ▸ List.mem_append_right _ (point_mem_of_lengthEndings hending)) (by decide)
    rw [eval_length hs hwhole]
    exact .property hname hending ht
  | call _ h =>
    obtain ⟨inner, hfilled, rfl, ht⟩ := lenCall?_eq_some_iff.1 h
    have hwhole : t.isName = false :=
      Text.isName_eq_false_of_mem (c := '(') (ht ▸ List.mem_append_left _ (by decide)) (by decide)
    rw [eval_length hs hwhole]
    cases hname : inner.trim.isName with
    | true => exact .call hname hfilled ht
    | false =>
      rw [Store.lengthOf, Store.get?_eq_none hs hname]
      exact .nothing
  | element _ _ h =>
    obtain ⟨-, -, ht⟩ := indexed?_eq_some_iff.1 h
    have hbracket : '[' ∈ t := ht ▸ List.mem_append_right _ List.mem_cons_self
    have hwhole : t.isName = false := Text.isName_eq_false_of_mem hbracket (by decide)
    rw [eval]
    split
    · exact .element h ‹_›
    · rw [Store.number_eq_zero hs hwhole]
      exact .nothing
  | named =>
    rw [eval]
    cases hname : t.isName with
    | true => exact .named hname
    | false =>
      rw [Store.number_eq_zero hs hname]
      exact .nothing

/-! ## Texts that mean nothing -/

/-- A text that is no literal and does not begin like a name. -/
structure IsNameless (t : Text) : Prop where
  trimmed : t.IsTrimmed
  filled : t ≠ []
  head : ∀ c ∈ t.head?, isNameStart c = false
  literal : Number.ofLiteral? t = none

namespace IsNameless

variable {t : Text}

theorem isName_eq_false (h : IsNameless t) : Text.isName t = false := by
  obtain ⟨c, t, rfl⟩ := List.exists_cons_of_ne_nil h.filled
  rw [Text.isName, h.head c rfl, Bool.false_and]

theorem ne_append (h : IsNameless t) {name rest : Text} (hname : name.isName) :
    t ≠ name ++ rest := by
  rintro rfl
  obtain ⟨c, name, rfl⟩ := List.exists_cons_of_ne_nil (Text.isName_ne_nil hname)
  have hc := h.head c rfl
  rw [(Bool.and_eq_true_iff.1 hname).1] at hc
  cases hc

/-- It is looked up as it stands. -/
theorem operand_eq (h : IsNameless t) : operand t = .named t := by
  have hform := operandForm t
  rw [h.trimmed.trim_eq] at hform
  generalize operand t = e at hform
  cases hform with
  | empty hempty => exact absurd hempty h.filled
  | literal hliteral =>
    rw [h.literal] at hliteral
    cases hliteral
  | property hproperty =>
    obtain ⟨hname, ending, -, ht⟩ := lengthOf?_eq_some_iff.1 hproperty
    exact absurd ht (h.ne_append hname)
  | call _ hcall =>
    obtain ⟨inner, -, -, ht⟩ := lenCall?_eq_some_iff.1 hcall
    exact absurd (h.head 'l' (by rw [ht]; rfl)) (by decide)
  | element _ _ helement =>
    obtain ⟨hname, -, ht⟩ := indexed?_eq_some_iff.1 helement
    exact absurd ht (h.ne_append hname)
  | named => rfl

theorem eval_operand (h : IsNameless t) {s : Store} (hs : s.BindsNames) :
    (operand t).eval s = .ok .zero := by
  rw [h.operand_eq, eval, Store.number_eq_zero hs h.isName_eq_false]

end IsNameless

end Expr

end StepTrace
