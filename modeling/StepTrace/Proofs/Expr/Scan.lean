import StepTrace.Expr.Read
import StepTrace.Proofs.Number.Numeral

/-!
# The scan for an operator

The scan over an expression stands at a nesting and remembers the last character that is not blank
(`Expr.Scan`). A text that it passes without a cut can be taken off the front
(`Expr.Scan.cut?_append`), so what a text does to the scan can be said part by part.

Most characters do nothing to the nesting and are no operators (`Expr.isInert`). Inside of brackets
operators do not count either, as long as the brackets match and no quotation is opened
(`Expr.Enclosed`). A text that the scan passes and that ends in the last character of an operand is
cut off at the operator behind it (`Expr.cut?_binary`).
-/

namespace StepTrace

open CharClass

namespace Operator

@[simp] theorem ofChar?_toChar (op : Operator) : ofChar? op.toChar = some op := by
  cases op <;> rfl

theorem toChar_of_ofChar? {c : Char} {op : Operator} (h : ofChar? c = some op) :
    op.toChar = c := by
  unfold ofChar? at h
  split at h <;> cases h <;> rfl

end Operator

namespace Expr

/-! ## Characters that do nothing -/

/-- The characters that a scan reacts to: operators, quotes and brackets. -/
def scanMarks : List Char :=
  ['+', '-', '*', '/', '\'', '"', '`', '(', '[', '\x7b', ')', ']', '\x7d']

/-- Neither a quote nor a bracket: the nesting stays as it is. -/
def isFlat (c : Char) : Bool := !isQuote c && !isOpener c && !isCloser c

/-- No operator, no quote and no bracket. -/
def isInert (c : Char) : Bool := (Operator.ofChar? c).isNone && isFlat c

theorem isInert_of_not_mem {c : Char} (h : c ∉ scanMarks) : isInert c = true := by
  have hop : Operator.ofChar? c = none := by
    cases hc : Operator.ofChar? c with
    | none => rfl
    | some op =>
      rw [← Operator.toChar_of_ofChar? hc] at h
      exact absurd (by cases op <;> decide) h
  simp only [scanMarks, List.mem_cons, List.not_mem_nil, not_or] at h
  simp [isInert, isFlat, hop, isQuote, isOpener, isCloser, h]

/-- A class of characters without the marks of a scan. -/
theorem isInert_of_class {p : Char → Bool} (hp : ∀ c ∈ scanMarks, p c = false) {c : Char}
    (h : p c = true) : isInert c = true := by
  refine isInert_of_not_mem fun hmem => ?_
  rw [hp c hmem] at h
  cases h

theorem isInert_of_isWord {c : Char} (h : isWord c = true) : isInert c = true :=
  isInert_of_class (by decide) h

theorem isInert_of_isBlank {c : Char} (h : isBlank c = true) : isInert c = true :=
  isInert_of_class (by decide) h

theorem isInert_of_isDecimal {c : Char} (h : isDecimal c = true) : isInert c = true :=
  isInert_of_class (by decide) h

theorem isFlat_of_isInert {c : Char} (h : isInert c = true) : isFlat c = true :=
  (Bool.and_eq_true_iff.1 h).2

theorem isFlat_of_mem_numeral {n : Numeral} {c : Char} (h : c ∈ n.text) : isFlat c = true := by
  rcases n.mem_text h with h | h
  · exact isFlat_of_isInert (isInert_of_isDecimal h)
  · have hall : ∀ c ∈ ['.', 'e', 'E', '+', '-'], isFlat c = true := by decide
    exact hall c h

theorem ofChar?_of_isInert {c : Char} (h : isInert c = true) : Operator.ofChar? c = none :=
  Option.isNone_iff_eq_none.1 (Bool.and_eq_true_iff.1 h).1

theorem step_of_isFlat {c : Char} (h : isFlat c = true) {n : Nesting} (hn : n.quote = none) :
    n.step c = n := by
  simp only [isFlat, Bool.and_eq_true, Bool.not_eq_true'] at h
  simp [Nesting.step, hn, h]

/-! ## Scans -/

/-- Where the scan for an operator stands: the nesting, and the last character that was not passed
over as white space. -/
structure Scan where
  nesting : Nesting
  previous : Option Char
deriving DecidableEq, Repr

namespace Scan

/-- The start of the scan. -/
def start : Scan := ⟨.start, none⟩

/-- Where the scan stands after a character. -/
def step (s : Scan) (c : Char) : Scan :=
  ⟨s.nesting.step c, if s.nesting.quote.isNone && isBlank c then s.previous else some c⟩

/-- Where the scan stands after a text. -/
def after (s : Scan) (t : Text) : Scan := t.foldl step s

/-- The operator that a character is at this place. -/
def operator? (s : Scan) (c : Char) : Option Operator :=
  if s.nesting.isOpen && s.previous.any endsOperand then Operator.ofChar? c else none

/-- Cut at the first operator from here on. -/
def cut? (s : Scan) (t : Text) : Option (Text × Operator × Text) := cutFrom s.nesting s.previous t

variable {s : Scan} {a b t left right : Text} {c : Char} {op : Operator}

@[simp] theorem after_nil (s : Scan) : s.after [] = s := rfl

@[simp] theorem after_cons (s : Scan) (c : Char) (t : Text) :
    s.after (c :: t) = (s.step c).after t := rfl

theorem after_append (s : Scan) (a b : Text) : s.after (a ++ b) = (s.after a).after b :=
  List.foldl_append

theorem cut?_of_operator (h : s.operator? c = some op) (t : Text) :
    s.cut? (c :: t) = some ([], op, t) := by
  rw [operator?] at h
  rw [cut?, cutFrom, h]

theorem cut?_of_passed (h : s.operator? c = none) (t : Text) :
    s.cut? (c :: t) = ((s.step c).cut? t).map fun (l, op, r) => (c :: l, op, r) := by
  rw [operator?] at h
  rw [cut?, cutFrom, h]
  rfl

/-- A text that is passed without a cut can be taken off the front. -/
theorem cut?_append (h : s.cut? a = none) (b : Text) :
    s.cut? (a ++ b) = ((s.after a).cut? b).map fun (l, op, r) => (a ++ l, op, r) := by
  induction a generalizing s with
  | nil => simp
  | cons c a ih =>
    cases hop : s.operator? c with
    | some op => rw [cut?_of_operator hop] at h; cases h
    | none =>
      rw [cut?_of_passed hop, Option.map_eq_none_iff] at h
      rw [List.cons_append, cut?_of_passed hop, ih h, Option.map_map, after_cons]
      rfl

/-- What is behind a cut does not matter. -/
theorem cut?_append_of_some (h : s.cut? a = some (left, op, right)) (b : Text) :
    s.cut? (a ++ b) = some (left, op, right ++ b) := by
  induction a generalizing s left with
  | nil => cases h
  | cons c a ih =>
    cases hop : s.operator? c with
    | some op' =>
      rw [cut?_of_operator hop] at h
      cases h
      rw [List.cons_append, cut?_of_operator hop]
    | none =>
      rw [cut?_of_passed hop] at h
      obtain ⟨⟨l, op', r⟩, hcut, heq⟩ := Option.map_eq_some_iff.1 h
      cases heq
      rw [List.cons_append, cut?_of_passed hop, ih hcut]
      rfl

/-- An operator is read off its own character. -/
theorem toChar_of_operator? (h : s.operator? c = some op) : op.toChar = c := by
  rw [operator?] at h
  split_ifs at h
  exact Operator.toChar_of_ofChar? h

/-- A cut takes out the operator and nothing else. -/
theorem eq_of_cut? (h : s.cut? t = some (left, op, right)) :
    t = left ++ op.toChar :: right := by
  induction t generalizing s left with
  | nil => cases h
  | cons c t ih =>
    cases hop : s.operator? c with
    | some op' =>
      rw [cut?_of_operator hop] at h
      cases h
      rw [toChar_of_operator? hop]
      rfl
    | none =>
      rw [cut?_of_passed hop] at h
      obtain ⟨⟨l, op', r⟩, hcut, heq⟩ := Option.map_eq_some_iff.1 h
      cases heq
      rw [ih hcut]
      rfl

/-- A cut is at an operator. -/
theorem operator?_of_cut? (h : s.cut? t = some (left, op, right)) :
    (s.after left).operator? op.toChar = some op := by
  induction t generalizing s left with
  | nil => cases h
  | cons c t ih =>
    cases hop : s.operator? c with
    | some op' =>
      rw [cut?_of_operator hop] at h
      cases h
      rwa [toChar_of_operator? hop]
    | none =>
      rw [cut?_of_passed hop] at h
      obtain ⟨⟨l, op', r⟩, hcut, heq⟩ := Option.map_eq_some_iff.1 h
      cases heq
      rw [after_cons]
      exact ih hcut

/-! ### White space and other characters that do nothing -/

theorem operator?_of_isInert (h : isInert c = true) : s.operator? c = none := by
  rw [operator?, ofChar?_of_isInert h, ite_self]

theorem cut?_of_isInert (h : ∀ c ∈ t, isInert c = true) : s.cut? t = none := by
  induction t generalizing s with
  | nil => rfl
  | cons c t ih =>
    rw [cut?_of_passed (operator?_of_isInert (h c List.mem_cons_self)),
      ih fun x hx => h x (List.mem_cons_of_mem c hx)]
    rfl

theorem nesting_after_of_isFlat (hs : s.nesting.quote = none) (h : ∀ c ∈ t, isFlat c = true) :
    (s.after t).nesting = s.nesting := by
  induction t generalizing s with
  | nil => rfl
  | cons c t ih =>
    have hstep : (s.step c).nesting = s.nesting := step_of_isFlat (h c List.mem_cons_self) hs
    rw [after_cons, ih (hstep ▸ hs) fun x hx => h x (List.mem_cons_of_mem c hx), hstep]

/-- White space outside of quotations leaves the scan where it is. -/
theorem after_of_isBlank (hs : s.nesting.quote = none) (h : ∀ c ∈ t, isBlank c = true) :
    s.after t = s := by
  induction t generalizing s with
  | nil => rfl
  | cons c t ih =>
    have hc := h c List.mem_cons_self
    have hstep : s.step c = s := by
      rw [step, step_of_isFlat (isFlat_of_isInert (isInert_of_isBlank hc)) hs, hs, hc]
      rfl
    rw [after_cons, hstep]
    exact ih hs fun x hx => h x (List.mem_cons_of_mem c hx)

theorem cut?_of_isBlank (h : ∀ c ∈ t, isBlank c = true) : s.cut? t = none :=
  cut?_of_isInert fun c hc => isInert_of_isBlank (h c hc)

/-- The scan remembers the last character of a text that does not end in white space. -/
theorem previous_after (h : t.getLast? = some c) (hc : isBlank c = false) :
    (s.after t).previous = some c := by
  obtain ⟨front, rfl⟩ := List.getLast?_eq_some_iff.1 h
  rw [after_append, after_cons, after_nil, step, hc, Bool.and_false]
  rfl

/-- White space around a text does not make or hide a cut. -/
theorem cut?_trim (t : Text) : start.cut? t = none ↔ start.cut? t.trim = none := by
  obtain ⟨front, back, ht, hfront, hback, -⟩ := Text.exists_trim t
  have hpass : start.cut? front = none := cut?_of_isBlank hfront
  have hfrontCut : start.cut? t = (start.cut? (t.trim ++ back)).map
      fun (l, op, r) => (front ++ l, op, r) := by
    conv_lhs => rw [ht, List.append_assoc]
    rw [cut?_append hpass, after_of_isBlank rfl hfront]
  rw [hfrontCut, Option.map_eq_none_iff]
  cases hcut : start.cut? t.trim with
  | none =>
    rw [cut?_append hcut, cut?_of_isBlank hback]
    exact iff_of_true rfl rfl
  | some parts =>
    obtain ⟨l, op, r⟩ := parts
    rw [cut?_append_of_some hcut]
    exact iff_of_false nofun nofun

end Scan

/-! ## Inside of brackets -/

/-- A text that is passed inside of brackets, and behind which the same brackets are open. -/
def Enclosed (t : Text) : Prop :=
  ∀ (s : Scan) (depth : Nat), s.nesting = ⟨depth + 1, none⟩ →
    s.cut? t = none ∧ (s.after t).nesting = ⟨depth + 1, none⟩

section Enclosed

variable {a b t : Text} {opening closing : Char} {s : Scan} {depth : Nat}

theorem operator?_enclosed (hs : s.nesting = ⟨depth + 1, none⟩) (c : Char) :
    s.operator? c = none := by
  rw [Scan.operator?, hs]
  rfl

theorem enclosed_append (ha : Enclosed a) (hb : Enclosed b) : Enclosed (a ++ b) := by
  intro s depth hs
  obtain ⟨hcut, hnesting⟩ := ha s depth hs
  obtain ⟨hcut', hnesting'⟩ := hb _ depth hnesting
  rw [Scan.cut?_append hcut, Scan.after_append, hcut']
  exact ⟨rfl, hnesting'⟩

theorem enclosed_of_isFlat (h : ∀ c ∈ t, isFlat c = true) : Enclosed t := by
  induction t with
  | nil => exact fun s depth hs => ⟨rfl, hs⟩
  | cons c t ih =>
    intro s depth hs
    have hstep : (s.step c).nesting = ⟨depth + 1, none⟩ := by
      rw [Scan.step, step_of_isFlat (h c List.mem_cons_self) (by rw [hs]), hs]
    obtain ⟨hcut, hnesting⟩ := ih (fun x hx => h x (List.mem_cons_of_mem c hx)) _ depth hstep
    rw [Scan.cut?_of_passed (operator?_enclosed hs c), hcut]
    exact ⟨rfl, hnesting⟩

/-- What is between two brackets leaves the scan at the depth where it was. -/
theorem passes_brackets (hopen : isOpener opening = true) (hclose : isCloser closing = true)
    (ht : Enclosed t) (hs : s.nesting = ⟨depth, none⟩) :
    s.cut? (opening :: (t ++ [closing])) = none ∧
      (s.after (opening :: (t ++ [closing]))).nesting = ⟨depth, none⟩ := by
  have hopenOp : Operator.ofChar? opening = none ∧
      Nesting.step ⟨depth, none⟩ opening = ⟨depth + 1, none⟩ := by
    simp only [isOpener, Bool.or_eq_true, beq_iff_eq] at hopen
    rcases hopen with (rfl | rfl) | rfl <;> exact ⟨rfl, rfl⟩
  have hcloseStep : Nesting.step ⟨depth + 1, none⟩ closing = ⟨depth, none⟩ := by
    simp only [isCloser, Bool.or_eq_true, beq_iff_eq] at hclose
    rcases hclose with (rfl | rfl) | rfl <;> rfl
  have hpassed : s.operator? opening = none := by
    rw [Scan.operator?, hopenOp.1, ite_self]
  have hinside : (s.step opening).nesting = ⟨depth + 1, none⟩ := by
    rw [Scan.step, hs]
    exact hopenOp.2
  obtain ⟨hcut, hnesting⟩ := ht _ depth hinside
  have hlast : ((s.step opening).after t).cut? [closing] = none := by
    rw [Scan.cut?_of_passed (operator?_enclosed hnesting closing)]
    rfl
  rw [Scan.cut?_of_passed hpassed, Scan.cut?_append hcut, hlast, Scan.after_cons,
    Scan.after_append, Scan.after_cons, Scan.after_nil, Scan.step, hnesting]
  exact ⟨rfl, hcloseStep⟩

theorem enclosed_brackets (hopen : isOpener opening = true) (hclose : isCloser closing = true)
    (ht : Enclosed t) : Enclosed (opening :: (t ++ [closing])) := fun _ _ hs =>
  passes_brackets hopen hclose ht hs

end Enclosed

/-! ## Operands in front of an operator -/

/-- The scan passes the text from the start, and a sign behind it is an operator. -/
structure IsPassed (t : Text) : Prop where
  uncut : Scan.start.cut? t = none
  nesting : (Scan.start.after t).nesting = .start
  previous : (Scan.start.after t).previous.any endsOperand = true

theorem endsOperand_of_isInert {c : Char} (h : isInert c = true) (hcomma : c ≠ ',') :
    endsOperand c = true := by
  have hparen : c ≠ '(' := by
    rintro rfl
    exact absurd h (by decide)
  simp [endsOperand, ofChar?_of_isInert h, hparen, hcomma]

/-- A sign in front is no operator, and what does nothing to the scan is passed. -/
theorem isPassed_of_sign (g : Sign) {t : Text} {c : Char} (hinert : ∀ c ∈ t, isInert c = true)
    (hlast : t.getLast? = some c) (hblank : isBlank c = false) (hcomma : c ≠ ',') :
    IsPassed (g.text ++ t) := by
  have hsign : Scan.start.cut? g.text = none ∧
      (Scan.start.after g.text).nesting = .start := by
    cases g <;> exact ⟨rfl, rfl⟩
  have hquote : (Scan.start.after g.text).nesting.quote = none := by rw [hsign.2]; rfl
  refine ⟨?_, ?_, ?_⟩
  · rw [Scan.cut?_append hsign.1, Scan.cut?_of_isInert hinert]
    rfl
  · rw [Scan.after_append,
      Scan.nesting_after_of_isFlat hquote fun x hx => isFlat_of_isInert (hinert x hx), hsign.2]
  · rw [Scan.after_append, Scan.previous_after hlast hblank]
    exact endsOperand_of_isInert (hinert c (List.mem_of_getLast? hlast)) hcomma

/-- An operator behind a text that is passed is where the scan cuts. -/
theorem IsPassed.cut? {a : Text} (ha : IsPassed a) (op : Operator) (b : Text) :
    Scan.start.cut? (a ++ op.toChar :: b) = some (a, op, b) := by
  have hop : (Scan.start.after a).operator? op.toChar = some op := by
    rw [Scan.operator?, ha.nesting, ha.previous, Operator.ofChar?_toChar]
    rfl
  rw [Scan.cut?_append ha.uncut, Scan.cut?_of_operator hop]
  simp

theorem IsPassed.append_isBlank {a gap : Text} (ha : IsPassed a)
    (hgap : ∀ c ∈ gap, isBlank c = true) : IsPassed (a ++ gap) := by
  have hafter : Scan.start.after (a ++ gap) = Scan.start.after a := by
    rw [Scan.after_append, Scan.after_of_isBlank (by rw [ha.nesting]; rfl) hgap]
  refine ⟨?_, by rw [hafter, ha.nesting], by rw [hafter, ha.previous]⟩
  rw [Scan.cut?_append ha.uncut, Scan.cut?_of_isBlank hgap]
  rfl

/-! ## Trimmed sides -/

theorem cut?_of_uncut {t : Text} (h : Scan.start.cut? t = none) : cut? t = none := by
  rw [cut?, show cutFrom .start none t = none from h]

/-- A cut with something on either side. -/
theorem cut?_of_scan {t left right : Text} {op : Operator}
    (h : Scan.start.cut? t = some (left, op, right)) (hleft : left.trim ≠ [])
    (hright : right.trim ≠ []) : cut? t = some (left.trim, op, right.trim) := by
  rw [cut?, show cutFrom .start none t = _ from h]
  simp [hleft, hright]

/-- The two sides of a cut, before they are trimmed. -/
theorem exists_of_cut? {t left right : Text} {op : Operator}
    (h : cut? t = some (left, op, right)) :
    ∃ l r, Scan.start.cut? t = some (l, op, r) ∧ l.trim = left ∧ r.trim = right ∧
      left ≠ [] ∧ right ≠ [] := by
  rw [cut?] at h
  cases hcut : cutFrom .start none t with
  | none =>
    rw [hcut] at h
    cases h
  | some parts =>
    obtain ⟨l, op', r⟩ := parts
    rw [hcut] at h
    dsimp only at h
    split_ifs at h with hempty
    cases h
    rw [Bool.or_eq_true, List.isEmpty_iff, List.isEmpty_iff, not_or] at hempty
    exact ⟨l, r, hcut, rfl, rfl, hempty.1, hempty.2⟩

/-- The text of an operand with an operator and another operand behind it. -/
theorem cut?_binary {a b before behind : Text} (ha : IsPassed a) (hane : a ≠ [])
    (hatrim : a.IsTrimmed) (hbne : b ≠ []) (hbtrim : b.IsTrimmed)
    (hbefore : ∀ c ∈ before, isBlank c = true) (hbehind : ∀ c ∈ behind, isBlank c = true)
    (op : Operator) :
    cut? (a ++ (before ++ op.toChar :: (behind ++ b))) = some (a, op, b) := by
  have hcut := (ha.append_isBlank hbefore).cut? op (behind ++ b)
  have hnil : ∀ c ∈ ([] : Text), isBlank c = true := List.forall_mem_nil _
  have hleft : (a ++ before).trim = a := Text.trim_eq hnil hbefore hatrim
  have hright : (behind ++ b).trim = b := by simpa using Text.trim_eq hbehind hnil hbtrim
  have hparts := cut?_of_scan hcut (by rwa [hleft]) (by rwa [hright])
  rwa [hleft, hright, List.append_assoc] at hparts

end Expr

end StepTrace
