import StepTrace.Proofs.Expr.Operand

/-!
# Operands that a scan passes

Names, lengths and elements are texts that begin with a name and that the scan for an operator
passes whole (`Expr.IsOperandText`). Each is a name with characters behind it that do nothing to the
scan, or with brackets at the end (`Expr.isOperandText_of_isInert`,
`Expr.isOperandText_of_brackets`). So an expression that is just such a text is that operand
(`Expr.IsOperandText.read_eq`).
-/

namespace StepTrace

open CharClass

namespace Expr

/-- A text on one line with something in it, without parentheses around it or open brackets. -/
structure IsSolid (t : Text) : Prop where
  filled : t ≠ []
  trimmed : t.IsTrimmed
  head : t.head? ≠ some '('
  oneLine : '\n' ∉ t
  enclosed : Enclosed t

/-- A solid text that the scan for an operator passes. -/
structure IsOperandText (t : Text) : Prop extends IsSolid t where
  passed : IsPassed t

section Texts

variable {t name inner : Text}

/-- An operand text has no operator for its expression to be cut at. -/
theorem IsOperandText.read_eq (h : IsOperandText t) : read t = operand t := by
  cases hliteral : Number.ofLiteral? t with
  | some x => rw [read_of_literal hliteral, operand_of_literal hliteral]
  | none =>
    have hcut : cut? t.trim = none := by
      rw [h.trimmed.trim_eq]
      exact cut?_of_uncut h.passed.uncut
    have hunwrap : t.trim.unwrap = t := by
      rw [h.trimmed.trim_eq, Text.unwrap_of_head?] <;> rw [h.trimmed.trim_eq]
      exact h.head
    rw [read_of_uncut hliteral hcut, hunwrap]

/-- A name with something behind it that does not end in white space. -/
theorem isSolid_of_name {rest : Text} {c : Char} (hname : name.isName)
    (hlast : (name ++ rest).getLast? = some c) (hblank : isBlank c = false)
    (hline : '\n' ∉ rest) (henclosed : Enclosed rest) : IsSolid (name ++ rest) := by
  have hword : ∀ x ∈ name, isWord x = true := fun x => Text.isWord_of_mem_isName hname
  have hflat : ∀ x ∈ name, isFlat x = true := fun x hx =>
    isFlat_of_isInert (isInert_of_isWord (hword x hx))
  obtain ⟨d, tail, rfl⟩ := List.exists_cons_of_ne_nil (Text.isName_ne_nil hname)
  refine ⟨by simp, ⟨fun x hx => ?_, fun x hx => ?_⟩, ?_, ?_, ?_⟩
  · cases hx
    exact Text.not_isBlank_of_isName hname _ List.mem_cons_self
  · rw [hlast] at hx
    cases hx
    exact hblank
  · rintro h
    cases h
    exact absurd (hword '(' List.mem_cons_self) (by decide)
  · rw [List.mem_append, not_or]
    exact ⟨Text.not_mem_of_isName hname (by decide), hline⟩
  · exact enclosed_append (enclosed_of_isFlat hflat) henclosed

/-- A name and characters behind it that do nothing to the scan. -/
theorem isOperandText_of_isInert {rest : Text} {c : Char} (hname : name.isName)
    (hrest : ∀ x ∈ rest, isInert x = true) (hlast : (name ++ rest).getLast? = some c)
    (hblank : isBlank c = false) (hcomma : c ≠ ',') (hline : '\n' ∉ rest) :
    IsOperandText (name ++ rest) := by
  have hinert : ∀ x ∈ name ++ rest, isInert x = true := List.forall_mem_append.2
    ⟨fun x hx => isInert_of_isWord (Text.isWord_of_mem_isName hname hx), hrest⟩
  have henclosed : Enclosed rest := enclosed_of_isFlat fun x hx => isFlat_of_isInert (hrest x hx)
  exact ⟨isSolid_of_name hname hlast hblank hline henclosed,
    isPassed_of_sign .absent hinert hlast hblank hcomma⟩

/-- A name, characters that do nothing to the scan, and brackets at the end. -/
theorem isOperandText_of_brackets {middle : Text} {opening closing : Char} (hname : name.isName)
    (hmiddle : ∀ x ∈ middle, isInert x = true) (hmiddleLine : '\n' ∉ middle)
    (hopening : opening = '(' ∨ opening = '[') (hclosing : closing = ')' ∨ closing = ']')
    (hinner : Enclosed inner) (hinnerLine : '\n' ∉ inner) :
    IsOperandText (name ++ (middle ++ opening :: (inner ++ [closing]))) := by
  have hopener : isOpener opening = true := by rcases hopening with rfl | rfl <;> decide
  have hcloser : isCloser closing = true := by rcases hclosing with rfl | rfl <;> decide
  have hblank : isBlank closing = false := by rcases hclosing with rfl | rfl <;> decide
  have hlast : (name ++ (middle ++ opening :: (inner ++ [closing]))).getLast? = some closing := by
    rw [← List.append_assoc, ← List.cons_append, ← List.append_assoc, List.getLast?_concat]
  have hline : '\n' ∉ middle ++ opening :: (inner ++ [closing]) := by
    rcases hopening with rfl | rfl <;> rcases hclosing with rfl | rfl <;>
      simp [hmiddleLine, hinnerLine]
  have henclosed : Enclosed (middle ++ opening :: (inner ++ [closing])) :=
    enclosed_append (enclosed_of_isFlat fun x hx => isFlat_of_isInert (hmiddle x hx))
      (enclosed_brackets hopener hcloser hinner)
  refine ⟨isSolid_of_name hname hlast hblank hline henclosed, ?_⟩
  have hinert : ∀ x ∈ name ++ middle, isInert x = true := List.forall_mem_append.2
    ⟨fun x hx => isInert_of_isWord (Text.isWord_of_mem_isName hname hx), hmiddle⟩
  have hfront : (Scan.start.after (name ++ middle)).nesting = .start :=
    Scan.nesting_after_of_isFlat rfl fun x hx => isFlat_of_isInert (hinert x hx)
  obtain ⟨hcut, hnesting⟩ := passes_brackets hopener hcloser hinner hfront
  rw [← List.append_assoc] at hlast ⊢
  refine ⟨?_, ?_, ?_⟩
  · rw [Scan.cut?_append (Scan.cut?_of_isInert hinert), hcut]
    rfl
  · rw [Scan.after_append]
    exact hnesting
  · rw [Scan.previous_after hlast hblank]
    rcases hclosing with rfl | rfl <;> decide

theorem isOperandText_of_isName (hname : name.isName) : IsOperandText name := by
  have hne := Text.isName_ne_nil hname
  have hblank := Text.not_isBlank_of_isName hname _ (List.getLast_mem hne)
  have hcomma : name.getLast hne ≠ ',' := by
    intro h
    exact Text.not_mem_of_isName hname (by decide) (h ▸ List.getLast_mem hne)
  have htext : IsOperandText (name ++ []) :=
    isOperandText_of_isInert hname (by simp)
      (by rw [List.append_nil, List.getLast?_eq_some_getLast hne]) hblank hcomma (by simp)
  rwa [List.append_nil] at htext

theorem isOperandText_of_ending {ending : Text} (hname : name.isName)
    (hending : ending ∈ lengthEndings) : IsOperandText (name ++ ending) := by
  have hlast : ∀ {ending : Text} {c : Char}, ending.getLast? = some c →
      (name ++ ending).getLast? = some c := by
    intro ending c hc
    rw [List.getLast?_append, hc, Option.some_or]
  simp only [lengthEndings, List.mem_cons, List.not_mem_nil, or_false] at hending
  rcases hending with rfl | rfl | rfl | rfl
  · exact isOperandText_of_isInert (c := 'h') hname (by decide) (hlast rfl) (by decide) (by decide)
      (by decide)
  · exact isOperandText_of_isInert (c := 'h') hname (by decide) (hlast rfl) (by decide) (by decide)
      (by decide)
  · show IsOperandText (name ++ (".len".toList ++ '(' :: ([] ++ [')'])))
    exact isOperandText_of_brackets hname (by decide) (by decide) (.inl rfl) (.inl rfl)
      (enclosed_of_isFlat (by simp)) (by simp)
  · exact isOperandText_of_isInert (c := 't') hname (by decide) (hlast rfl) (by decide) (by decide)
      (by decide)

theorem isOperandText_of_call (hname : inner.trim.isName) (hline : '\n' ∉ inner) :
    IsOperandText ("len(".toList ++ (inner ++ [')'])) := by
  have hflat : ∀ c ∈ inner, isFlat c = true := by
    obtain ⟨front, back, hinner, hfront, hback, -⟩ := Text.exists_trim inner
    intro c hc
    rw [hinner, List.mem_append, List.mem_append] at hc
    refine isFlat_of_isInert ?_
    rcases hc with (hc | hc) | hc
    · exact isInert_of_isBlank (hfront c hc)
    · exact isInert_of_isWord (Text.isWord_of_mem_isName hname hc)
    · exact isInert_of_isBlank (hback c hc)
  show IsOperandText ("len".toList ++ ([] ++ '(' :: (inner ++ [')'])))
  exact isOperandText_of_brackets (by decide) (by simp) (by simp) (.inl rfl) (.inl rfl)
    (enclosed_of_isFlat hflat) hline

theorem isOperandText_of_element {index : Text} (hname : name.isName) (hindex : Enclosed index)
    (hline : '\n' ∉ index) : IsOperandText (name ++ '[' :: (index ++ [']'])) := by
  show IsOperandText (name ++ ([] ++ '[' :: (index ++ [']'])))
  exact isOperandText_of_brackets hname (by simp) (by simp) (.inr rfl) (.inr rfl) hindex hline

end Texts

end Expr

end StepTrace
