import StepTrace.Proofs.Text.Splitting

/-!
# Quoted literals as arguments

A quoted literal has quotes of one kind at its ends, and every quote of this kind inside has a
backslash before it (`Text.unquote?_eq_some_iff`). The scan that splits a text into parts knows no
backslashes. For it the quotation ends at the first quote inside, and what follows is read as code
that stands by itself (`Text.isFree_quoted`).

So a literal without quotes of its kind inside is one argument, one term and one item, and is shown
as its inner text. With such quotes it is one part exactly if there is no separator outside of
quotations and brackets in what follows the first of them (`Text.literal_is_one_part`).
-/

namespace StepTrace

open CharClass

/-! ## The form of a literal -/

namespace Text

theorem not_isBlank_of_isQuote {q : Char} (h : isQuote q = true) : isBlank q = false := by
  simp only [isQuote, Bool.or_eq_true, beq_iff_eq] at h
  rcases h with (rfl | rfl) | rfl <;> decide

/-- A text between two quotes. -/
theorem isTrimmed_quoted {q : Char} (h : isQuote q = true) (body : Text) :
    IsTrimmed (q :: (body ++ [q])) :=
  isTrimmed_enclosed (not_isBlank_of_isQuote h) (not_isBlank_of_isQuote h) body

/-- Quotes without a backslash before them are bare. -/
theorem hasBare_eq_false_iff {q : Char} : ∀ {t : Text} {previous : Option Char},
    hasBare q previous t = false ↔
      ∀ a b, t = a ++ q :: b → a.getLast?.or previous = some '\\'
  | [], _ => by simp [hasBare]
  | c :: t, previous => by
    rw [hasBare, Bool.or_eq_false_iff, Bool.and_eq_false_imp, hasBare_eq_false_iff]
    constructor
    · rintro ⟨hhead, htail⟩ a b hab
      cases a with
      | nil =>
        obtain ⟨rfl, -⟩ := List.cons.inj hab
        simpa using hhead (beq_self_eq_true c)
      | cons d a =>
        obtain ⟨rfl, hrest⟩ := List.cons.inj hab
        have h := htail a b hrest
        cases ha : a.getLast? with
        | none =>
          obtain rfl := List.getLast?_eq_none_iff.1 ha
          simpa using h
        | some e => simpa [List.getLast?_cons, ha] using h
    · intro h
      refine ⟨fun hc => ?_, fun a b hab => ?_⟩
      · obtain rfl := beq_iff_eq.1 hc
        simpa using h [] t rfl
      · have h' := h (c :: a) b (by rw [hab]; rfl)
        cases ha : a.getLast? with
        | none => simpa [List.getLast?_cons, ha] using h'
        | some e => simpa [List.getLast?_cons, ha] using h'

/-- A literal is the text between two quotes of one kind, without a bare one inside. -/
theorem unquote?_eq_some_iff {t inner : Text} : t.unquote? = some inner ↔
    ∃ q, isQuote q = true ∧ t.trim = q :: (inner ++ [q]) ∧ hasBare q none inner = false := by
  unfold unquote?
  cases htrim : t.trim with
  | nil => simp
  | cons q rest =>
    simp only
    constructor
    · intro h
      split_ifs at h with hquote hbare
      cases h
      obtain ⟨front, rfl⟩ := List.getLast?_eq_some_iff.1 hquote.2
      rw [List.dropLast_concat] at hbare ⊢
      exact ⟨q, hquote.1, rfl, by simpa using hbare⟩
    · rintro ⟨q', hq', hrest, hbare⟩
      obtain ⟨rfl, rfl⟩ := List.cons.inj hrest
      simp [hq', hbare]

theorem unquote?_trim (t : Text) : t.trim.unquote? = t.unquote? := by
  rw [unquote?, trim_trim, unquote?]

end Text

/-! ## What the scan sees -/

namespace Nesting

theorem step_quote {q : Char} (hq : isQuote q = true) : start.step q = ⟨0, some q⟩ := by
  simp [step, start, hq]

theorem step_quoted {q c : Char} : (⟨0, some q⟩ : Nesting).step c =
    if c = q then start else ⟨0, some q⟩ := rfl

/-- A quotation without quotes of its kind inside closes what it opens. -/
theorem after_literal {q : Char} (hq : isQuote q = true) {body : Text} (h : q ∉ body) :
    start.after (q :: (body ++ [q])) = start := by
  have hbody : (⟨0, some q⟩ : Nesting).after body = ⟨0, some q⟩ := by
    induction body with
    | nil => rfl
    | cons c body ih =>
      rw [List.mem_cons, not_or] at h
      rw [after, List.foldl_cons, step_quoted, if_neg (Ne.symm h.1)]
      exact ih h.2
  rw [after, List.foldl_cons, step_quote hq, ← after, after_append, hbody]
  simp [after, step_quoted]

end Nesting

namespace Text

variable {s : Text} {q : Char}

/-- Inside of a quotation there is no separator, up to the next quote of its kind. -/
theorem isFree_inside_iff {a rest : Text} (ha : q ∉ a) :
    IsFree s ⟨0, some q⟩ (a ++ q :: rest) ↔ IsFree s .start rest := by
  induction a with
  | nil => simp [isFree_cons_iff, Nesting.step_quoted, Nesting.isOpen]
  | cons c a ih =>
    rw [List.mem_cons, not_or] at ha
    rw [List.cons_append, isFree_cons_iff, Nesting.step_quoted, if_neg (Ne.symm ha.1), ih ha.2]
    simp [Nesting.isOpen]

/-- A quotation ends at the next quote of its kind, and what follows is read from the start. -/
theorem isFree_quoted (hs : s.isSeparator) (hq : isQuote q = true) {a rest : Text} (ha : q ∉ a) :
    IsFree s .start (q :: (a ++ q :: rest)) ↔ IsFree s .start rest := by
  have hprefix : ¬s <+: q :: (a ++ q :: rest) := by
    intro hprefix
    obtain ⟨d, u, rfl⟩ := List.exists_cons_of_ne_nil (separator_ne_nil hs)
    obtain ⟨rfl, -⟩ := List.cons_prefix_cons.1 hprefix
    have htop := isTop_of_mem_separator hs (c := d) (by simp) (n := .start) rfl
    simp [Nesting.isTop, hq] at htop
  rw [isFree_cons_iff, Nesting.step_quote hq, isFree_inside_iff ha]
  exact and_iff_right fun h => absurd h hprefix

/-- A quotation without quotes of its kind inside has no separator. -/
theorem isFree_literal (hs : s.isSeparator) (hq : isQuote q = true) {body : Text} (h : q ∉ body) :
    IsFree s .start (q :: (body ++ [q])) :=
  (isFree_quoted hs hq h).2 (isFree_blanks hs (List.forall_mem_nil _) _)

/-- Such a quotation can stand between separators. -/
theorem isPiece_literal (hs : s.isSeparator) (hq : isQuote q = true) {body : Text} (h : q ∉ body) :
    IsPiece s (q :: (body ++ [q])) where
  trimmed := (isTrimmed_quoted hq body).trim_eq
  nonempty := List.cons_ne_nil _ _
  closed := Nesting.after_literal hq h
  free := isFree_literal hs hq h

theorem unquote?_literal (hq : isQuote q = true) {t body : Text} (ht : t.trim = q :: (body ++ [q]))
    (h : q ∉ body) : t.unquote? = some body :=
  unquote?_eq_some_iff.2 ⟨q, hq, ht, hasBare_eq_false_iff.2 fun a b hab => by simp [hab] at h⟩

end Text

/-! ## What is shown -/

namespace Print

theorem value_trim (store : Store) (t : Text) : value store t.trim = value store t := by
  rw [value, Argument.read, Text.trim_trim, value, Argument.read]

theorem value_of_unquote? {t inner : Text} (h : t.unquote? = some inner) (store : Store) :
    value store t = .ok inner := by
  simp [value, Argument.read, Text.unquote?_trim, h, Argument.render]

theorem spaced_singleton (t : Text) : spaced [t] = t.trim := by
  cases t with
  | nil => rfl
  | cons c t => simp [spaced, Text.joined]

/-- An argument that is one term is shown by itself. -/
theorem words_of_singleton {t : Text} (hargs : t.arguments = [t.trim])
    (hterms : t.trim.terms = [t.trim]) (store : Store) :
    words store t = (value store t.trim).map Text.trim := by
  have hphrase : phrase store t.trim = value store t.trim := by
    simp [phrase, concatenated, hterms]
  rw [words, hargs, List.mapM_cons, hphrase]
  cases value store t.trim with
  | error f => rfl
  | ok text => exact congrArg Except.ok (spaced_singleton text)

end Print

namespace Text

/-- A literal has quotes of one kind at its ends, and those inside have a backslash before them.
Without quotes inside it is the only part of its text at each separator, and its inner text is
shown, trimmed. With quotes inside it is the only part exactly if what follows the first of them,
read as code that stands by itself, has no separator outside of quotations and brackets; if it is
the only argument and the only term, its inner text is shown as well. -/
theorem literal_is_one_part {t inner : Text} (h : t.unquote? = some inner) :
    ∃ q, isQuote q = true ∧ t.trim = q :: (inner ++ [q]) ∧
      (∀ a b, inner = a ++ q :: b → a.getLast? = some '\\') ∧
      (q ∉ inner → (∀ s split, (s, split) ∈ separators → split t = [t.trim]) ∧
        ∀ store, Print.words store t = .ok inner.trim) ∧
      (∀ a b, inner = a ++ q :: b → q ∉ a → ∀ s split, (s, split) ∈ separators →
        (split t = [t.trim] ↔ IsFree s .start (b ++ [q]))) ∧
      (t.arguments = [t.trim] → t.terms = [t.trim] →
        ∀ store, Print.words store t = .ok inner.trim) := by
  obtain ⟨q, hq, htrim, hbare⟩ := unquote?_eq_some_iff.1 h
  have hne : t.trim ≠ [] := by simp [htrim]
  have halone : q ∉ inner → ∀ s split, (s, split) ∈ separators → split t = [t.trim] := by
    intro hinner s split hmem
    obtain ⟨hs, rfl⟩ := isSeparator_of_mem hmem
    rw [splitParts_eq_singleton_iff hs hne, htrim]
    exact isFree_literal hs hq hinner
  have hshown : t.arguments = [t.trim] → t.terms = [t.trim] →
      ∀ store, Print.words store t = .ok inner.trim := by
    intro hargs hterms store
    have hplus : t.trim.terms = [t.trim] := by
      have hfree := (splitParts_eq_singleton_iff (s := ['+']) (by decide) hne).1 hterms
      rw [← trim_trim] at hfree hne
      rw [terms, (splitParts_eq_singleton_iff (by decide) hne).2 hfree, trim_trim]
    rw [Print.words_of_singleton hargs hplus,
      Print.value_of_unquote? ((unquote?_trim t).trans h)]
    rfl
  refine ⟨q, hq, htrim, fun a b hab => ?_, fun hinner => ⟨halone hinner, ?_⟩, ?_, hshown⟩
  · simpa using hasBare_eq_false_iff.1 hbare a b hab
  · exact hshown (halone hinner [','] arguments (by simp [separators]))
      (halone hinner ['+'] terms (by simp [separators]))
  · rintro a b rfl ha s split hmem
    obtain ⟨hs, rfl⟩ := isSeparator_of_mem hmem
    rw [splitParts_eq_singleton_iff hs hne, htrim, List.append_assoc, List.cons_append,
      isFree_quoted hs hq ha]

/-- Separators stand inside of the literal, but not between the two quotes with a backslash. -/
theorem literal_is_one_part_with_quotes :
    let t : Text := " \"a, \\\"b\\\" + c << d\"".toList
    let inner : Text := "a, \\\"b\\\" + c << d".toList
    t.unquote? = some inner ∧ t.arguments = [t.trim] ∧ t.terms = [t.trim] ∧
      t.streamItems = [t.trim] ∧ Print.words .empty t = .ok inner := by
  intro t inner
  have hunquote : t.unquote? = some inner := by decide
  obtain ⟨q, -, htrim, -, -, hsplit, hshown⟩ := literal_is_one_part hunquote
  obtain rfl : '"' = q := (List.cons.inj htrim).1
  have halone := hsplit "a, \\".toList "b\\\" + c << d".toList (by decide) (by decide)
  have hargs : t.arguments = [t.trim] :=
    (halone [','] arguments (by simp [separators])).2 (by decide)
  have hterms : t.terms = [t.trim] := (halone ['+'] terms (by simp [separators])).2 (by decide)
  exact ⟨hunquote, hargs, hterms,
    (halone ['<', '<'] streamItems (by simp [separators])).2 (by decide),
    hshown hargs hterms .empty⟩

/-- Behind the first quote with a backslash each separator splits the literal, and what is shown is
not its inner text. -/
theorem literal_is_split :
    let t : Text := "\"a\\\", b\"".toList
    t.unquote? = some "a\\\", b".toList ∧
      t.arguments = ["\"a\\\"".toList, "b\"".toList] ∧
      Print.words .empty t = .ok "a\\ 0".toList ∧
      terms "\"a\\\" + b\"".toList = ["\"a\\\"".toList, "b\"".toList] ∧
      streamItems "\"a\\\" << b\"".toList = ["\"a\\\"".toList, "b\"".toList] := by
  decide +kernel

end Text

end StepTrace
