import StepTrace.Proofs.Expr.Passed

/-!
# Parentheses around an expression

The parentheses around an expression are taken away only after the search for an operator, and what
is inside is then read as an operand. So they do not matter around an operand, and around two
operands with an operator they do (`Expr.eval_read_parens`).

The search does not look into parentheses, unless they close brackets that were never opened: with
one more of them open it finds no more than without (`Expr.Scan.IsDeeper.cut?`). What it finds then
has a parenthesis too much on either side and the value 0 (`Expr.eval_read_parens_of_cut`). If it
finds nothing, an operand is left. An operand with a value of its own has no operator on the top
level, except for an element whose brackets belong to two different elements.
-/

namespace StepTrace.Expr

open CharClass

/-! ## Deeper scans -/

/-- The other scan has at least as many brackets open. -/
structure Scan.IsDeeper (s other : Scan) : Prop where
  unquoted : s.nesting.quote = none
  otherUnquoted : other.nesting.quote = none
  depth : s.nesting.depth ≤ other.nesting.depth
  previous : other.previous.any endsOperand = true → s.previous.any endsOperand = true

namespace Scan.IsDeeper

variable {s other : Scan} {c : Char} {t : Text}

theorem step (h : s.IsDeeper other) (hc : isQuote c = false) :
    (s.step c).IsDeeper (other.step c) := by
  have hnesting : ∀ {n : Nesting}, n.quote = none → n.step c =
      ⟨if isOpener c then n.depth + 1 else if isCloser c then n.depth - 1 else n.depth, none⟩ := by
    intro n hn
    obtain ⟨depth, quote⟩ := n
    cases hn
    simp only [Nesting.step, hc, Bool.false_eq_true, if_false]
    split_ifs <;> rfl
  have hdepth := h.depth
  refine ⟨?_, ?_, ?_, ?_⟩
  · rw [Scan.step, hnesting h.unquoted]
  · rw [Scan.step, hnesting h.otherUnquoted]
  · simp only [Scan.step, hnesting h.unquoted, hnesting h.otherUnquoted]
    split_ifs <;> omega
  · simp only [Scan.step, h.unquoted, h.otherUnquoted]
    split_ifs
    · exact h.previous
    · exact id

theorem operator? (h : s.IsDeeper other) (hc : s.operator? c = none) :
    other.operator? c = none := by
  have hopen : (other.nesting.isOpen && other.previous.any endsOperand) = true →
      (s.nesting.isOpen && s.previous.any endsOperand) = true := by
    intro hother
    rw [Bool.and_eq_true, Nesting.isOpen, Bool.and_eq_true, beq_iff_eq] at hother
    have hdepth : s.nesting.depth = 0 := Nat.le_zero.1 (hother.1.1 ▸ h.depth)
    simp [Nesting.isOpen, hdepth, h.unquoted, h.previous hother.2]
  rw [Scan.operator?] at hc ⊢
  by_cases hother : (other.nesting.isOpen && other.previous.any endsOperand) = true
  · rw [if_pos (hopen hother)] at hc
    rw [if_pos hother, hc]
  · rw [if_neg hother]

/-- A deeper scan does not find more. -/
theorem cut? (h : s.IsDeeper other) (ht : ∀ c ∈ t, isQuote c = false) (hcut : s.cut? t = none) :
    other.cut? t = none := by
  induction t generalizing s other with
  | nil => rfl
  | cons c t ih =>
    cases hop : s.operator? c with
    | some op =>
      rw [Scan.cut?_of_operator hop] at hcut
      cases hcut
    | none =>
      rw [Scan.cut?_of_passed hop, Option.map_eq_none_iff] at hcut
      rw [Scan.cut?_of_passed (h.operator? hop), Option.map_eq_none_iff]
      exact ih (h.step (ht c List.mem_cons_self)) (fun x hx => ht x (List.mem_cons_of_mem c hx))
        hcut

end Scan.IsDeeper

section Cuts

variable {e t core : Text}

/-- Parentheses around a text do not make an operator in it count. -/
theorem cut?_parens (hquote : ∀ c ∈ e, isQuote c = false) (h : Scan.start.cut? e = none) :
    Scan.start.cut? ('(' :: (e ++ [')'])) = none := by
  have hopening : Scan.start.operator? '(' = none := rfl
  have hdeeper : Scan.start.IsDeeper (Scan.start.step '(') := ⟨rfl, rfl, Nat.zero_le _, nofun⟩
  have hclosing : ∀ s : Scan, s.cut? [')'] = none := by
    intro s
    have hpassed : s.operator? ')' = none := by
      rw [Scan.operator?]
      split_ifs <;> rfl
    rw [Scan.cut?_of_passed hpassed]
    rfl
  rw [Scan.cut?_of_passed hopening, Scan.cut?_append (hdeeper.cut? hquote h), hclosing]
  rfl

/-! ## Operators inside of pairs of parentheses -/

theorem enclosed_of_isBlank (h : ∀ c ∈ t, isBlank c = true) : Enclosed t :=
  enclosed_of_isFlat fun c hc => isFlat_of_isInert (isInert_of_isBlank (h c hc))

theorem enclosed_of_wrapped (h : Text.Wrapped core t) (hcore : Enclosed core) : Enclosed t := by
  induction h with
  | bare => exact hcore
  | parens _ ih => exact enclosed_brackets (by decide) (by decide) ih
  | spaced _ hfront hback ih =>
    exact enclosed_append (enclosed_append (enclosed_of_isBlank hfront) ih)
      (enclosed_of_isBlank hback)

/-- Parentheses around a text that is passed inside of brackets are passed. -/
theorem uncut_of_enclosed (h : Enclosed t) : Scan.start.cut? ('(' :: (t ++ [')'])) = none := by
  have hopen : isOpener '(' = true := by decide
  have hclose : isCloser ')' = true := by decide
  exact (passes_brackets hopen hclose h (s := .start) rfl).1

/-- Around a text that is passed inside of brackets there are no parentheses, or the scan passes
them. -/
theorem trim_eq_or_uncut (h : Text.Wrapped core t) (hcore : Enclosed core) :
    t.trim = core.trim ∨ Scan.start.cut? t = none := by
  induction h with
  | bare => exact .inl rfl
  | parens h _ => exact .inr (uncut_of_enclosed (enclosed_of_wrapped h hcore))
  | @spaced t front back _ hfront hback ih =>
    have htrim := Text.trim_append hfront hback t
    rcases ih with ih | ih
    · exact .inl (htrim.trans ih)
    · right
      rw [Scan.cut?_trim, htrim, ← Scan.cut?_trim]
      exact ih

/-- An operand that the scan passes has no operator in it with parentheses around it either. -/
theorem uncut_of_unwrap (h : IsOperandText e.unwrap) : Scan.start.cut? e = none := by
  rcases trim_eq_or_uncut (Text.wrapped_unwrap e) h.enclosed with htrim | huncut
  · rw [Scan.cut?_trim, htrim, ← Scan.cut?_trim]
    exact h.passed.uncut
  · exact huncut

/-- In front of an operator there is something. -/
theorem trim_left_ne_nil {left right : Text} {op : Operator}
    (h : Scan.start.cut? t = some (left, op, right)) : left.trim ≠ [] := by
  intro htrim
  obtain ⟨front, back, hleft, hfront, hback, -⟩ := Text.exists_trim left
  rw [htrim, List.append_nil] at hleft
  have hblank : ∀ c ∈ left, isBlank c = true := by
    rw [hleft]
    exact List.forall_mem_append.2 ⟨hfront, hback⟩
  have hop := Scan.operator?_of_cut? h
  rw [Scan.after_of_isBlank rfl hblank] at hop
  cases hop

/-- An operator with nothing behind it stands at the end. -/
theorem exists_of_cut?_eq_none (htrim : t.IsTrimmed) (hcut : cut? t = none)
    (hscan : Scan.start.cut? t ≠ none) : ∃ front op, t = front ++ [Operator.toChar op] := by
  obtain ⟨⟨left, op, right⟩, hparts⟩ := Option.ne_none_iff_exists'.1 hscan
  have hright : right.trim = [] := by
    by_contra hne
    rw [cut?_of_scan hparts (trim_left_ne_nil hparts) hne] at hcut
    cases hcut
  have ht := Scan.eq_of_cut? hparts
  rcases List.eq_nil_or_concat right with rfl | ⟨front, c, rfl⟩
  · exact ⟨left, op, ht⟩
  · -- The text would end in white space.
    have hlast : t.getLast? = some c := by
      rw [ht, List.concat_eq_append, ← List.cons_append, ← List.append_assoc, List.getLast?_concat]
    obtain ⟨u, hu⟩ := Text.exists_trim_concat (htrim.last c hlast) front
    rw [List.concat_eq_append, hu] at hright
    simp at hright

end Cuts

/-! ## Values -/

section Values

variable {s : Store} {e left right : Text} {op : Operator}

/-- What begins with a parenthesis is no literal and no name. -/
theorem isNameless_of_opening (t : Text) : IsNameless (Text.trim ('(' :: t)) := by
  obtain ⟨u, hu⟩ := Text.exists_trim_cons (c := '(') (by decide) t
  refine ⟨Text.isTrimmed_trim _, by simp [hu], fun c hc => ?_, ?_⟩
  · rw [hu] at hc
    cases hc
    decide
  · rw [Number.ofLiteral?_trim]
    exact Number.ofLiteral?_eq_none_of_mem (c := '(') (by simp [hu]) (by decide) (by decide)

/-- What closes more parentheses than it opens, the last of them at its end, has no value. -/
theorem eval_operand_of_closing (hs : s.BindsNames) {t : Text}
    (hcount : (t ++ [')']).count '(' < (t ++ [')']).count ')') :
    (operand (Text.trim (t ++ [')']))).eval s = .ok .zero := by
  obtain ⟨u, hu⟩ := Text.exists_trim_concat (c := ')') (by decide) t
  rw [← Text.count_trim (by decide), ← Text.count_trim (c := ')') (by decide)] at hcount
  have hliteral : Number.ofLiteral? (Text.trim (t ++ [')'])) = none := by
    rw [Number.ofLiteral?_trim]
    exact Number.ofLiteral?_eq_none_of_mem (c := ')') (by simp [hu]) (by decide) (by decide)
  have hvalue := operandValue hs (Text.trim (t ++ [')']))
  rw [Text.trim_trim] at hvalue
  generalize (operand (Text.trim (t ++ [')']))).eval s = v at hvalue
  rw [hu] at hcount hvalue hliteral
  have hnone : ∀ {name : Text}, name.isName → name.count '(' = 0 ∧ name.count ')' = 0 :=
    fun hname => ⟨List.count_eq_zero.2 (Text.not_mem_of_isName hname (by decide)),
      List.count_eq_zero.2 (Text.not_mem_of_isName hname (by decide))⟩
  cases hvalue with
  | nothing => rfl
  | literal h =>
    rw [hliteral] at h
    cases h
  | @property name ending hname hending h =>
    have hall : ∀ ending ∈ lengthEndings, ending.count '(' = ending.count ')' := by decide
    rw [h, List.count_append, List.count_append, (hnone hname).1, (hnone hname).2,
      hall ending hending] at hcount
    exact absurd hcount (Nat.lt_irrefl _)
  | @call inner hname hfilled h =>
    obtain ⟨hopening, hclosing⟩ := hnone hname
    rw [Text.count_trim (by decide)] at hopening hclosing
    simp [h, List.count_append, hopening, hclosing] at hcount
  | element h =>
    obtain ⟨-, -, ht⟩ := indexed?_eq_some_iff.1 h
    have hlast := congrArg List.getLast? ht
    rw [List.getLast?_concat, ← List.cons_append, ← List.append_assoc,
      List.getLast?_concat] at hlast
    cases hlast
  | named h => exact absurd (by simp) (Text.not_mem_of_isName h (c := ')') (by decide))

theorem ofLiteral?_parens (e : Text) : Number.ofLiteral? ('(' :: (e ++ [')'])) = none := by
  refine Number.ofLiteral?_eq_none_of_mem (c := '(') ?_ (by decide) (by decide)
  rw [(Text.isTrimmed_parens e).trim_eq]
  exact List.mem_cons_self

/-- An operator in parentheses that counts leaves one of them too much on either side. -/
theorem eval_read_parens_of_cut (hs : s.BindsNames) (he : e.balanced)
    (hcut : cut? ('(' :: (e ++ [')'])) = some (left, op, right)) :
    (read ('(' :: (e ++ [')']))).eval s = .ok .zero := by
  have htrim := (Text.isTrimmed_parens e).trim_eq
  have hread := read_of_cut (ofLiteral?_parens e) (htrim.symm ▸ hcut)
  obtain ⟨l, r, hscan, rfl, rfl, hleft, hright⟩ := exists_of_cut? hcut
  have hparts := Scan.eq_of_cut? hscan
  cases l with
  | nil => exact absurd rfl hleft
  | cons c l =>
    rw [List.cons_append] at hparts
    obtain ⟨rfl, hrest⟩ := List.cons.inj hparts
    rcases List.eq_nil_or_concat r with rfl | ⟨r, x, rfl⟩
    · exact absurd rfl hright
    rw [List.concat_eq_append] at hread hrest
    have hsplit : e ++ [')'] = (l ++ op.toChar :: r) ++ [x] := by simpa using hrest
    obtain ⟨hinner, hx⟩ := List.append_inj' hsplit rfl
    obtain rfl : ')' = x := List.singleton_inj.1 hx
    have hcount : (r ++ [')']).count '(' < (r ++ [')']).count ')' := by
      have hle : r.count '(' ≤ r.count ')' :=
        Text.count_le_of_balanced (a := l ++ [op.toChar]) (by simpa [hinner] using he)
      simp [List.count_append]
      omega
    rw [hread, eval_binary ((isNameless_of_opening l).eval_operand hs)
      (eval_operand_of_closing hs hcount), Number.apply_zero]

/-- An operator at the end of a text is no name. -/
theorem eval_operand_of_trailing (hs : s.BindsNames) {t : Text}
    (htrim : Text.IsTrimmed (t ++ [op.toChar]))
    (hliteral : Number.ofLiteral? (t ++ [op.toChar]) = none) :
    (operand (t ++ [op.toChar])).eval s = .ok .zero := by
  have hvalue := operandValue hs (t ++ [op.toChar])
  rw [htrim.trim_eq] at hvalue
  have hlast : (t ++ [op.toChar]).getLast? = some op.toChar := List.getLast?_concat
  have hword : isWord op.toChar = false := by cases op <;> decide
  generalize (operand (t ++ [op.toChar])).eval s = v at hvalue
  generalize t ++ [op.toChar] = u at *
  cases hvalue with
  | nothing => rfl
  | literal h =>
    rw [hliteral] at h
    cases h
  | @property name ending hname hending h =>
    have hall : ∀ ending ∈ lengthEndings, op.toChar ∉ ending := by cases op <;> decide
    rcases List.mem_append.1 (h ▸ List.mem_of_getLast? hlast) with hmem | hmem
    · exact absurd hmem (Text.not_mem_of_isName hname hword)
    · exact absurd hmem (hall ending hending)
  | call _ _ h =>
    rw [h, ← List.append_assoc, List.getLast?_concat] at hlast
    cases op <;> cases hlast
  | element h =>
    obtain ⟨-, -, ht⟩ := indexed?_eq_some_iff.1 h
    rw [ht, ← List.cons_append, ← List.append_assoc, List.getLast?_concat] at hlast
    cases op <;> cases hlast
  | named h => exact absurd (List.mem_of_getLast? hlast) (Text.not_mem_of_isName h hword)

end Values

/-! ## Expressions in parentheses -/

/-- Two operands with an operator between them. -/
def isBinary : Expr → Bool
  | .binary .. => true
  | _ => false

theorem isBinary_operand (t : Text) : (operand t).isBinary = false := by
  have hform := operandForm t
  generalize operand t = e at hform
  cases hform <;> rfl

section Parens

variable {s : Store} {e : Text}

theorem read_parens_of_uncut (he : e.balanced) (hcut : cut? ('(' :: (e ++ [')'])) = none) :
    read ('(' :: (e ++ [')'])) = operand e.unwrap := by
  have htrim := (Text.isTrimmed_parens e).trim_eq
  rw [read_of_uncut (ofLiteral?_parens e) (htrim.symm ▸ hcut), htrim, Text.unwrap_parens he]

/-- Parentheses around an operand do not matter. -/
theorem eval_read_parens_of_operand (hs : s.BindsNames) (he : e.balanced)
    (hquote : ∀ c ∈ e, isQuote c = false) (hliteral : Number.ofLiteral? e = none)
    (hcut : cut? e.trim = none) :
    (read ('(' :: (e ++ [')']))).eval s = (read e).eval s := by
  have hunwrap : e.trim.unwrap = e.unwrap := Text.unwrap_congr (Text.trim_trim e)
  rw [read_of_uncut hliteral hcut, hunwrap]
  cases hparens : cut? ('(' :: (e ++ [')'])) with
  | none => rw [read_parens_of_uncut he hparens]
  | some parts =>
    -- An operator at the end of the expression counts only with the parenthesis behind it.
    have hscan : Scan.start.cut? e.trim ≠ none := by
      intro h
      rw [cut?_of_uncut (cut?_parens hquote ((Scan.cut?_trim e).2 h))] at hparens
      cases hparens
    obtain ⟨front, op, ht⟩ := exists_of_cut?_eq_none (Text.isTrimmed_trim e) hcut hscan
    have hclosing : e.unwrap = e.trim := by
      refine Text.unwrap_eq_trim fun inner hinner => ?_
      have hlast := congrArg List.getLast? (Text.between?_eq_some_iff.1 hinner)
      rw [ht, List.getLast?_concat, ← List.cons_append, List.getLast?_concat] at hlast
      cases op <;> cases hlast
    have htrim := Text.isTrimmed_trim e
    rw [← Number.ofLiteral?_trim, ht] at hliteral
    rw [ht] at htrim
    rw [eval_read_parens_of_cut hs he hparens, hclosing, ht,
      eval_operand_of_trailing hs htrim hliteral]

theorem enclosed_of_ofLiteral? {t : Text} {x : Number} (h : Number.ofLiteral? t = some x) :
    Enclosed t := by
  obtain ⟨n, hn, -⟩ := Number.ofLiteral?_eq_some_iff.1 h
  obtain ⟨front, back, ht, hfront, hback, -⟩ := Text.exists_trim t
  have hcore : Enclosed t.trim := enclosed_of_isFlat fun c hc => isFlat_of_mem_numeral (hn ▸ hc)
  have hwrapped : Text.Wrapped t.trim (front ++ t.trim ++ back) := .spaced .bare hfront hback
  rw [← ht] at hwrapped
  exact enclosed_of_wrapped hwrapped hcore

/-- Parentheses around a literal do not matter. -/
theorem read_parens_of_literal (he : e.balanced) {x : Number}
    (h : Number.ofLiteral? e = some x) : read ('(' :: (e ++ [')'])) = .literal x := by
  have huncut := uncut_of_enclosed (enclosed_of_ofLiteral? h)
  have hhead : e.trim.head? ≠ some '(' := by
    intro hhead
    rw [Number.ofLiteral?_eq_none_of_mem (List.mem_of_head? hhead) (by decide) (by decide)] at h
    cases h
  rw [read_parens_of_uncut he (cut?_of_uncut huncut), Text.unwrap_of_head? hhead]
  exact operand_of_literal ((Number.ofLiteral?_trim e).trans h)

/-- What is left of two operands is 0 or an element whose index has the operator in it. -/
theorem eval_read_parens_of_binary (hs : s.BindsNames) (he : e.balanced)
    (hliteral : Number.ofLiteral? e = none) (hcut : cut? e.trim ≠ none) :
    (read ('(' :: (e ++ [')']))).eval s = .ok .zero ∨
      ∃ name index items, indexed? e.unwrap = some (name, index) ∧
        s.get? name = some (.list items) ∧
        (read ('(' :: (e ++ [')']))).eval s = (read index).eval s >>= elementAt items := by
  have hscan : Scan.start.cut? e ≠ none := fun h =>
    hcut (cut?_of_uncut ((Scan.cut?_trim e).1 h))
  have hoperand : ¬IsOperandText e.unwrap := fun h => hscan (uncut_of_unwrap h)
  cases hparens : cut? ('(' :: (e ++ [')'])) with
  | some parts => exact .inl (eval_read_parens_of_cut hs he hparens)
  | none =>
    have hvalue := operandValue hs e.unwrap
    rw [(Text.isTrimmed_unwrap e).trim_eq] at hvalue
    rw [read_parens_of_uncut he hparens]
    generalize (operand e.unwrap).eval s = v at hvalue
    cases hvalue with
    | nothing => exact .inl rfl
    | literal h =>
      rcases trim_eq_or_uncut (Text.wrapped_unwrap e) (enclosed_of_ofLiteral? h) with ht | huncut
      · rw [← Number.ofLiteral?_trim, ht, Number.ofLiteral?_trim, h] at hliteral
        cases hliteral
      · exact absurd huncut hscan
    | property hname hending h => exact absurd (h ▸ isOperandText_of_ending hname hending) hoperand
    | call hname hfilled h =>
      have hline := (Bool.and_eq_true_iff.1 hfilled).2
      exact absurd (h ▸ isOperandText_of_call hname (by simpa using hline)) hoperand
    | element h hitems => exact .inr ⟨_, _, _, h, hitems, rfl⟩
    | named h => exact absurd (isOperandText_of_isName h) hoperand

end Parens

/-- Parentheses around an expression without an operator do not change its value. Around two
operands with an operator they do: the value is 0, or the element that the first and the last
bracket of the expression make together. -/
theorem eval_read_parens {s : Store} (hs : s.BindsNames) {e : Text} (he : e.balanced)
    (hquote : ∀ c ∈ e, isQuote c = false) :
    ((read e).isBinary = false → (read ('(' :: (e ++ [')']))).eval s = (read e).eval s) ∧
    ((read e).isBinary = true → (read ('(' :: (e ++ [')']))).eval s = .ok .zero ∨
      ∃ name index items, indexed? e.unwrap = some (name, index) ∧
        s.get? name = some (.list items) ∧
        (read ('(' :: (e ++ [')']))).eval s = (read index).eval s >>= elementAt items) := by
  cases hliteral : Number.ofLiteral? e with
  | some x =>
    rw [read_of_literal hliteral, read_parens_of_literal he hliteral]
    exact ⟨fun _ => rfl, nofun⟩
  | none =>
    cases hcut : cut? e.trim with
    | none =>
      refine ⟨fun _ => eval_read_parens_of_operand hs he hquote hliteral hcut, fun hbinary => ?_⟩
      rw [read_of_uncut hliteral hcut, isBinary_operand] at hbinary
      cases hbinary
    | some parts =>
      obtain ⟨left, op, right⟩ := parts
      refine ⟨fun hbinary => ?_, fun _ => ?_⟩
      · rw [read_of_cut hliteral hcut] at hbinary
        cases hbinary
      · exact eval_read_parens_of_binary hs he hliteral (by rw [hcut]; nofun)

/-- One more pair of parentheses around an element of a list. -/
theorem eval_read_parens_element :
    (read "(xs[1 - n] )".toList).isBinary = false ∧
      (read "((xs[1 - n] ))".toList).eval
          ⟨[("xs".toList, .list [.num (.int 4), .num (.int 7)]), ("n".toList, .num (.int 0))]⟩ =
        .ok (.int 7) := by
  have hnames : Store.BindsNames
      ⟨[("xs".toList, .list [.num (.int 4), .num (.int 7)]), ("n".toList, .num (.int 0))]⟩ := by
    decide
  have hoperand : (read "(xs[1 - n] )".toList).isBinary = false := by decide +kernel
  have heval := (eval_read_parens hnames (e := "(xs[1 - n] )".toList) (by decide) (by decide)).1
    hoperand
  exact ⟨hoperand, heval.trans (by decide +kernel)⟩

/-- A sum in parentheses is 0, and a sum of two elements in parentheses is an element. -/
theorem eval_read_parens_sum :
    (read "1 + 2".toList).eval .empty = .ok (.int 3) ∧
      (read "(1 + 2)".toList).eval .empty = .ok .zero ∧
      (read "(xs[1] + xs[0])".toList).eval
          ⟨[("xs".toList, .list [.num (.int 4), .num (.int 7)])]⟩ = .ok (.int 4) := by
  decide +kernel

end StepTrace.Expr
