import StepTrace.Proofs.Print.Literal
import StepTrace.Proofs.Source.Kept
import StepTrace.Proofs.Source.Layouts

/-!
# Literals and comments

A line of brace code is gone over three times before it is read: block comments are taken out, the
line is cut at the marker of a line comment, and what is left is cut into statements. The last two
scans know quotations and agree on where they begin and end. So a literal (`PlacedLiteral`) that no
comment stands before goes through them as it is, into one statement. The first one does not look at
quotations, and a block comment is taken out wherever it begins.

So such a literal is found in one of the prepared lines, unless a block comment begins inside of it
or inside of a quotation before it (`literal_kept`).
-/

namespace StepTrace

open CharClass

/-! ## Literals of a line -/

/-- A literal on its line: what stands before it, its quote, what is inside, and what follows. The
scan over the line is outside of quotations before it, and outside again at its end and no
sooner. -/
structure PlacedLiteral where
  before : Text
  quote : Char
  body : Text
  behind : Text
  isQuote_quote : isQuote quote = true
  outside : before.foldl Quotation.step .outside = .outside
  inside : ∀ front ∈ body.inits, front.foldl Quotation.step (.inside quote) ≠ .outside
  closed : body.foldl Quotation.step (.inside quote) = .inside quote

namespace Text

/-- A block comment begins here and ends on the line. -/
def BeginsBlock (t : Text) : Prop := ['/', '*'] <+: t ∧ ['*', '/'] <:+: t.drop 2

/-- A comment begins here, if this is code. -/
def BeginsComment (t : Text) : Prop := ['/', '/'] <+: t ∨ t.BeginsBlock

instance (t : Text) : Decidable t.BeginsBlock :=
  inferInstanceAs (Decidable (['/', '*'] <+: t ∧ ['*', '/'] <:+: t.drop 2))

instance (t : Text) : Decidable t.BeginsComment :=
  inferInstanceAs (Decidable (['/', '/'] <+: t ∨ t.BeginsBlock))

end Text

namespace PlacedLiteral

variable (l : PlacedLiteral)

/-- The literal with its quotes. -/
def text : Text := l.quote :: (l.body ++ [l.quote])

/-- The line that the literal stands on. -/
def line : Text := l.before ++ (l.text ++ l.behind)

/-- No comment of the line begins before the literal. -/
def PrecedesComments : Prop :=
  ∀ k < l.before.length, (l.line.take k).foldl Quotation.step .outside = .outside →
    ¬Text.BeginsComment (l.line.drop k)

/-- No block comment begins inside of a quotation, up to the end of the literal. -/
def QuotesNoComment : Prop :=
  ∀ k < l.before.length + l.text.length,
    (l.line.take k).foldl Quotation.step .outside ≠ .outside → ¬Text.BeginsBlock (l.line.drop k)

instance : Decidable l.PrecedesComments :=
  inferInstanceAs (Decidable (∀ k < l.before.length,
    (l.line.take k).foldl Quotation.step .outside = .outside →
      ¬Text.BeginsComment (l.line.drop k)))

instance : Decidable l.QuotesNoComment :=
  inferInstanceAs (Decidable (∀ k < l.before.length + l.text.length,
    (l.line.take k).foldl Quotation.step .outside ≠ .outside →
      ¬Text.BeginsBlock (l.line.drop k)))

theorem isTrimmed_text : l.text.IsTrimmed := Text.isTrimmed_quoted l.isQuote_quote l.body

theorem quote_ne {c : Char} (hc : isQuote c = false) : l.quote ≠ c := by
  rintro rfl
  rw [l.isQuote_quote] at hc
  cases hc

theorem step_quote : Quotation.outside.step l.quote = .inside l.quote := by
  simp [Quotation.step, l.isQuote_quote]

theorem foldl_text : l.text.foldl Quotation.step .outside = .outside := by
  rw [text, List.foldl_cons, l.step_quote, List.foldl_append, l.closed]
  simp [Quotation.step, l.quote_ne (c := '\\') (by decide)]

/-- Behind its first quote the scan is inside of the literal up to its end. -/
theorem foldl_take {k : Nat} (hlow : l.before.length < k)
    (hhigh : k < l.before.length + l.text.length) :
    (l.line.take k).foldl Quotation.step .outside ≠ .outside := by
  obtain ⟨j, rfl⟩ : ∃ j, k = l.before.length + (j + 1) := ⟨k - l.before.length - 1, by omega⟩
  have hj : j ≤ l.body.length := by
    simp only [text, List.length_cons, List.length_append, List.length_nil] at hhigh
    omega
  have htake : l.line.take (l.before.length + (j + 1)) = l.before ++ l.quote :: l.body.take j := by
    rw [line, text, List.take_length_add_append, List.cons_append, List.take_succ_cons,
      List.append_assoc, List.take_append_of_le_length hj]
  rw [htake, List.foldl_append, l.outside, List.foldl_cons, l.step_quote]
  exact l.inside _ ((List.mem_inits _ _).2 (List.take_prefix j l.body))

/-- Inside of a literal there is no code. -/
theorem codeFrom_text : Text.codeFrom .outside l.text = [] := by
  have hinside : ∀ {t : Text} {q : Quotation},
      (∀ front ∈ t.inits, front.foldl Quotation.step q ≠ .outside) → Text.codeFrom q t = [] := by
    intro t
    induction t with
    | nil => exact fun _ => rfl
    | cons c t ih =>
      intro q h
      have hq : q ≠ .outside := h [] (by simp)
      rw [Text.codeFrom, if_neg (by simp [Quotation.isCode, hq])]
      refine ih fun front hfront => h (c :: front) ?_
      rw [List.mem_inits] at hfront ⊢
      exact List.cons_prefix_cons.2 ⟨rfl, hfront⟩
  rw [text, Text.codeFrom, if_neg (by simp [Quotation.isCode, l.isQuote_quote]), l.step_quote,
    Text.codeFrom_append, hinside l.inside, l.closed]
  rfl

end PlacedLiteral

/-! ## Comments that are taken away -/

namespace Text

/-- Two characters that begin in a text stand in it, if what follows does not begin with the second.
-/
theorem pair_prefix_of_append {a rest : Text} {c d : Char} (ha : a ≠ [])
    (hrest : rest.head? ≠ some d) (h : [c, d] <+: a ++ rest) : [c, d] <+: a := by
  obtain ⟨x, a, rfl⟩ := List.exists_cons_of_ne_nil ha
  obtain ⟨rfl, htail⟩ := List.cons_prefix_cons.1 h
  cases a with
  | nil =>
    obtain ⟨u, hu⟩ := htail
    exact absurd (congrArg List.head? hu).symm hrest
  | cons y a =>
    rw [(List.cons_prefix_cons.1 htail).1]
    exact List.prefix_append [c, y] a

theorem infix_of_afterCommentEnd? {t rest : Text} (h : t.afterCommentEnd? = some rest) :
    ['*', '/'] <:+: t := by
  fun_induction afterCommentEnd? t with
  | case1 => cases h
  | case2 t => exact (List.prefix_append ['*', '/'] t).isInfix
  | case3 c t => cases h
  | case4 c t _ _ ih => exact (ih h).trans (List.suffix_cons c t).isInfix

/-- The end of a block comment is found where it is first written. -/
theorem afterCommentEnd?_append {inner rest : Text} (hfeed : '\n' ∉ inner)
    (hend : ¬['*', '/'] <:+: inner) :
    afterCommentEnd? (inner ++ '*' :: '/' :: rest) = some rest := by
  induction inner with
  | nil => rfl
  | cons c inner ih =>
    rw [List.mem_cons, not_or] at hfeed
    have hrest := ih hfeed.2 fun h => hend (h.trans (List.suffix_cons c inner).isInfix)
    -- The first two characters are no end, also where the second one is the star of the end.
    have hne : ∀ t, c = '*' → inner ++ '*' :: '/' :: rest ≠ '/' :: t := by
      rintro t rfl h
      cases inner with
      | nil => cases h
      | cons d inner =>
        obtain rfl : d = '/' := (List.cons.inj h).1
        exact hend (List.prefix_append ['*', '/'] inner).isInfix
    rw [List.cons_append, afterCommentEnd?.eq_3 _ _ hne, if_neg (Ne.symm hfeed.1), hrest]

theorem uncommentedBlocksFrom_drop : ∀ (t : Text) (skip : Nat),
    uncommentedBlocksFrom skip t = uncommentedBlocks (t.drop skip)
  | [], skip => by
    rw [List.drop_nil, uncommentedBlocks, uncommentedBlocksFrom, uncommentedBlocksFrom]
  | c :: t, 0 => rfl
  | c :: t, skip + 1 => by
    rw [uncommentedBlocksFrom, uncommentedBlocksFrom_drop t skip, List.drop_succ_cons]

/-- A block comment is taken out. -/
theorem uncommentedBlocks_block {inner rest : Text} (hfeed : '\n' ∉ inner)
    (hend : ¬['*', '/'] <:+: inner) :
    uncommentedBlocks ('/' :: '*' :: (inner ++ '*' :: '/' :: rest)) = rest.uncommentedBlocks := by
  have hfound : (after? ['*'] ('*' :: (inner ++ '*' :: '/' :: rest))).bind afterCommentEnd? =
      some rest := afterCommentEnd?_append hfeed hend
  have hskip : '*' :: (inner ++ '*' :: '/' :: rest) = ('*' :: inner ++ ['*', '/']) ++ rest := by
    simp
  rw [uncommentedBlocks, uncommentedBlocksFrom, if_pos rfl, hfound]
  show uncommentedBlocksFrom (('*' :: (inner ++ '*' :: '/' :: rest)).length - rest.length) _ = _
  rw [uncommentedBlocksFrom_drop, hskip, List.length_append, Nat.add_sub_cancel, List.drop_left]

/-- Where no block comment begins, the line is kept. -/
theorem uncommentedBlocks_append {a b : Text} (h : ∀ k < a.length, ¬BeginsBlock ((a ++ b).drop k)) :
    uncommentedBlocks (a ++ b) = a ++ b.uncommentedBlocks := by
  induction a with
  | nil => rfl
  | cons c a ih =>
    have hnone : (if c = '/' then (after? ['*'] (a ++ b)).bind afterCommentEnd? else none) =
        none := by
      by_contra hsome
      obtain ⟨rest, hrest⟩ := Option.ne_none_iff_exists'.1 hsome
      split_ifs at hrest with hc
      obtain ⟨t, ht, hend⟩ := Option.bind_eq_some_iff.1 hrest
      cases hab : a ++ b with
      | nil =>
        rw [hab] at ht
        cases ht
      | cons d u =>
        rw [hab, after?] at ht
        split_ifs at ht with hd
        cases ht
        refine h 0 (by simp) ⟨?_, ?_⟩
        · rw [List.drop_zero, List.cons_append, hab, hc, ← hd]
          exact List.prefix_append ['/', '*'] t
        · rw [List.drop_zero, List.cons_append, hab]
          exact infix_of_afterCommentEnd? hend
    rw [List.cons_append, uncommentedBlocks, uncommentedBlocksFrom, hnone]
    refine congrArg (c :: ·) (ih fun k hk => ?_)
    simpa using h (k + 1) (by simpa using hk)

/-- Where no marker stands in the code, the line is kept. -/
theorem uncommentedFrom_append {marker a b : Text} {q : Quotation}
    (h : ∀ k < a.length, (a.take k).foldl Quotation.step q = .outside →
      ¬marker <+: (a ++ b).drop k) :
    uncommentedFrom marker q (a ++ b) =
      a ++ uncommentedFrom marker (a.foldl Quotation.step q) b := by
  induction a generalizing q with
  | nil => rfl
  | cons c a ih =>
    have hcut : ¬(q.isCode c && marker.isPrefixOf (c :: (a ++ b))) = true := by
      rw [Bool.and_eq_true, List.isPrefixOf_iff_prefix, Quotation.isCode, Bool.and_eq_true,
        beq_iff_eq]
      rintro ⟨⟨houtside, -⟩, hmarker⟩
      exact h 0 (by simp) houtside hmarker
    have hrest := ih (q := q.step c) fun k hk hfold => by
      simpa using h (k + 1) (by simpa using hk) hfold
    rw [List.cons_append, uncommentedFrom, if_neg hcut, hrest]
    rfl

end Text

namespace PlacedLiteral

variable (l : PlacedLiteral)

/-- A comment does not begin with the quote of a literal. -/
theorem not_prefix_text {c : Char} (hc : isQuote c = false) (t rest : Text) :
    ¬c :: t <+: l.text ++ rest := by
  intro h
  exact l.quote_ne hc (List.cons_prefix_cons.1 h).1.symm

theorem uncommentedBlocks_line (hfirst : l.PrecedesComments) (hquoted : l.QuotesNoComment) :
    l.line.uncommentedBlocks = l.before ++ (l.text ++ l.behind.uncommentedBlocks) := by
  have hline : l.line = l.before ++ l.text ++ l.behind := (List.append_assoc ..).symm
  have hnone : ∀ k < (l.before ++ l.text).length, ¬Text.BeginsBlock (l.line.drop k) := by
    intro k hk
    rw [List.length_append] at hk
    by_cases hout : (l.line.take k).foldl Quotation.step .outside = .outside
    · rcases Nat.lt_trichotomy k l.before.length with hlt | rfl | hgt
      · exact fun h => hfirst k hlt hout (Or.inr h)
      · rintro ⟨h, -⟩
        rw [line, List.drop_left] at h
        exact l.not_prefix_text (by decide) _ _ h
      · exact absurd hout (l.foldl_take hgt hk)
    · exact hquoted k hk hout
  rw [hline] at hnone ⊢
  rw [Text.uncommentedBlocks_append hnone, List.append_assoc]

/-- A literal is kept where the comments are taken away. -/
theorem withoutComments_line (hfirst : l.PrecedesComments) (hquoted : l.QuotesNoComment) :
    ∃ rest, withoutComments [['/', '/']] l.line.uncommentedBlocks =
      l.before ++ (l.text ++ rest) := by
  have hbefore : ∀ k < l.before.length,
      (l.before.take k).foldl Quotation.step .outside = .outside →
      ¬['/', '/'] <+: (l.before ++ (l.text ++ l.behind.uncommentedBlocks)).drop k := by
    intro k hk hout h
    have htake : l.line.take k = l.before.take k := List.take_append_of_le_length hk.le
    refine hfirst k hk (htake ▸ hout) (Or.inl ?_)
    rw [List.drop_append_of_le_length hk.le] at h
    rw [line, List.drop_append_of_le_length hk.le]
    have hhead : (l.text ++ l.behind.uncommentedBlocks).head? ≠ some '/' := fun hslash =>
      l.quote_ne (c := '/') (by decide) (Option.some.inj hslash)
    exact (Text.pair_prefix_of_append (by simpa using hk) hhead h).trans (List.prefix_append ..)
  have htext : ∀ k < l.text.length, (l.text.take k).foldl Quotation.step .outside = .outside →
      ¬['/', '/'] <+: (l.text ++ l.behind.uncommentedBlocks).drop k := by
    intro k hk hout
    cases k with
    | zero => exact l.not_prefix_text (by decide) _ _
    | succ k =>
      refine absurd ?_ (l.foldl_take (k := l.before.length + (k + 1)) (by omega) (by omega))
      rw [line, List.take_length_add_append, List.foldl_append, l.outside,
        List.take_append_of_le_length hk.le, hout]
  refine ⟨Text.uncommentedFrom ['/', '/'] .outside l.behind.uncommentedBlocks, ?_⟩
  rw [l.uncommentedBlocks_line hfirst hquoted]
  show Text.uncommentedFrom _ _ _ = _
  rw [Text.uncommentedFrom_append hbefore, l.outside, Text.uncommentedFrom_append htext,
    l.foldl_text]

end PlacedLiteral

/-! ## Statements with a literal -/

namespace Text

/-- What has no white space at its ends is not touched by trimming what is around it. -/
theorem infix_trim {w t : Text} (h : w <:+: t) (hw : w.IsTrimmed) (hne : w ≠ []) :
    w <:+: t.trim := by
  obtain ⟨x, y, hxy⟩ := h
  obtain ⟨front, back, ht, hfront, hback, -⟩ := exists_trim t
  have hsame : x ++ (w ++ y) = front ++ (t.trim ++ back) := by
    rw [← List.append_assoc, hxy, ← List.append_assoc, ← ht]
  generalize t.trim = core at hsame ⊢
  -- Nothing of the text stands in the white space in front.
  have hleft : ∃ x', core ++ back = x' ++ w ++ y := by
    rcases List.append_eq_append_iff.1 hsame with ⟨u, rfl, hu⟩ | ⟨u, rfl, hu⟩
    · cases u with
      | nil => exact ⟨[], by simpa using hu.symm⟩
      | cons c u =>
        obtain ⟨d, w, rfl⟩ := List.exists_cons_of_ne_nil hne
        obtain ⟨rfl, -⟩ := List.cons.inj hu
        have hblank := hfront d (by simp)
        rw [hw.head d rfl] at hblank
        cases hblank
    · exact ⟨u, by simpa using hu⟩
  obtain ⟨x', hx'⟩ := hleft
  -- Nor in the white space behind.
  rcases List.append_eq_append_iff.1 hx' with ⟨u, hu, rfl⟩ | ⟨u, rfl, -⟩
  · rcases List.eq_nil_or_concat u with rfl | ⟨u, c, rfl⟩
    · exact ⟨x', [], by simpa using hu⟩
    · have hlast : w.getLast? = some c := by
        have h := congrArg List.getLast? hu
        rw [List.getLast?_append, List.concat_eq_append, ← List.append_assoc,
          List.getLast?_concat] at h
        rwa [Option.or_of_isSome (by simpa [List.getLast?_isSome] using hne)] at h
      have hblank := hback c (by simp)
      rw [hw.last c hlast] at hblank
      cases hblank
  · exact ⟨x', u, rfl⟩

end Text

namespace Cutter

variable {w : Text}

theorem exists_infix_flushed {k : Cutter} (h : w <:+: k.current) (hw : w.IsTrimmed) (hne : w ≠ []) :
    ∃ st ∈ k.flushed, w <:+: st := by
  have htrim := Text.infix_trim h hw hne
  have hkept : k.current.trim ≠ [] := by
    intro hnil
    rw [hnil] at htrim
    exact hne (List.infix_nil.1 htrim)
  exact ⟨k.current.trim, by simp [flushed, hkept], htrim⟩

/-- What stands in the statement so far stands in one of the statements. -/
theorem exists_infix_statementsFrom (hw : w.IsTrimmed) (hne : w ≠ []) :
    ∀ {t : Text} {k : Cutter}, w <:+: k.current → ∃ st ∈ statementsFrom k t, w <:+: st
  | [], _, h => exists_infix_flushed h hw hne
  | c :: t, k, h => by
    have hpush : w <:+: (k.push c).current := by
      rw [current_push]
      exact h.trans (List.prefix_append k.current [c]).isInfix
    show ∃ st ∈ (k.step c).1 ++ statementsFrom (k.step c).2 t, w <:+: st
    obtain ⟨-, ⟨-, hkept⟩ | ⟨hdone, -⟩ | ⟨-, -, hdone, -⟩⟩ := step_cases k c
    · rw [current_push, ← hkept] at hpush
      obtain ⟨st, hst, hinfix⟩ := exists_infix_statementsFrom hw hne (t := t) hpush
      exact ⟨st, List.mem_append_right _ hst, hinfix⟩
    · obtain ⟨st, hst, hinfix⟩ := exists_infix_flushed hpush hw hne
      exact ⟨st, List.mem_append_left _ (hdone ▸ hst), hinfix⟩
    · obtain ⟨st, hst, hinfix⟩ := exists_infix_flushed h hw hne
      exact ⟨st, List.mem_append_left _ (hdone ▸ List.mem_append_left _ hst), hinfix⟩

/-- What is no code is kept. -/
theorem exists_current_of_codeFrom : ∀ {w : Text} {k : Cutter}, Text.codeFrom k.quotation w = [] →
    ∃ k' : Cutter, k'.current = k.current ++ w ∧
      ∀ rest, statementsFrom k (w ++ rest) = statementsFrom k' rest
  | [], k, _ => ⟨k, (List.append_nil _).symm, fun _ => rfl⟩
  | c :: w, k, h => by
    rw [Text.codeFrom] at h
    split_ifs at h with hcode
    have hstep : k.step c = ([], k.push c) := by rw [step, if_pos (by simpa using hcode)]
    obtain ⟨k', hcurrent, hrest⟩ := exists_current_of_codeFrom (w := w) (k := k.push c) h
    refine ⟨k', by rw [hcurrent, current_push, List.append_assoc, List.singleton_append], ?_⟩
    intro rest
    rw [List.cons_append, statementsFrom, hstep]
    exact hrest rest

end Cutter

theorem mem_attachSemicolons {ts : List Text} {t : Text} (h : t ∈ ts) (hbrace : t ≠ ['\x7d'])
    (hsemi : t ≠ [';']) : t ∈ attachSemicolons ts := by
  fun_induction attachSemicolons ts with
  | case1 rest ih =>
    rcases List.mem_cons.1 h with rfl | h
    · exact absurd rfl hbrace
    · rcases List.mem_cons.1 h with rfl | h
      · exact absurd rfl hsemi
      · exact List.mem_cons_of_mem _ (ih h)
  | case2 u rest _ ih =>
    rcases List.mem_cons.1 h with rfl | h
    · exact List.mem_cons_self
    · exact List.mem_cons_of_mem _ (ih h)
  | case3 => cases h

theorem exists_prefix_joinBraces {ts : List Text} {t : Text} (h : t ∈ ts) (hbrace : t ≠ ['\x7b']) :
    ∃ line ∈ joinBraces ts, t <+: line := by
  fun_induction joinBraces ts with
  | case1 => cases h
  | case2 u => exact ⟨t, h, List.prefix_refl t⟩
  | case3 u next rest hjoin ih =>
    rcases List.mem_cons.1 h with rfl | h
    · exact ⟨_, List.mem_cons_self, List.prefix_append ..⟩
    · rcases List.mem_cons.1 h with rfl | h
      · exact absurd hjoin.1 hbrace
      · obtain ⟨line, hline, hprefix⟩ := ih h
        exact ⟨line, List.mem_cons_of_mem _ hline, hprefix⟩
  | case4 u next rest _ ih =>
    rcases List.mem_cons.1 h with rfl | h
    · exact ⟨t, List.mem_cons_self, List.prefix_refl t⟩
    · obtain ⟨line, hline, hprefix⟩ := ih h
      exact ⟨line, List.mem_cons_of_mem _ hline, hprefix⟩

namespace PlacedLiteral

variable (l : PlacedLiteral)

/-- A literal stands in one of the statements. -/
theorem exists_infix_statements (rest : Text) :
    ∃ st ∈ statements (l.before ++ (l.text ++ rest)), l.text <:+: st := by
  have hscan : ∀ {a : Text} {k : Cutter}, a.foldl Quotation.step k.quotation = .outside →
      ∃ st ∈ statementsFrom k (a ++ (l.text ++ rest)), l.text <:+: st := by
    intro a
    induction a with
    | nil =>
      intro k hk
      have hcode : Text.codeFrom k.quotation l.text = [] := by
        rw [show k.quotation = .outside from hk]
        exact l.codeFrom_text
      obtain ⟨k', hcurrent, hrest⟩ := Cutter.exists_current_of_codeFrom hcode
      have hkept : l.text <:+: k'.current := by
        rw [hcurrent]
        exact (List.suffix_append _ _).isInfix
      rw [List.nil_append, hrest]
      exact Cutter.exists_infix_statementsFrom l.isTrimmed_text (List.cons_ne_nil _ _) hkept
    | cons c a ih =>
      intro k hk
      rw [List.foldl_cons, ← (Cutter.step_cases k c).1] at hk
      obtain ⟨st, hst, hinfix⟩ := ih hk
      exact ⟨st, List.mem_append_right (k.step c).1 hst, hinfix⟩
  obtain ⟨st, hst, hinfix⟩ := hscan (k := .start) l.outside
  have hne : ∀ c : Char, isQuote c = false → st ≠ [c] := by
    rintro c hc rfl
    have hmem : l.quote ∈ [c] := hinfix.subset (by simp [text])
    exact l.quote_ne hc (List.mem_singleton.1 hmem)
  exact ⟨st, mem_attachSemicolons hst (hne _ (by decide)) (hne _ (by decide)), hinfix⟩

/-- As long as the scan stays inside of a quotation, it is right behind a backslash or the next
quote of its kind ends it. -/
theorem foldl_inside {q : Char} {t : Text}
    (h : ∀ front ∈ t.inits, front.foldl Quotation.step (.inside q) ≠ .outside) :
    t.foldl Quotation.step (.inside q) = .inside q ∨
      t.foldl Quotation.step (.inside q) = .escaped q ∧ t.getLast? = some '\\' := by
  induction t using List.reverseRecOn with
  | nil => exact Or.inl rfl
  | append_singleton t c ih =>
    have hlast := h (t ++ [c]) ((List.mem_inits _ _).2 (List.prefix_refl _))
    have hfront := ih fun front hmem => h front <| by
      rw [List.mem_inits] at hmem ⊢
      exact hmem.trans (List.prefix_append t [c])
    rw [List.foldl_append, List.foldl_cons, List.foldl_nil, List.getLast?_concat] at *
    rcases hfront with hinside | ⟨hescaped, -⟩
    · rw [hinside, Quotation.step] at hlast ⊢
      split_ifs at hlast ⊢ with hslash hquote
      · exact Or.inr ⟨rfl, congrArg some hslash⟩
      · exact absurd rfl hlast
      · exact Or.inl rfl
    · rw [hescaped]
      exact Or.inl rfl

/-- All quotes of its kind inside of a literal have a backslash before them. -/
theorem unquote?_text : l.text.unquote? = some l.body := by
  refine Text.unquote?_eq_some_iff.2 ⟨l.quote, l.isQuote_quote, l.isTrimmed_text.trim_eq, ?_⟩
  refine Text.hasBare_eq_false_iff.2 fun a b hab => ?_
  have hmem : ∀ {front : Text}, front <+: a ++ [l.quote] → front ∈ l.body.inits := by
    intro front hfront
    rw [List.mem_inits, hab, ← List.singleton_append, ← List.append_assoc]
    exact hfront.trans (List.prefix_append _ b)
  have hquote := l.inside _ (hmem (List.prefix_refl _))
  have ha : ∀ front ∈ a.inits, front.foldl Quotation.step (.inside l.quote) ≠ .outside :=
    fun front hfront => l.inside front
      (hmem (((List.mem_inits _ _).1 hfront).trans (List.prefix_append a [l.quote])))
  rcases foldl_inside ha with hinside | ⟨-, hlast⟩
  · rw [List.foldl_append, hinside] at hquote
    simp [Quotation.step, l.quote_ne (c := '\\') (by decide)] at hquote
  · rw [hlast, Option.some_or]

end PlacedLiteral

/-- In a braced dialect a literal that no comment stands before is found in one of the prepared
lines as it was written, unless a block comment begins inside of it or inside of a quotation before
it, and what is shown for the literal is the text inside. The first block comment of a line is
always taken out of it, whatever it begins in. -/
theorem literal_kept (id : Text) (hid : (Dialect.ofId id).layout = .braced) (l : PlacedLiteral)
    {source : Text} (hline : l.line ∈ source.lines) (hfirst : l.PrecedesComments) :
    (l.QuotesNoComment → ∃ t ∈ bracedLines (.ofId id) source, l.text <:+: t) ∧
      (∀ store, Print.value store l.text = .ok l.body) ∧
      ∀ a inner rest : Text, l.line = a ++ '/' :: '*' :: (inner ++ '*' :: '/' :: rest) →
        ¬['/', '*'] <:+: a → ¬['*', '/'] <:+: inner →
        l.line.uncommentedBlocks = a ++ rest.uncommentedBlocks := by
  refine ⟨fun hquoted => ?_, Print.value_of_unquote? l.unquote?_text, ?_⟩
  · obtain ⟨rest, hrest⟩ := l.withoutComments_line hfirst hquoted
    obtain ⟨st, hst, hinfix⟩ := l.exists_infix_statements rest
    have hmem : st ∈ source.lines.flatMap (bracedStatements (Dialect.ofId id).comments) := by
      refine List.mem_flatMap.2 ⟨l.line, hline, ?_⟩
      rw [Dialect.comments_of_braced id hid, bracedStatements_eq, hrest]
      exact hst
    have hbrace : st ≠ ['\x7b'] := by
      rintro rfl
      have hquote : l.quote ∈ ['\x7b'] := hinfix.subset (by simp [PlacedLiteral.text])
      exact l.quote_ne (c := '\x7b') (by decide) (List.mem_singleton.1 hquote)
    obtain ⟨t, ht, hjoined⟩ := exists_prefix_joinBraces hmem hbrace
    exact ⟨t, ht, hinfix.trans hjoined.isInfix⟩
  · intro a inner rest heq hopen hend
    have hfeed : '\n' ∉ inner := by
      intro hmem
      have hend := Text.not_isLineEnd_of_mem_lines hline '\n' (by rw [heq]; simp [hmem])
      revert hend
      decide
    -- A block comment in front would have its first two characters there.
    have hnone : ∀ k < a.length,
        ¬Text.BeginsBlock ((a ++ '/' :: '*' :: (inner ++ '*' :: '/' :: rest)).drop k) := by
      rintro k hk ⟨hbegins, -⟩
      rw [List.drop_append_of_le_length hk.le] at hbegins
      have hfront := Text.pair_prefix_of_append (by simpa using hk) (by simp) hbegins
      exact hopen (hfront.isInfix.trans (List.drop_suffix k a).isInfix)
    rw [heq, Text.uncommentedBlocks_append hnone, Text.uncommentedBlocks_block hfeed hend]

/-- A literal with the marks of comments in it, behind another one and before a comment. -/
def markedLiteral : PlacedLiteral where
  before := "x = \"a \\\" // b\"; y = ".toList
  quote := '\''
  body := "/* c".toList
  behind := "; // d \"e\"".toList
  isQuote_quote := by decide
  outside := by decide
  inside := by decide
  closed := by decide

theorem literal_kept_marked :
    let source : Text := markedLiteral.line ++ "\nz = 1;".toList
    markedLiteral.PrecedesComments ∧ markedLiteral.QuotesNoComment ∧
      (∃ t ∈ bracedLines (.ofId "java".toList) source, "'/* c'".toList <:+: t) ∧
      Print.value .empty "'/* c'".toList = .ok "/* c".toList := by
  intro source
  have hfirst : markedLiteral.PrecedesComments := by decide +kernel
  have hquoted : markedLiteral.QuotesNoComment := by decide +kernel
  have hline : markedLiteral.line ∈ source.lines := by decide +kernel
  obtain ⟨hkept, hshown, -⟩ :=
    literal_kept "java".toList (by decide +kernel) markedLiteral hline hfirst
  exact ⟨hfirst, hquoted, hkept hquoted, hshown .empty⟩

/-- A literal with a whole block comment in it. -/
def commentedLiteral : PlacedLiteral where
  before := "printf(".toList
  quote := '"'
  body := "/* a */ b".toList
  behind := ");".toList
  isQuote_quote := by decide
  outside := by decide
  inside := by decide
  closed := by decide

/-- No comment stands before the literal, and it is not found in the lines. -/
theorem literal_cut :
    commentedLiteral.PrecedesComments ∧
      bracedLines (.ofId "c".toList) commentedLiteral.line = ["printf(\" b\");".toList] ∧
      ¬∃ t ∈ bracedLines (.ofId "c".toList) commentedLiteral.line,
        commentedLiteral.text <:+: t := by
  have hlines : bracedLines (.ofId "c".toList) commentedLiteral.line =
      ["printf(\" b\");".toList] := by decide +kernel
  refine ⟨by decide +kernel, hlines, ?_⟩
  rw [hlines]
  decide +kernel

end StepTrace
