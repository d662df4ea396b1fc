import StepTrace.Proofs.Text.Trim

/-!
# Splitting a text and joining it again

A text is split at the separators on its top level, and its parts are trimmed. A part is scanned as
if it stood by itself: at a separator no quotation and no bracket is open, so behind it the scan is
where it was at the start. A part has no separator outside of quotations and brackets
(`Text.IsFree`), and a text without one is a part by itself (`Text.partsFrom_append`).

So splitting takes joined parts apart again, if there is white space around the separators, which
keeps a separator of several characters from running into its neighbours. Joining the parts of a
text gives back the text up to white space, and a part is not split again
(`Text.splitTop_inverts_joined`).
-/

namespace StepTrace

open CharClass

/-! ## The nesting at a separator -/

namespace Nesting

theorem eq_start_of_isOpen {n : Nesting} (h : n.isOpen = true) : n = start := by
  obtain ⟨depth, quote⟩ := n
  simp only [isOpen, Bool.and_eq_true, beq_iff_eq, Option.isNone_iff_eq_none] at h
  rw [start, h.1, h.2]

theorem after_append (n : Nesting) (a b : Text) : n.after (a ++ b) = (n.after a).after b :=
  List.foldl_append

/-- White space opens and closes nothing. -/
theorem after_blanks {t : Text} (h : ∀ c ∈ t, isBlank c = true) : start.after t = start := by
  induction t with
  | nil => rfl
  | cons c t ih =>
    have hne : ∀ a : Char, isBlank a = false → (c == a) = false := by
      intro a ha
      refine beq_false_of_ne ?_
      rintro rfl
      rw [h c (by simp)] at ha
      cases ha
    have hstep : start.step c = start := by
      simp [step, start, isQuote, isOpener, isCloser, hne '\'' (by decide), hne '"' (by decide),
        hne '`' (by decide), hne '(' (by decide), hne '[' (by decide), hne '\x7b' (by decide),
        hne ')' (by decide), hne ']' (by decide), hne '\x7d' (by decide)]
    rw [after, List.foldl_cons, hstep]
    exact ih fun a ha => h a (by simp [ha])

end Nesting

namespace Text

/-- A text that can separate: it is not empty and has no white space, quotes and brackets. -/
def isSeparator (s : Text) : Bool :=
  !s.isEmpty && s.all fun c => !isBlank c && !isQuote c && !isOpener c && !isCloser c

/-- No `s` in the text stands outside of quotations and brackets, scanned from a point on. -/
def IsFree (s : Text) (n : Nesting) (t : Text) : Prop :=
  ∀ a b, t = a ++ s ++ b → (n.after a).isOpen = false

theorem isFree_iff {s : Text} {n : Nesting} {t : Text} : IsFree s n t ↔
    ∀ k < t.length + 1, s <+: t.drop k → (n.after (t.take k)).isOpen = false := by
  constructor
  · rintro h k - ⟨b, hb⟩
    exact h (t.take k) b (by rw [List.append_assoc, hb, List.take_append_drop])
  · rintro h a b rfl
    have hlt : a.length < (a ++ s ++ b).length + 1 := by
      simp only [List.length_append]
      omega
    simpa using h a.length hlt ⟨b, by simp⟩

instance (s : Text) (n : Nesting) (t : Text) : Decidable (IsFree s n t) :=
  decidable_of_iff _ isFree_iff.symm

/-- What can stand between separators: a trimmed text that closes what it opens and has no separator
outside of quotations and brackets. -/
@[mk_iff]
structure IsPiece (s t : Text) : Prop where
  trimmed : t.trim = t
  nonempty : t ≠ []
  closed : Nesting.start.after t = .start
  free : IsFree s .start t

instance (s t : Text) : Decidable (IsPiece s t) := decidable_of_iff _ (isPiece_iff s t).symm

theorem isFree_cons_iff {s : Text} {n : Nesting} {c : Char} {t : Text} : IsFree s n (c :: t) ↔
    (s <+: c :: t → n.isOpen = false) ∧ IsFree s (n.step c) t := by
  constructor
  · intro h
    refine ⟨fun ⟨b, hb⟩ => h [] b hb.symm, fun a b ht => ?_⟩
    exact h (c :: a) b (by rw [ht]; rfl)
  · rintro ⟨hhead, htail⟩ a b hab
    cases a with
    | nil => exact hhead ⟨b, hab.symm⟩
    | cons d a =>
      obtain ⟨rfl, hrest⟩ := List.cons.inj hab
      exact htail a b hrest

theorem IsFree.tail {s : Text} {n : Nesting} {c : Char} {t : Text} (h : IsFree s n (c :: t)) :
    IsFree s (n.step c) t :=
  (isFree_cons_iff.1 h).2

theorem IsFree.trim {s t : Text} (h : IsFree s .start t) : IsFree s .start t.trim := by
  obtain ⟨front, back, ht, hfront, -, -⟩ := exists_trim t
  intro a b hab
  have hopen := h (front ++ a) (b ++ back) (by
    conv_lhs => rw [ht, hab]
    simp)
  rwa [Nesting.after_append, Nesting.after_blanks hfront] at hopen

section Separator

variable {s : Text} (hs : s.isSeparator)

include hs

theorem separator_ne_nil : s ≠ [] := by
  rintro rfl
  cases hs

theorem not_isBlank_of_mem_separator {c : Char} (hc : c ∈ s) : isBlank c = false := by
  have hall := List.all_eq_true.1 (Bool.and_eq_true_iff.1 hs).2 c hc
  simp only [Bool.and_eq_true, Bool.not_eq_true'] at hall
  exact hall.1.1.1

/-- Where nothing is open, a separator begins on the top level. -/
theorem isTop_of_mem_separator {c : Char} (hc : c ∈ s) {n : Nesting} (hn : n.isOpen = true) :
    n.isTop c = true := by
  have hall := List.all_eq_true.1 (Bool.and_eq_true_iff.1 hs).2 c hc
  simp only [Bool.and_eq_true, Bool.not_eq_true'] at hall
  simp [Nesting.isTop, hn, hall.1.1.2, hall.1.2, hall.2]

/-- A separator does not reach over white space or over the end. -/
theorem prefix_of_prefix_append {t rest : Text} (hrest : ∀ c ∈ rest.head?, isBlank c = true)
    (h : s <+: t ++ rest) : s <+: t := by
  rcases List.prefix_or_prefix_of_prefix h (List.prefix_append t rest) with h' | ⟨u, rfl⟩
  · exact h'
  · cases u with
    | nil => simp
    | cons c u =>
      obtain ⟨v, hv⟩ := (List.prefix_append_right_inj t).1 h
      have hblank := hrest c (by rw [← hv]; rfl)
      rw [not_isBlank_of_mem_separator hs (by simp)] at hblank
      cases hblank

/-! ## Scanning a part -/

omit hs in
/-- A text without separators belongs to one part, if no separator begins in it and ends in what
follows. -/
theorem partsFrom_append_of_begins {rest first : Text} {others : List Text}
    (hbegins : ∀ (c : Char) (t : Text), s <+: c :: (t ++ rest) → s <+: c :: t) :
    ∀ {t : Text} {n : Nesting}, IsFree s n t →
    partsFrom s (n.after t) 0 rest = first :: others →
    partsFrom s n 0 (t ++ rest) = (t ++ first) :: others
  | [], _, _, hparts => hparts
  | c :: t, n, hfree, hparts => by
    have hcut : ¬(n.isTop c && s.isPrefixOf (c :: (t ++ rest))) = true := by
      rw [Bool.and_eq_true, List.isPrefixOf_iff_prefix]
      rintro ⟨htop, hs⟩
      have hopen : n.isOpen = false := (isFree_cons_iff.1 hfree).1 (hbegins c t hs)
      simp [Nesting.isTop, hopen] at htop
    rw [List.cons_append, partsFrom, if_neg hcut,
      partsFrom_append_of_begins hbegins hfree.tail hparts]
    rfl

/-- The same if white space follows, or nothing at all. -/
theorem partsFrom_append {rest first : Text} {others : List Text}
    (hrest : ∀ c ∈ rest.head?, isBlank c = true) {t : Text} {n : Nesting} (hfree : IsFree s n t)
    (hparts : partsFrom s (n.after t) 0 rest = first :: others) :
    partsFrom s n 0 (t ++ rest) = (t ++ first) :: others :=
  partsFrom_append_of_begins
    (fun c t h => prefix_of_prefix_append hs hrest (t := c :: t) h) hfree hparts

/-! ## White space around a text -/

/-- A separator begins with no blank. -/
theorem not_prefix_blank {c : Char} (hc : isBlank c = true) (t : Text) : ¬s <+: c :: t := by
  intro hprefix
  obtain ⟨d, u, rfl⟩ := List.exists_cons_of_ne_nil (separator_ne_nil hs)
  obtain ⟨rfl, -⟩ := List.cons_prefix_cons.1 hprefix
  rw [not_isBlank_of_mem_separator hs (by simp)] at hc
  cases hc

theorem isFree_blanks {t : Text} (h : ∀ c ∈ t, isBlank c = true) (n : Nesting) :
    IsFree s n t := by
  induction t generalizing n with
  | nil =>
    intro a b hab
    simp [separator_ne_nil hs] at hab
  | cons c t ih =>
    exact isFree_cons_iff.2 ⟨fun hprefix => absurd hprefix (not_prefix_blank hs (h c (by simp)) t),
      ih (fun a ha => h a (by simp [ha])) _⟩

theorem IsFree.append_blanks {back : Text} (hback : ∀ c ∈ back, isBlank c = true) {t : Text}
    {n : Nesting} (h : IsFree s n t) : IsFree s n (t ++ back) := by
  induction t generalizing n with
  | nil => exact isFree_blanks hs hback n
  | cons c t ih =>
    obtain ⟨hhead, htail⟩ := isFree_cons_iff.1 h
    have hblank : ∀ a ∈ back.head?, isBlank a = true := fun a ha => hback a (List.mem_of_head? ha)
    refine isFree_cons_iff.2 ⟨fun hprefix => hhead ?_, ih htail⟩
    exact prefix_of_prefix_append hs hblank (t := c :: t) hprefix

theorem IsFree.blanks_append {front : Text} (hfront : ∀ c ∈ front, isBlank c = true) {t : Text}
    (h : IsFree s .start t) : IsFree s .start (front ++ t) := by
  induction front with
  | nil => exact h
  | cons c front ih =>
    have hc : isBlank c = true := hfront c (by simp)
    have hstep : Nesting.start.step c = .start :=
      Nesting.after_blanks (t := [c]) (by simpa using hc)
    refine isFree_cons_iff.2 ⟨fun hprefix => absurd hprefix (not_prefix_blank hs hc _), ?_⟩
    rw [hstep]
    exact ih fun a ha => hfront a (by simp [ha])

/-- White space around a text does not matter. -/
theorem isFree_trim_iff {t : Text} : IsFree s .start t.trim ↔ IsFree s .start t := by
  refine ⟨fun h => ?_, IsFree.trim⟩
  obtain ⟨front, back, ht, hfront, hback, -⟩ := exists_trim t
  rw [ht]
  exact (h.blanks_append hs hfront).append_blanks hs hback

end Separator

/-! ## Parts -/

theorem partsFrom_skip (s : Text) (n : Nesting) (rest : Text) : ∀ t : Text,
    partsFrom s n t.length (t ++ rest) = partsFrom s n 0 rest
  | [] => rfl
  | _ :: t => partsFrom_skip s n rest t

section Separator

variable {s : Text} (hs : s.isSeparator)

include hs

/-- At a separator where nothing is open a part begins. -/
theorem partsFrom_separator (rest : Text) :
    partsFrom s .start 0 (s ++ rest) = [] :: partsFrom s .start 0 rest := by
  obtain ⟨c, u, rfl⟩ := List.exists_cons_of_ne_nil (separator_ne_nil hs)
  have htop := isTop_of_mem_separator hs (List.mem_cons_self (a := c)) (n := .start) rfl
  have hprefix : List.isPrefixOf (c :: u) (c :: (u ++ rest)) = true :=
    List.isPrefixOf_iff_prefix.2 ⟨rest, rfl⟩
  rw [List.cons_append, partsFrom, htop, hprefix, Bool.and_self, if_pos rfl]
  exact congrArg ([] :: ·) (partsFrom_skip _ _ rest u)

/-- Every part is free of separators, scanned from where it begins: the first from where the scan
begins, the others from the start. -/
theorem isFree_parts : ∀ (t : Text) (n : Nesting) (skip : Nat), ∃ first others,
    partsFrom s n skip t = first :: others ∧ IsFree s n first ∧
      ∀ part ∈ others, IsFree s .start part
  | [], n, skip => by
    refine ⟨[], [], by rw [partsFrom], fun a b hab => ?_, fun _ h => nomatch h⟩
    simp [separator_ne_nil hs] at hab
  | c :: t, n, skip + 1 => isFree_parts t n skip
  | c :: t, n, 0 => by
    rw [partsFrom]
    split_ifs with hcut
    · obtain ⟨first, others, hparts, hfirst, hothers⟩ := isFree_parts t n (s.length - 1)
      have hn : n = .start := by
        have htop := (Bool.and_eq_true_iff.1 hcut).1
        simp only [Nesting.isTop, Bool.and_eq_true] at htop
        exact Nesting.eq_start_of_isOpen htop.1.1.1
      subst hn
      refine ⟨[], first :: others, by rw [hparts], fun a b hab => ?_, ?_⟩
      · simp [separator_ne_nil hs] at hab
      · exact List.forall_mem_cons.2 ⟨hfirst, hothers⟩
    · obtain ⟨first, others, hparts, hfirst, hothers⟩ := isFree_parts t (n.step c) 0
      have hprefix : first <+: t :=
        (pieces_partsFrom s t (n.step c) 0).first first (by rw [hparts]; rfl)
      refine ⟨c :: first, others, by rw [hparts]; rfl, fun a b hab => ?_, hothers⟩
      cases a with
      | nil =>
        -- A separator here would have been cut at.
        rw [List.nil_append] at hab
        rw [← Bool.not_eq_true]
        intro hopen
        have hs' : s <+: c :: t :=
          List.IsPrefix.trans ⟨b, hab.symm⟩ (List.cons_prefix_cons.2 ⟨rfl, hprefix⟩)
        obtain ⟨d, u, rfl⟩ := List.exists_cons_of_ne_nil (separator_ne_nil hs)
        obtain ⟨rfl, -⟩ := List.cons_prefix_cons.1 hs'
        refine hcut (Bool.and_eq_true_iff.2 ⟨?_, List.isPrefixOf_iff_prefix.2 hs'⟩)
        exact isTop_of_mem_separator hs (by simp) hopen
      | cons d a =>
        obtain ⟨rfl, hrest⟩ := List.cons.inj hab
        exact hfirst a b hrest

/-- A text without separators is its only part. -/
theorem splitTop_of_isFree {t : Text} (h : IsFree s .start t) : splitTop s t = [t.trim] := by
  have hend : partsFrom s (Nesting.start.after t) 0 [] = [[]] := by rw [partsFrom]
  have hnone : ∀ c ∈ ([] : Text).head?, isBlank c = true := by simp
  have hparts := partsFrom_append hs hnone h hend
  rw [List.append_nil] at hparts
  rw [splitTop, hparts]
  rfl

theorem isFree_of_mem_splitTop {t part : Text} (h : part ∈ splitTop s t) :
    IsFree s .start part := by
  obtain ⟨piece, hpiece, rfl⟩ := List.mem_map.1 h
  obtain ⟨first, others, hparts, hfirst, hothers⟩ := isFree_parts hs t .start 0
  rw [hparts] at hpiece
  rcases List.mem_cons.1 hpiece with rfl | hpiece
  · exact hfirst.trim
  · exact (hothers piece hpiece).trim

/-- A part is not split again. -/
theorem splitTop_part {t part : Text} (h : part ∈ splitTop s t) : splitTop s part = [part] := by
  obtain ⟨piece, -, rfl⟩ := List.mem_map.1 h
  rw [splitTop_of_isFree hs (isFree_of_mem_splitTop hs h), trim_trim]

/-- A text is its only part exactly if it has no separators. -/
theorem splitParts_eq_singleton_iff {t : Text} (h : t.trim ≠ []) :
    splitParts s t = [t.trim] ↔ IsFree s .start t.trim := by
  constructor
  · intro hparts
    have hmem : t.trim ∈ splitParts s t := by rw [hparts]; exact List.mem_singleton_self _
    exact isFree_of_mem_splitTop hs (List.mem_filter.1 hmem).1
  · intro hfree
    rw [splitParts, splitTop_of_isFree hs ((isFree_trim_iff hs).1 hfree)]
    simp [h]

end Separator

/-! ## Joining -/

theorem joined_cons (between t : Text) {ts : List Text} (h : ts ≠ []) :
    joined between (t :: ts) = t ++ between ++ joined between ts := by
  obtain ⟨u, ts, rfl⟩ := List.exists_cons_of_ne_nil h
  exact List.intercalate_cons_cons ..

theorem joined_consFirst (between : Text) (c : Char) {ts : List Text} (h : ts ≠ []) :
    joined between (consFirst c ts) = c :: joined between ts := by
  obtain ⟨t, ts, rfl⟩ := List.exists_cons_of_ne_nil h
  cases ts with
  | nil => simp [consFirst, joined]
  | cons u ts => simp [consFirst, joined, List.intercalate_cons_cons]

/-- Trimming what is joined changes nothing but white space. -/
theorem withoutBlanks_joined_trim (between : Text) : ∀ ts : List Text,
    withoutBlanks (joined between (ts.map trim)) = withoutBlanks (joined between ts)
  | [] => rfl
  | [t] => by simpa [joined] using withoutBlanks_trim t
  | t :: u :: ts => by
    rw [List.map_cons, joined_cons _ _ (by simp), joined_cons _ _ (by simp)]
    simp only [withoutBlanks_append]
    rw [withoutBlanks_trim, withoutBlanks_joined_trim between (u :: ts)]

section Separator

variable {s : Text} (hs : s.isSeparator)

include hs

/-- The parts, before they are trimmed, are joined to the text. -/
theorem joined_partsFrom : ∀ (t : Text) (n : Nesting) (skip : Nat),
    joined s (partsFrom s n skip t) = t.drop skip
  | [], n, skip => by
    rw [partsFrom, List.drop_nil]
    rfl
  | c :: t, n, skip + 1 => joined_partsFrom t n skip
  | c :: t, n, 0 => by
    rw [partsFrom]
    split_ifs with hcut
    · obtain ⟨rest, hrest⟩ := List.isPrefixOf_iff_prefix.1 (Bool.and_eq_true_iff.1 hcut).2
      rw [joined_cons _ _ (partsFrom_ne_nil _ _ _ _), joined_partsFrom t n, List.nil_append,
        List.drop_zero]
      obtain ⟨d, u, rfl⟩ := List.exists_cons_of_ne_nil (separator_ne_nil hs)
      obtain ⟨rfl, rfl⟩ := List.cons.inj hrest
      simp
    · rw [joined_consFirst _ _ (partsFrom_ne_nil _ _ _ _), joined_partsFrom t, List.drop_zero,
        List.drop_zero]

theorem withoutBlanks_joined_splitTop (t : Text) :
    withoutBlanks (joined s (splitTop s t)) = t.withoutBlanks := by
  rw [splitTop, withoutBlanks_joined_trim, joined_partsFrom hs, List.drop_zero]

/-- A blank belongs to the part behind it. -/
theorem partsFrom_blank {c : Char} (hc : isBlank c = true) (t : Text) :
    partsFrom s .start 0 (c :: t) = consFirst c (partsFrom s .start 0 t) := by
  have hcut : ¬(Nesting.start.isTop c && s.isPrefixOf (c :: t)) = true := by
    rw [Bool.and_eq_true, List.isPrefixOf_iff_prefix]
    rintro ⟨-, hprefix⟩
    exact not_prefix_blank hs hc t hprefix
  have hstep : Nesting.start.step c = .start := Nesting.after_blanks (t := [c]) (by simpa using hc)
  rw [partsFrom, if_neg hcut, hstep]

theorem splitTop_blank {c : Char} (hc : isBlank c = true) (t : Text) :
    splitTop s (c :: t) = splitTop s t := by
  have htrim : ∀ u : Text, trim (c :: u) = u.trim := fun u => by
    rw [trim, trimLeft, List.dropWhile_cons_of_pos hc]
    rfl
  rw [splitTop, splitTop, partsFrom_blank hs hc]
  obtain ⟨first, others, hparts⟩ := List.exists_cons_of_ne_nil (partsFrom_ne_nil s t .start 0)
  rw [hparts, consFirst, List.map_cons, List.map_cons, htrim]

/-- Splitting takes apart what was joined with white space around the separators. -/
theorem splitTop_joined : ∀ {pieces : List Text}, pieces ≠ [] → (∀ p ∈ pieces, IsPiece s p) →
    splitTop s (joined (' ' :: (s ++ [' '])) pieces) = pieces
  | [], hne, _ => absurd rfl hne
  | [p], _, h => by
    have hp := h p (by simp)
    rw [show joined (' ' :: (s ++ [' '])) [p] = p by simp [joined], splitTop_of_isFree hs hp.free,
      hp.trimmed]
  | p :: q :: pieces, _, h => by
    have hp := h p (by simp)
    have ih := splitTop_joined (List.cons_ne_nil q pieces) fun p hp => h p (by simp [hp])
    generalize hrest : joined (' ' :: (s ++ [' '])) (q :: pieces) = rest at ih
    have hnext : partsFrom s (Nesting.start.after p) 0 (' ' :: (s ++ ' ' :: rest)) =
        [' '] :: partsFrom s .start 0 (' ' :: rest) := by
      rw [hp.closed, partsFrom_blank hs (by decide), partsFrom_separator hs]
      rfl
    have hparts := partsFrom_append hs (by simp [show isBlank ' ' = true by decide]) hp.free hnext
    have htrim : trim (p ++ [' ']) = p := by
      rw [trim_append_blanks (by decide), hp.trimmed]
    calc splitTop s (joined (' ' :: (s ++ [' '])) (p :: q :: pieces))
        = splitTop s (p ++ ' ' :: (s ++ ' ' :: rest)) := by
          rw [joined_cons _ _ (by simp), hrest]
          simp
      _ = p :: splitTop s (' ' :: rest) := by
          rw [splitTop, hparts, List.map_cons, htrim]
          rfl
      _ = p :: q :: pieces := by rw [splitTop_blank hs (by decide), ih]

/-- Pieces are not empty, so that none is left out. -/
theorem splitParts_joined {pieces : List Text} (hne : pieces ≠ [])
    (h : ∀ p ∈ pieces, IsPiece s p) :
    splitParts s (joined (' ' :: (s ++ [' '])) pieces) = pieces := by
  rw [splitParts, splitTop_joined hs hne h, List.filter_eq_self]
  intro p hp
  simp [(h p hp).nonempty]

end Separator

/-- A text that closes what it opens does so without the white space around it. -/
theorem after_trim (t : Text) : Nesting.start.after t.trim = .start →
    Nesting.start.after t = .start := by
  intro h
  obtain ⟨front, back, ht, hfront, hback, -⟩ := exists_trim t
  rw [ht, Nesting.after_append, Nesting.after_append, Nesting.after_blanks hfront, h,
    Nesting.after_blanks hback]

/-- A separator of one character does not run into its neighbours, so that splitting takes apart
what was joined with it, with any white space around the pieces. -/
theorem splitTop_joined_char {c : Char} (hs : isSeparator [c]) : ∀ {pieces : List Text},
    pieces ≠ [] → (∀ p ∈ pieces, IsPiece [c] p.trim) →
    splitTop [c] (joined [c] pieces) = pieces.map trim
  | [], hne, _ => absurd rfl hne
  | [p], _, h => by
    rw [show joined [c] [p] = p by simp [joined],
      splitTop_of_isFree hs ((isFree_trim_iff hs).1 (h p (by simp)).free)]
    rfl
  | p :: q :: pieces, _, h => by
    have hp := h p (by simp)
    have ih := splitTop_joined_char hs (List.cons_ne_nil q pieces) fun p hp => h p (by simp [hp])
    generalize hrest : joined [c] (q :: pieces) = rest at ih
    have hnext : partsFrom [c] (Nesting.start.after p) 0 ([c] ++ rest) =
        [] :: partsFrom [c] .start 0 rest := by
      rw [after_trim p hp.closed, partsFrom_separator hs]
    have hbegins : ∀ (d : Char) (t : Text), [c] <+: d :: (t ++ ([c] ++ rest)) → [c] <+: d :: t := by
      intro d t hprefix
      rw [(List.cons_prefix_cons.1 hprefix).1]
      exact List.prefix_append [d] t
    have hparts := partsFrom_append_of_begins hbegins ((isFree_trim_iff hs).1 hp.free) hnext
    calc splitTop [c] (joined [c] (p :: q :: pieces))
        = p.trim :: splitTop [c] rest := by
          rw [joined_cons _ _ (by simp), hrest, List.append_assoc, splitTop, hparts,
            List.append_nil]
          rfl
      _ = (p :: q :: pieces).map trim := by rw [ih, ← List.map_cons]

theorem splitParts_joined_char {c : Char} (hs : isSeparator [c]) {pieces : List Text}
    (hne : pieces ≠ []) (h : ∀ p ∈ pieces, IsPiece [c] p.trim) :
    splitParts [c] (joined [c] pieces) = pieces.map trim := by
  rw [splitParts, splitTop_joined_char hs hne h, List.filter_eq_self]
  intro p hp
  obtain ⟨q, hq, rfl⟩ := List.mem_map.1 hp
  simp [(h q hq).nonempty]

/-- The separators of arguments, terms and items, each with what is split at it. -/
def separators : List (Text × (Text → List Text)) :=
  [([','], arguments), (['+'], terms), (['<', '<'], streamItems)]

theorem isSeparator_of_mem {s : Text} {split : Text → List Text} (h : (s, split) ∈ separators) :
    s.isSeparator = true ∧ split = splitParts s := by
  simp only [separators, List.mem_cons, Prod.mk.injEq, List.not_mem_nil, or_false] at h
  rcases h with ⟨rfl, rfl⟩ | ⟨rfl, rfl⟩ | ⟨rfl, rfl⟩
  · exact ⟨by decide, rfl⟩
  · exact ⟨by decide, rfl⟩
  · exact ⟨by decide, rfl⟩

/-- Splitting at a separator undoes joining with it. Conversely joining the parts of any text gives
back the text up to white space, and no part is split again. -/
theorem splitTop_inverts_joined {s : Text} {split : Text → List Text}
    (h : (s, split) ∈ separators) :
    (∀ pieces : List Text, pieces ≠ [] → (∀ p ∈ pieces, IsPiece s p) →
      splitTop s (joined (' ' :: (s ++ [' '])) pieces) = pieces ∧
        split (joined (' ' :: (s ++ [' '])) pieces) = pieces) ∧
    ∀ t : Text, withoutBlanks (joined s (splitTop s t)) = t.withoutBlanks ∧
      ∀ part ∈ splitTop s t, splitTop s part = [part] := by
  obtain ⟨hs, rfl⟩ := isSeparator_of_mem h
  exact ⟨fun pieces hne hpieces => ⟨splitTop_joined hs hne hpieces,
      splitParts_joined hs hne hpieces⟩,
    fun t => ⟨withoutBlanks_joined_splitTop hs t, fun part hpart => splitTop_part hs hpart⟩⟩

/-- Texts with a separator in quotes, a separator in brackets, and half a separator at their end. -/
def itemTexts : List Text := ["\"a << b\"".toList, "f(x << [1])".toList, "c <".toList]

theorem splitTop_inverts_joined_items :
    (∀ p ∈ itemTexts, IsPiece ['<', '<'] p) ∧
      splitTop ['<', '<'] (joined " << ".toList itemTexts) = itemTexts ∧
      streamItems (joined " << ".toList itemTexts) = itemTexts := by
  have hmem : (['<', '<'], streamItems) ∈ separators := by simp [separators]
  have hpieces : ∀ p ∈ itemTexts, IsPiece ['<', '<'] p := by decide
  exact ⟨hpieces, (splitTop_inverts_joined hmem).1 itemTexts (by decide) hpieces⟩

end Text

end StepTrace
