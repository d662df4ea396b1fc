import Mathlib.Data.List.Chain
import StepTrace.Proofs.Pattern.Reach
import StepTrace.Proofs.Source.Blocks
import StepTrace.Proofs.Text.Trim

/-!
# Cutting a whole snippet

A braced snippet is taken apart line by line: each line loses its comments and the white space
around it and is then cut into statements by a scan of its own. For a snippet without comments that
is one scan over all its characters, in which a line end completes the statement so far and starts
the scan again (`Cutter.scan`, `bracedLines_eq_joinBraces`). White space around a line does not
matter, since it is trimmed from every statement, and a counting loop is recognised behind any
amount of it.
-/

namespace StepTrace

open CharClass

/-! ## Snippets without comments -/

namespace Text

/-- No comment begins in a text. -/
def IsCommentless (t : Text) : Prop := t.IsChain fun a b => ¬(a = '/' ∧ (b = '/' ∨ b = '*'))

instance (t : Text) : Decidable t.IsCommentless :=
  inferInstanceAs (Decidable (t.IsChain fun a b => ¬(a = '/' ∧ (b = '/' ∨ b = '*'))))

theorem uncommentedBlocks_of_isCommentless {t : Text} (h : t.IsCommentless) :
    t.uncommentedBlocks = t := by
  unfold uncommentedBlocks
  induction t with
  | nil => rfl
  | cons c t ih =>
    have hnone : (if c = '/' then (after? ['*'] t).bind afterCommentEnd? else none) = none := by
      split_ifs with hc
      · cases t with
        | nil => rfl
        | cons b t =>
          have hb : '*' ≠ b := fun hb => (List.isChain_cons_cons.1 h).1 ⟨hc, Or.inr hb.symm⟩
          rw [after?, if_neg hb]
          rfl
      · rfl
    rw [uncommentedBlocksFrom, hnone]
    exact congrArg (c :: ·) (ih h.tail)

theorem uncommented_of_isCommentless {t : Text} (h : t.IsCommentless) :
    t.uncommented ['/', '/'] = t := by
  unfold uncommented
  generalize Quotation.outside = q
  induction t generalizing q with
  | nil => rfl
  | cons c t ih =>
    have hprefix : List.isPrefixOf ['/', '/'] (c :: t) = false := by
      cases t with
      | nil => simp [List.isPrefixOf]
      | cons b t =>
        have hcb := (List.isChain_cons_cons.1 h).1
        simp only [List.isPrefixOf, Bool.and_true, Bool.and_eq_false_iff, beq_eq_false_iff_ne]
        by_contra hboth
        rw [not_or, not_not, not_not] at hboth
        exact hcb ⟨hboth.1.symm, Or.inl hboth.2.symm⟩
    rw [uncommentedFrom, hprefix, Bool.and_false, if_neg Bool.false_ne_true]
    exact congrArg (c :: ·) (ih h.tail _)

end Text

/-! ## White space around a line -/

/-- A counting loop begins behind white space with its word. -/
theorem isForHeader_iff {t : Text} : isForHeader t ↔
    ∃ rest, t.trimLeft = "for".toList ++ rest ∧ rest.head?.any isWord = false := by
  have hedge : ∀ rest : Text, (Cursor.mk (some 'r') rest).atWordEdge = true ↔
      rest.head?.any isWord = false := by
    intro rest
    have hr : isWord 'r' = true := by decide +kernel
    cases h : rest.head?.any isWord <;> simp [Cursor.atWordEdge, hr, h]
  refine ⟨fun h => ?_, ?_⟩
  · obtain ⟨f, hf⟩ := Option.isSome_iff_exists.1 h
    obtain ⟨c₁, k₁, hgap, c₂, k₂, hword, hedge', -⟩ := Pattern.takes_of_match? hf
    obtain ⟨front, hfront, hrest, -, rfl⟩ := Pattern.takes_many_char.1 hgap
    obtain ⟨hrest', hprevious, rfl⟩ := Pattern.takes_text.1 hword
    obtain ⟨previous, rest⟩ := c₂
    obtain rfl : previous = some 'r' := hprevious
    have ht : t = front ++ ("for".toList ++ rest) := by rw [← hrest']; exact hrest
    refine ⟨rest, ?_, (hedge rest).1 hedge'⟩
    rw [ht, Text.trimLeft_append hfront]
    rfl
  · rintro ⟨rest, htrim, hrest⟩
    have ht : t = t.takeWhile isBlank ++ ("for".toList ++ rest) := by
      rw [← htrim, Text.trimLeft, List.takeWhile_append_dropWhile]
    refine Pattern.isSome_match? (c := ⟨some 'r', rest⟩) (k := []) ⟨⟨_, _⟩, [],
      Pattern.takes_many_char.2 ⟨t.takeWhile isBlank, fun c hc => List.mem_takeWhile_imp hc, ht,
        rfl, rfl⟩, _, [], Pattern.takes_text.2 ⟨rfl, rfl, rfl⟩, (hedge rest).2 hrest, rfl, rfl⟩

theorem isForHeader_append {front : Text} (h : ∀ c ∈ front, isBlank c = true) (t : Text) :
    isForHeader (front ++ t) = isForHeader t := by
  rw [Bool.eq_iff_iff, isForHeader_iff, isForHeader_iff, Text.trimLeft_append h]

namespace Cutter

variable {k : Cutter} {b : Text}

/-- A blank is kept and completes nothing. -/
theorem step_blank (k : Cutter) {c : Char} (h : isBlank c = true) : k.step c = ([], k.push c) := by
  have hne : ∀ a : Char, isBlank a = false → c ≠ a := by
    rintro a ha rfl
    rw [h] at ha
    cases ha
  rw [step]
  split_ifs with hcode hopen hclose hbrace hbrace' hend hend' hsemi
  · rfl
  · exact absurd hopen (by rintro (rfl | rfl) <;> exact absurd h (by decide +kernel))
  · exact absurd hclose (by rintro (rfl | rfl) <;> exact absurd h (by decide +kernel))
  · exact absurd hbrace (hne _ (by decide +kernel))
  · exact absurd hbrace (hne _ (by decide +kernel))
  · exact absurd hend (hne _ (by decide +kernel))
  · exact absurd hend (hne _ (by decide +kernel))
  · exact absurd hsemi.1 (hne _ (by decide +kernel))
  · rfl

theorem flushed_eq_nil (h : ∀ c ∈ k.reversed, isBlank c = true) : k.flushed = [] := by
  have htrim : k.current.trim = [] :=
    Text.trim_of_blank fun c hc => h c (List.mem_reverse.1 hc)
  simp [flushed, htrim]

theorem flushed_eq (front back : Text) {core : Text} (hk : k.current = front ++ core ++ back)
    (hfront : ∀ c ∈ front, isBlank c = true) (hback : ∀ c ∈ back, isBlank c = true)
    (hcore : core.IsTrimmed) (hne : core ≠ []) : k.flushed = [core] := by
  have htrim : k.current.trim = core := by rw [hk, Text.trim_eq hfront hback hcore]
  simp [flushed, htrim, hne]

theorem statementsFrom_blanks {t : Text} (h : ∀ c ∈ t, isBlank c = true) (k : Cutter) :
    statementsFrom k t = k.flushed := by
  induction t generalizing k with
  | nil => rfl
  | cons c t ih =>
    have hc : ∀ a ∈ [c], isBlank a = true := by simpa using h c (by simp)
    have htrim : (k.push c).current.trim = k.current.trim := by
      rw [current_push]
      exact Text.trim_append_blanks hc k.current
    rw [statementsFrom, step_blank k (h c (by simp))]
    show statementsFrom (k.push c) t = k.flushed
    rw [ih fun a ha => h a (by simp [ha]), flushed, flushed, htrim]

theorem statementsFrom_append_blanks (h : ∀ c ∈ b, isBlank c = true) (t : Text) (k : Cutter) :
    statementsFrom k (t ++ b) = statementsFrom k t := by
  induction t generalizing k with
  | nil => exact statementsFrom_blanks h k
  | cons c t ih => exact congrArg ((k.step c).1 ++ ·) (ih _)

/-- The scan with more characters before the statement so far. -/
def behind (k : Cutter) (b : Text) : Cutter := { k with reversed := k.reversed ++ b.reverse }

theorem current_behind (k : Cutter) (b : Text) : (k.behind b).current = b ++ k.current := by
  simp [current, behind]

theorem push_behind (k : Cutter) (b : Text) (c : Char) :
    (k.behind b).push c = (k.push c).behind b := by
  simp [push, behind]

theorem flushed_behind (h : ∀ c ∈ b, isBlank c = true) (k : Cutter) :
    (k.behind b).flushed = k.flushed := by
  rw [flushed, flushed, current_behind, Text.trim_blanks_append h]

/-- White space before the statement so far makes no difference to a step. -/
theorem step_behind (h : ∀ c ∈ b, isBlank c = true) (k : Cutter) (c : Char) :
    (k.behind b).step c = ((k.step c).1, (k.step c).2.behind b) ∨
      (k.behind b).step c = k.step c := by
  have htrim : (k.behind b).current.trim = k.current.trim := by
    rw [current_behind, Text.trim_blanks_append h]
  have hfor : isForHeader (k.behind b).current = isForHeader k.current := by
    rw [current_behind, isForHeader_append h]
  have hcut : ((k.push c).behind b).cut = (k.push c).cut := by
    rw [cut, cut, flushed_behind h]
    rfl
  rw [step, step, htrim, hfor, push_behind, flushed_behind h, hcut]
  simp only [show (k.behind b).quotation = k.quotation from rfl,
    show (k.behind b).parens = k.parens from rfl, show (k.behind b).braces = k.braces from rfl]
  split_ifs
  · exact Or.inl rfl
  · exact Or.inl rfl
  · exact Or.inl rfl
  · exact Or.inl rfl
  · exact Or.inr rfl
  · exact Or.inl rfl
  · exact Or.inr rfl
  · exact Or.inr rfl
  · exact Or.inl rfl

theorem statementsFrom_behind (h : ∀ c ∈ b, isBlank c = true) (t : Text) (k : Cutter) :
    statementsFrom (k.behind b) t = statementsFrom k t := by
  induction t generalizing k with
  | nil => exact flushed_behind h k
  | cons c t ih =>
    rw [statementsFrom, statementsFrom]
    rcases step_behind h k c with hstep | hstep
    · rw [hstep]
      exact congrArg ((k.step c).1 ++ ·) (ih _)
    · rw [hstep]

theorem statementsFrom_blanks_append (h : ∀ c ∈ b, isBlank c = true) (t : Text) :
    statementsFrom .start (b ++ t) = statementsFrom .start t := by
  have hscan : ∀ (b : Text) (front : Text), (∀ c ∈ b, isBlank c = true) →
      statementsFrom (start.behind front) (b ++ t) =
        statementsFrom (start.behind (front ++ b)) t := by
    intro b
    induction b with
    | nil => intro front _; rw [List.append_nil, List.nil_append]
    | cons c b ih =>
      intro front hb
      have hc : isBlank c = true := hb c (by simp)
      have hpush : (start.behind front).push c = start.behind (front ++ [c]) := by
        simp [push, behind, start, Quotation.step, Text.not_isQuote_of_isBlank hc]
      rw [List.cons_append, statementsFrom, step_blank _ hc, hpush]
      show statementsFrom (start.behind (front ++ [c])) (b ++ t) = _
      rw [ih _ fun a ha => hb a (by simp [ha]), List.append_assoc, List.singleton_append]
  exact (hscan b [] h).trans (statementsFrom_behind h t .start)

end Cutter

/-- Trimming a line does not change its statements. -/
theorem statementsFrom_trim (t : Text) :
    statementsFrom .start t.trim = statementsFrom .start t := by
  obtain ⟨front, back, ht, hfront, hback, -⟩ := Text.exists_trim t
  conv_rhs => rw [ht]
  rw [Cutter.statementsFrom_append_blanks hback, Cutter.statementsFrom_blanks_append hfront]

/-- The statements of a line are those of what is left of it without its comments. -/
theorem bracedStatements_eq (markers : List Text) (t : Text) :
    bracedStatements markers t = statements (withoutComments markers t.uncommentedBlocks) := by
  generalize hline : withoutComments markers t.uncommentedBlocks = line
  rw [bracedStatements, hline, statements, statements, statementsFrom_trim]
  split_ifs with hempty
  · rw [← statementsFrom_trim, List.isEmpty_iff.1 hempty]
    rfl
  · rfl

/-- Without comments, the statements of a line are those of all its characters. -/
theorem bracedStatements_of_isCommentless {t : Text} (h : t.IsCommentless) :
    bracedStatements [['/', '/']] t = statements t := by
  have hline : withoutComments [['/', '/']] t.uncommentedBlocks = t := by
    rw [Text.uncommentedBlocks_of_isCommentless h]
    exact Text.uncommented_of_isCommentless h
  rw [bracedStatements_eq, hline]

/-! ## One scan over all lines -/

namespace Cutter

/-- The statements that a text completes, and what is known behind it. A line end completes the
statement so far, and the scan starts again. -/
def scan (k : Cutter) : Text → List Text × Cutter
  | [] => ([], k)
  | c :: t =>
    if isLineEnd c then
      let (done, k') := scan .start t
      (k.flushed ++ done, k')
    else
      let (first, k₁) := k.step c
      let (done, k') := scan k₁ t
      (first ++ done, k')

theorem scan_cons_lineEnd (k : Cutter) {c : Char} (h : isLineEnd c = true) (t : Text) :
    k.scan (c :: t) = (k.flushed ++ (start.scan t).1, (start.scan t).2) := by
  rw [scan, if_pos h]

theorem scan_cons (k : Cutter) {c : Char} (h : isLineEnd c = false) (t : Text) :
    k.scan (c :: t) = ((k.step c).1 ++ ((k.step c).2.scan t).1, ((k.step c).2.scan t).2) := by
  rw [scan, if_neg (by simp [h])]

theorem scan_append (k : Cutter) (t u : Text) : k.scan (t ++ u) =
    ((k.scan t).1 ++ ((k.scan t).2.scan u).1, ((k.scan t).2.scan u).2) := by
  induction t generalizing k with
  | nil => rfl
  | cons c t ih =>
    cases h : isLineEnd c with
    | true =>
      rw [List.cons_append, scan_cons_lineEnd k h, scan_cons_lineEnd k h, ih, List.append_assoc]
    | false => rw [List.cons_append, scan_cons k h, scan_cons k h, ih, List.append_assoc]

/-- All statements of a text from a point of the scan on. -/
def cutAll (k : Cutter) (t : Text) : List Text := (k.scan t).1 ++ (k.scan t).2.flushed

/-- The scan over a text goes through its lines, the first one from where it stands. -/
theorem cutAll_eq (k : Cutter) (t : Text) : k.cutAll t = match t.lines with
    | [] => k.flushed
    | first :: rest => statementsFrom k first ++ rest.flatMap (statementsFrom .start) := by
  have hnext : ∀ (k : Cutter) {c : Char} (t : Text), isLineEnd c = true →
      k.cutAll (c :: t) = k.flushed ++ start.cutAll t := by
    intro k c t hc
    rw [cutAll, scan_cons_lineEnd k hc, List.append_assoc]
    rfl
  have hstart : ∀ ls : List Text, (match ls with
      | [] => start.flushed
      | first :: rest => statementsFrom .start first ++ rest.flatMap (statementsFrom .start)) =
        ls.flatMap (statementsFrom .start) := by
    intro ls
    cases ls <;> rfl
  fun_induction Text.lines t generalizing k with
  | case1 => rfl
  | case2 t ih =>
    rw [hnext k _ (by decide), hnext start _ (by decide), ih, hstart]
    rfl
  | case3 c t _ hend ih =>
    rw [hnext k t hend, ih, hstart]
    rfl
  | case4 c t _ hend ih =>
    have hcut : k.cutAll (c :: t) = (k.step c).1 ++ (k.step c).2.cutAll t := by
      rw [cutAll, scan_cons k (by simpa using hend), List.append_assoc]
      rfl
    rw [hcut, ih]
    cases Text.lines t with
    | nil => simp [Text.consFirst, statementsFrom]
    | cons first rest => simp [Text.consFirst, statementsFrom]

end Cutter

theorem attachSemicolons_eq_self {ts : List Text} (h : [';'] ∉ ts) : attachSemicolons ts = ts := by
  fun_induction attachSemicolons ts with
  | case1 rest _ => simp at h
  | case2 t rest _ ih => rw [ih fun hmem => h (by simp [hmem])]
  | case3 => rfl

/-- The lines of a snippet without comments in which no semicolon stands by itself are found by one
scan. -/
theorem bracedLines_eq_joinBraces {d : Dialect} (hd : d.comments = [['/', '/']]) {source : Text}
    (hsource : source.IsCommentless) (hsemi : [';'] ∉ Cutter.start.cutAll source) :
    bracedLines d source = joinBraces (Cutter.start.cutAll source) := by
  have hall : Cutter.start.cutAll source = source.lines.flatMap (statementsFrom .start) := by
    rw [Cutter.cutAll_eq]
    cases source.lines <;> rfl
  rw [hall] at hsemi ⊢
  rw [bracedLines, hd, List.flatMap_def, List.flatMap_def]
  refine congrArg (joinBraces ∘ List.flatten) (List.map_congr_left fun line hline => ?_)
  have hchain : line.IsCommentless := List.IsChain.infix hsource (Text.infix_of_mem_lines hline)
  rw [bracedStatements_of_isCommentless hchain, statements]
  exact attachSemicolons_eq_self fun hmem => hsemi (List.mem_flatMap.2 ⟨line, hline, hmem⟩)

end StepTrace
