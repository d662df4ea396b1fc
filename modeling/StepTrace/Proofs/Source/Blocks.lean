import StepTrace.Proofs.Source.Brace
import StepTrace.Proofs.Source.Prepared
import StepTrace.Proofs.Structured.Scan
import StepTrace.Proofs.Text.Trim

/-!
# Blocks between braces

The lines of a braced snippet have been cut so that a brace which closes the block of an earlier
line stands on a line of its own (`BraceMap.isClosing_of_get?`): on every other line each
closing brace in the code has an opening one before it. The cutter counts open braces, and starts a
new line only where none of this line is open (`Cutter.Sound`).

So every line closes at most one block of an earlier line, and blocks are nested: between the two
lines of a block every other block is closed before it ends (`BraceMap.lt_of_nested`). The scan
that matches the braces keeps the open lines in order, and a line that is not open any more is never
matched again (`BraceScan.Extends`).
-/

namespace StepTrace

/-! ## What a scan adds -/

namespace BraceScan

/-- A later state of a scan. Since then only lines from an index on were matched with each other or
with lines that were open, and only such lines are open. -/
structure Extends (index : Nat) (s s' : BraceScan) : Prop where
  closed : ∃ added : BraceMap, s'.closed = added ++ s.closed ∧
    ∀ p ∈ added, index ≤ p.2 ∧ (p.1 ∈ s.stack ∨ index ≤ p.1)
  stack : ∀ line ∈ s'.stack, line ∈ s.stack ∨ index ≤ line

namespace Extends

variable {index later : Nat} {s s₁ s₂ : BraceScan}

theorem refl (index : Nat) (s : BraceScan) : s.Extends index s :=
  ⟨⟨[], rfl, fun _ h => nomatch h⟩, fun _ h => Or.inl h⟩

theorem trans (h : s.Extends index s₁) (h' : s₁.Extends later s₂) (hle : index ≤ later) :
    s.Extends index s₂ where
  closed := by
    obtain ⟨first, hfirst, hadded⟩ := h.closed
    obtain ⟨second, hsecond, hadded'⟩ := h'.closed
    refine ⟨second ++ first, by rw [hsecond, hfirst, List.append_assoc], fun p hp => ?_⟩
    rcases List.mem_append.1 hp with hp | hp
    · obtain ⟨hclose, hopen | hopen⟩ := hadded' p hp
      · exact ⟨by omega, h.stack p.1 hopen⟩
      · exact ⟨by omega, Or.inr (by omega)⟩
    · exact hadded p hp
  stack line hline := by
    rcases h'.stack line hline with hline | hline
    · exact h.stack line hline
    · exact Or.inr (by omega)

theorem step (index : Nat) (s : BraceScan) (c : Char) : s.Extends index (s.step index c) := by
  unfold BraceScan.step
  split_ifs
  · refine ⟨⟨[], rfl, fun _ h => nomatch h⟩, fun line hline => ?_⟩
    rcases List.mem_cons.1 hline with rfl | hline
    · exact Or.inr (Nat.le_refl _)
    · exact Or.inl hline
  · rcases hstack : s.stack with _ | ⟨opened, stack⟩
    · exact refl index s
    · have hmem : ∀ line ∈ opened :: stack, line ∈ s.stack := fun line h => hstack ▸ h
      refine ⟨⟨[(opened, index)], rfl, fun p hp => ?_⟩, fun line hline => ?_⟩
      · rw [List.mem_singleton.1 hp]
        exact ⟨Nat.le_refl _, Or.inl (hmem opened (by simp))⟩
      · exact Or.inl (hmem line (List.mem_cons_of_mem _ hline))
  · exact refl index s

theorem foldl (index : Nat) : ∀ (code : List Char) (s : BraceScan),
    s.Extends index (code.foldl (BraceScan.step index) s)
  | [], s => refl index s
  | c :: code, s => (step index s c).trans (foldl index code _) (Nat.le_refl _)

theorem lines : ∀ (ts : List Text) (s : BraceScan) (index : Nat),
    s.Extends index (s.lines index ts)
  | [], s, index => refl index s
  | t :: ts, s, index =>
    (foldl index t.code s).trans (lines ts (s.line index t) (index + 1)) (Nat.le_succ _)

end Extends

/-! ### The order of open lines -/

theorem sorted_foldl {index : Nat} : ∀ (code : List Char) {s : BraceScan}, s.Within (index + 1) →
    s.stack.Pairwise (· ≥ ·) → (code.foldl (step index) s).stack.Pairwise (· ≥ ·)
  | [], _, _, h => h
  | c :: code, s, hwithin, h => by
    refine sorted_foldl code (hwithin.step c) ?_
    unfold step
    split_ifs
    · exact List.pairwise_cons.2
        ⟨fun line hline => Nat.le_of_lt_succ (hwithin.opened line hline), h⟩
    · rcases hstack : s.stack with _ | ⟨opened, stack⟩
      · exact h
      · rw [hstack] at h
        exact (List.pairwise_cons.1 h).2
    · exact h

/-- The lines with an open brace are in order, the latest first. -/
theorem sorted_lines : ∀ (ts : List Text) {s : BraceScan} {index : Nat}, s.Within index →
    s.stack.Pairwise (· ≥ ·) → (s.lines index ts).stack.Pairwise (· ≥ ·)
  | [], _, _, _, h => h
  | t :: ts, s, index, hwithin, h => by
    have hwithin' := hwithin.mono (Nat.le_succ index)
    exact sorted_lines ts (BraceScan.Within.foldl t.code hwithin')
      (sorted_foldl t.code hwithin' h)

/-- The scan over the lines before an index. -/
def before (ts : List Text) (index : Nat) : BraceScan := lines ⟨[], []⟩ 0 (ts.take index)

theorem within_before {ts : List Text} {index : Nat} (h : index ≤ ts.length) :
    (before ts index).Within index := by
  have hscan : (before ts index).Within (0 + (ts.take index).length) :=
    .lines _ ⟨fun _ h => (nomatch h), fun _ h => (nomatch h)⟩
  rwa [Nat.zero_add, List.length_take, Nat.min_eq_left h] at hscan

theorem sorted_before (ts : List Text) (index : Nat) :
    (before ts index).stack.Pairwise (· ≥ ·) := by
  have hstart : (⟨[], []⟩ : BraceScan).Within 0 := ⟨fun _ h => (nomatch h), fun _ h => (nomatch h)⟩
  exact sorted_lines _ hstart .nil

/-- All matches are those up to a line and those added behind it. -/
theorem exists_added {ts : List Text} {index : Nat} {t : Text} (h : ts[index]? = some t) :
    ∃ added : BraceMap,
      BraceMap.ofLines ts = added ++ ((before ts index).line index t).closed ∧
      ∀ p ∈ added, index + 1 ≤ p.2 ∧
        (p.1 ∈ ((before ts index).line index t).stack ∨ index + 1 ≤ p.1) := by
  have hlt : index < ts.length := (List.getElem?_eq_some_iff.1 h).1
  have hts : ts = ts.take index ++ t :: ts.drop (index + 1) := by
    conv_lhs => rw [← List.take_append_drop index ts, List.drop_eq_getElem?_toList_append, h]
    rfl
  have hscan : BraceScan.lines ⟨[], []⟩ 0 ts =
      ((before ts index).line index t).lines (index + 1) (ts.drop (index + 1)) := by
    conv_lhs => rw [hts]
    rw [lines_append, List.length_take, Nat.min_eq_left hlt.le, Nat.zero_add]
    rfl
  obtain ⟨added, hclosed, hadded⟩ := (Extends.lines (ts.drop (index + 1))
    ((before ts index).line index t) (index + 1)).closed
  exact ⟨added, by rw [BraceMap.ofLines, hscan, hclosed], hadded⟩

end BraceScan

theorem BraceMap.get?_append (m m' : BraceMap) (k : Nat) :
    BraceMap.get? (m ++ m') k = (m.get? k).or (m'.get? k) :=
  List.lookup_append

theorem BraceMap.mem_of_get? {m : BraceMap} {k v : Nat} (h : m.get? k = some v) : (k, v) ∈ m := by
  obtain ⟨front, back, rfl, -⟩ := List.lookup_eq_some_iff.1 h
  simp

/-- The match of a line is made on the line that closes it. -/
theorem BraceMap.get?_line {ts : List Text} {i a : Nat} {t : Text} (ht : ts[a]? = some t)
    (h : (ofLines ts).get? i = some a) :
    ((BraceScan.before ts a).line a t).closed.get? i = some a := by
  obtain ⟨added, hclosed, hadded⟩ := BraceScan.exists_added ht
  rw [hclosed, get?_append] at h
  cases hfound : BraceMap.get? added i with
  | none => rwa [hfound, Option.none_or] at h
  | some v =>
    rw [hfound, Option.some_or] at h
    cases h
    exact absurd (hadded _ (mem_of_get? hfound)).1 (Nat.not_succ_le_self a)

/-! ## Braces on a line -/

namespace Text

/-- The number of open braces behind a character of code, unless it closes one that is not open. -/
def braceDepth? (depth : Nat) (c : Char) : Option Nat :=
  if c = '\x7b' then some (depth + 1)
  else if c = '\x7d' then if depth = 0 then none else some (depth - 1)
  else some depth

/-- Every closing brace in the code of a text has an opening one before it. -/
def opensFirst (t : Text) : Bool := (t.code.foldlM braceDepth? 0).isSome

theorem isSome_braceDepth? {code : List Char} (h : '\x7d' ∉ code) (depth : Nat) :
    (code.foldlM braceDepth? depth).isSome := by
  induction code generalizing depth with
  | nil => rfl
  | cons c code ih =>
    have hc : c ≠ '\x7d' := fun hc => h (by simp [hc])
    have hcode : '\x7d' ∉ code := fun hmem => h (List.mem_cons_of_mem _ hmem)
    rw [List.foldlM_cons, braceDepth?]
    split_ifs
    · exact ih hcode (depth + 1)
    · exact ih hcode depth

theorem mem_of_mem_codeFrom {c : Char} : ∀ {t : Text} {q : Quotation}, c ∈ codeFrom q t → c ∈ t
  | a :: t, q, h => by
    rw [codeFrom] at h
    split_ifs at h
    · rcases List.mem_cons.1 h with rfl | h
      · simp
      · exact List.mem_cons_of_mem _ (mem_of_mem_codeFrom h)
    · exact List.mem_cons_of_mem _ (mem_of_mem_codeFrom h)

theorem not_isQuote_of_isBlank {c : Char} (h : CharClass.isBlank c = true) : isQuote c = false := by
  have hne : ∀ q : Char, CharClass.isBlank q = false → c ≠ q := by
    rintro q hq rfl
    rw [h] at hq
    cases hq
  simp [isQuote, hne '\'' (by decide), hne '"' (by decide), hne '`' (by decide)]

theorem codeFrom_blanks {blanks : Text} (h : ∀ c ∈ blanks, CharClass.isBlank c = true) (t : Text) :
    codeFrom .outside (blanks ++ t) = blanks ++ codeFrom .outside t := by
  induction blanks with
  | nil => rfl
  | cons c blanks ih =>
    have hquote := not_isQuote_of_isBlank (h c (by simp))
    rw [List.cons_append, codeFrom, Quotation.isCode, Quotation.step, hquote]
    exact congrArg (c :: ·) (ih fun c hc => h c (List.mem_cons_of_mem _ hc))

theorem foldlM_blanks {blanks : Text} (h : ∀ c ∈ blanks, CharClass.isBlank c = true) (depth : Nat) :
    blanks.foldlM braceDepth? depth = some depth := by
  induction blanks with
  | nil => rfl
  | cons c blanks ih =>
    have hblank := h c (by simp)
    have hopen : c ≠ '\x7b' := by rintro rfl; revert hblank; decide
    have hclose : c ≠ '\x7d' := by rintro rfl; revert hblank; decide
    rw [List.foldlM_cons, braceDepth?, if_neg hopen, if_neg hclose]
    exact ih fun c hc => h c (List.mem_cons_of_mem _ hc)

/-- What is blank in front of a text or behind it does not matter. -/
theorem opensFirst_trim {t : Text} (h : t.opensFirst) : t.trim.opensFirst := by
  obtain ⟨front, back, ht, hfront, -⟩ := exists_trim t
  unfold opensFirst at h ⊢
  rw [ht, List.append_assoc, code, codeFrom_blanks hfront, codeFrom_append, List.foldlM_append,
    foldlM_blanks hfront, Option.bind_eq_bind, Option.bind_some, List.foldlM_append] at h
  rw [code]
  cases hdepth : (codeFrom .outside t.trim).foldlM braceDepth? 0 with
  | none =>
    rw [hdepth] at h
    cases h
  | some depth => rfl

/-- One more opening brace at the end does no harm. -/
theorem opensFirst_append_brace {t : Text} (h : t.opensFirst) :
    opensFirst (t ++ [' ', '\x7b']) := by
  obtain ⟨depth, hdepth⟩ := Option.isSome_iff_exists.1 h
  unfold opensFirst
  rw [code, codeFrom_append, List.foldlM_append]
  rw [code] at hdepth
  rw [hdepth]
  exact isSome_braceDepth? (fun hmem => absurd (mem_of_mem_codeFrom hmem) (by decide)) depth

end Text

/-! ## Cutting -/

namespace Cutter

/-- What the cutter knows is true of the statement so far: where its quotations stand, and how many
of its braces are open. -/
structure Sound (k : Cutter) : Prop where
  quotation : k.current.foldl Quotation.step .outside = k.quotation
  braces : k.current.code.foldlM Text.braceDepth? 0 = some k.braces

theorem sound_start : start.Sound := ⟨rfl, rfl⟩

/-- At the beginning of a statement outside of quotations and braces the cutter is right. -/
theorem sound_of_nil {k : Cutter} (hreversed : k.reversed = [])
    (hquotation : k.quotation = .outside) (hbraces : k.braces = 0) : k.Sound := by
  have hcurrent : k.current = [] := by rw [current, hreversed, List.reverse_nil]
  exact ⟨by rw [hcurrent, hquotation]; rfl, by rw [hcurrent, hbraces]; rfl⟩

theorem current_push (k : Cutter) (c : Char) : (k.push c).current = k.current ++ [c] :=
  List.reverse_cons

theorem Sound.quotation_push {k : Cutter} (h : k.Sound) (c : Char) :
    (k.push c).current.foldl Quotation.step .outside = (k.push c).quotation := by
  rw [current_push, List.foldl_append, h.quotation]
  rfl

theorem Sound.code_push {k : Cutter} (h : k.Sound) (c : Char) :
    (k.push c).current.code.foldlM Text.braceDepth? 0 =
      if k.quotation.isCode c then Text.braceDepth? k.braces c else some k.braces := by
  rw [current_push, Text.code, Text.codeFrom_append, List.foldlM_append, h.quotation]
  have hbraces := h.braces
  rw [Text.code] at hbraces
  rw [hbraces, Option.bind_eq_bind, Option.bind_some, Text.codeFrom]
  split_ifs
  · show (Text.braceDepth? k.braces c).bind some = _
    rw [Option.bind_fun_some]
  · rfl

theorem opensFirst_of_mem_flushed {k : Cutter} (h : k.Sound) {t : Text} (ht : t ∈ k.flushed) :
    t.opensFirst := by
  simp only [flushed] at ht
  split_ifs at ht
  · cases ht
  · rw [List.mem_singleton.1 ht]
    exact Text.opensFirst_trim (by rw [Text.opensFirst, h.braces]; rfl)

theorem step_of_isCode {q : Quotation} {c : Char} (h : q.isCode c) : q.step c = .outside := by
  cases q with
  | outside =>
    have hquote : isQuote c = false := by simpa [Quotation.isCode] using h
    rw [Quotation.step, hquote]
    rfl
  | _ => cases h

/-- Keeping a character, and counting its brace, leaves the cutter right. -/
theorem Sound.push {k : Cutter} (h : k.Sound) {c : Char} {braces : Nat}
    (hdepth : (if k.quotation.isCode c then Text.braceDepth? k.braces c else some k.braces) =
      some braces) (parens : Nat) :
    Sound { k.push c with parens := parens, braces := braces } :=
  ⟨h.quotation_push c, (h.code_push c).trans hdepth⟩

theorem opensFirst_of_mem_cut {k : Cutter} (h : k.Sound) {c : Char} {braces : Nat}
    (hdepth : (if k.quotation.isCode c then Text.braceDepth? k.braces c else some k.braces) =
      some braces) {t : Text} (ht : t ∈ (k.push c).cut.1) : t.opensFirst :=
  opensFirst_of_mem_flushed (h.push hdepth k.parens) ht

/-- A character of code after which the braces are closed ends the statement. -/
theorem sound_cut {k : Cutter} {c : Char} (hcode : k.quotation.isCode c) (hbraces : k.braces = 0) :
    (k.push c).cut.2.Sound :=
  sound_of_nil rfl (step_of_isCode hcode) hbraces

/-- A character completes statements that open their braces themselves, or a closing brace, and the
cutter stays right. -/
theorem Sound.step {k : Cutter} (h : k.Sound) (c : Char) :
    (∀ t ∈ (k.step c).1, t = ['\x7d'] ∨ t.opensFirst) ∧ (k.step c).2.Sound := by
  have hnone : ∀ t ∈ ([] : List Text), t = ['\x7d'] ∨ t.opensFirst := fun _ h => nomatch h
  unfold Cutter.step
  split_ifs with hcode hopening hclosing hbrace hinner hbrace' hinner' hsemicolon
  · refine ⟨hnone, h.push ?_ k.parens⟩
    rw [if_neg (by simpa using hcode)]
  all_goals have hcode : k.quotation.isCode c = true := by simpa using hcode
  · refine ⟨hnone, h.push ?_ (k.parens + 1)⟩
    rw [if_pos hcode]
    rcases hopening with rfl | rfl <;> rfl
  · refine ⟨hnone, h.push ?_ (k.parens - 1)⟩
    rw [if_pos hcode]
    rcases hclosing with rfl | rfl <;> rfl
  · refine ⟨hnone, h.push ?_ k.parens⟩
    rw [if_pos hcode, hbrace]
    rfl
  · have hdepth : (if k.quotation.isCode c then Text.braceDepth? k.braces c else some k.braces) =
        some (k.braces + 1) := by rw [if_pos hcode, hbrace]; rfl
    have hzero : k.braces = 0 := by
      by_contra hne
      exact hinner (Or.inl hne)
    exact ⟨fun t ht => Or.inr (opensFirst_of_mem_cut h hdepth ht), sound_cut hcode hzero⟩
  · refine ⟨hnone, h.push ?_ k.parens⟩
    rw [if_pos hcode, hbrace', Text.braceDepth?, if_neg (by decide), if_pos rfl, if_neg hinner']
  · refine ⟨fun t ht => ?_, sound_of_nil rfl ?_ (not_not.1 hinner')⟩
    · rcases List.mem_append.1 ht with ht | ht
      · exact Or.inr (opensFirst_of_mem_flushed h ht)
      · exact Or.inl (List.mem_singleton.1 ht)
    · cases hquotation : k.quotation with
      | outside => rfl
      | _ =>
        rw [hquotation] at hcode
        cases hcode
  · have hdepth : (if k.quotation.isCode c then Text.braceDepth? k.braces c else some k.braces) =
        some k.braces := by rw [if_pos hcode, Text.braceDepth?, if_neg hbrace, if_neg hbrace']
    exact ⟨fun t ht => Or.inr (opensFirst_of_mem_cut h hdepth ht),
      sound_cut hcode hsemicolon.2.2.1⟩
  · refine ⟨hnone, h.push ?_ k.parens⟩
    rw [if_pos hcode, Text.braceDepth?, if_neg hbrace, if_neg hbrace']

end Cutter

theorem opensFirst_of_mem_statementsFrom : ∀ (t : Text) {k : Cutter}, k.Sound →
    ∀ st ∈ statementsFrom k t, st = ['\x7d'] ∨ st.opensFirst
  | [], _, h, st, hst => Or.inr (Cutter.opensFirst_of_mem_flushed h hst)
  | c :: t, k, h, st, hst => by
    obtain ⟨hdone, hsound⟩ := h.step c
    rcases List.mem_append.1 hst with hst | hst
    · exact hdone st hst
    · exact opensFirst_of_mem_statementsFrom t hsound st hst

/-- The line closes a block and says nothing else. -/
def isClosing (t : Text) : Bool := t == ['\x7d'] || t == ['\x7d', ';']

theorem isClosing_of_mem_attachSemicolons {ts : List Text}
    (h : ∀ t ∈ ts, t = ['\x7d'] ∨ t.opensFirst) :
    ∀ t ∈ attachSemicolons ts, isClosing t ∨ t.opensFirst := by
  fun_induction attachSemicolons ts with
  | case1 rest ih =>
    intro t ht
    rcases List.mem_cons.1 ht with rfl | ht
    · exact Or.inl rfl
    · exact ih (fun t ht => h t (by simp [ht])) t ht
  | case2 t rest _ ih =>
    intro u hu
    rcases List.mem_cons.1 hu with rfl | hu
    · refine (h u (by simp)).imp_left ?_
      rintro rfl
      rfl
    · exact ih (fun t ht => h t (by simp [ht])) u hu
  | case3 => exact List.forall_mem_nil _

theorem isClosing_of_mem_joinBraces {ts : List Text}
    (h : ∀ t ∈ ts, isClosing t ∨ t.opensFirst) :
    ∀ t ∈ joinBraces ts, isClosing t ∨ t.opensFirst := by
  fun_induction joinBraces ts with
  | case1 => exact List.forall_mem_nil _
  | case2 t => exact h
  | case3 t next rest hjoin ih =>
    intro u hu
    rcases List.mem_cons.1 hu with rfl | hu
    · have hopens : t.opensFirst := by
        refine (h t (by simp)).resolve_left fun hclosing => ?_
        rcases Bool.or_eq_true_iff.1 hclosing with ht | ht <;>
        · obtain rfl := beq_iff_eq.1 ht
          exact absurd hjoin.2 (by decide)
      exact Or.inr (Text.opensFirst_append_brace hopens)
    · exact ih (fun t ht => h t (by simp [ht])) u hu
  | case4 t next rest _ ih =>
    intro u hu
    rcases List.mem_cons.1 hu with rfl | hu
    · exact h u (by simp)
    · exact ih (fun t ht => h t (List.mem_cons_of_mem _ ht)) u hu

/-- A line of a braced snippet is a closing brace, or opens every brace that it closes. -/
theorem isClosing_or_opensFirst {d : Dialect} {source line : Text}
    (h : line ∈ bracedLines d source) : isClosing line ∨ line.opensFirst := by
  refine isClosing_of_mem_joinBraces (fun t ht => ?_) line h
  obtain ⟨raw, -, ht⟩ := List.mem_flatMap.1 ht
  simp only [bracedStatements] at ht
  split_ifs at ht
  · cases ht
  · exact isClosing_of_mem_attachSemicolons
      (opensFirst_of_mem_statementsFrom _ Cutter.sound_start) t ht

/-! ## Blocks -/

namespace BraceScan

theorem closed_foldl {index : Nat} (stack : List Nat) : ∀ (code : List Char) (opened : Nat)
    {depth : Nat} (closed : BraceMap), code.foldlM Text.braceDepth? opened = some depth →
    ∃ added : BraceMap,
      (code.foldl (step index) ⟨List.replicate opened index ++ stack, closed⟩).closed =
        added ++ closed ∧ ∀ p ∈ added, p.1 = index
  | [], _, _, _, _ => ⟨[], rfl, fun _ h => nomatch h⟩
  | c :: code, opened, depth, closed, h => by
    rw [List.foldlM_cons, Text.braceDepth?] at h
    rw [List.foldl_cons, step]
    split_ifs at h ⊢ with hopen hclose hzero
    · exact closed_foldl stack code (opened + 1) closed h
    · cases h
    · obtain ⟨below, rfl⟩ := Nat.exists_eq_add_one_of_ne_zero hzero
      obtain ⟨added, hadded, hindex⟩ :=
        closed_foldl stack code below ((index, index) :: closed) h
      refine ⟨added ++ [(index, index)], by rw [List.append_assoc]; exact hadded, fun p hp => ?_⟩
      rcases List.mem_append.1 hp with hp | hp
      · exact hindex p hp
      · rw [List.mem_singleton.1 hp]
    · exact closed_foldl stack code opened closed h

/-- A line that opens its braces itself matches no line but itself. -/
theorem closed_of_opensFirst {t : Text} (h : t.opensFirst) (s : BraceScan) (index : Nat) :
    ∃ added : BraceMap, (s.line index t).closed = added ++ s.closed ∧ ∀ p ∈ added, p.1 = index := by
  obtain ⟨depth, hdepth⟩ := Option.isSome_iff_exists.1 h
  exact closed_foldl s.stack t.code 0 s.closed hdepth

/-- A closing brace matches the line that was opened last. -/
theorem line_isClosing {t : Text} (h : isClosing t) (s : BraceScan) (index : Nat) :
    s.line index t = match s.stack with
      | opened :: stack => ⟨stack, (opened, index) :: s.closed⟩
      | [] => s := by
  rcases Bool.or_eq_true_iff.1 h with ht | ht
  · obtain rfl := beq_iff_eq.1 ht
    rfl
  · obtain rfl := beq_iff_eq.1 ht
    show step index (step index s '\x7d') ';' = _
    rw [step, if_neg (by decide), if_neg (by decide)]
    rfl

end BraceScan

section Blocks

variable {lines : List Text} {i a : Nat}

/-- No match that was made before a line has this line as its end. -/
theorem BraceScan.get?_before_ne (ha : a ≤ lines.length) (k : Nat) :
    (BraceScan.before lines a).closed.get? k ≠ some a := by
  intro h
  have hlt := ((BraceScan.within_before ha).closed _ (BraceMap.mem_of_get? h)).2
  exact Nat.lt_irrefl _ hlt

variable (hlines : ∀ line ∈ lines, isClosing line ∨ line.opensFirst)
  (hclose : (BraceMap.ofLines lines).get? i = some a) (hlt : i < a)

include hlines hclose hlt

/-- The block of an earlier line is closed by a brace on a line of its own. -/
theorem BraceMap.isClosing_of_get? : ∃ line, lines[a]? = some line ∧ isClosing line := by
  have ha := (get?_ofLines hclose).2
  have hline : lines[a]? = some lines[a] := List.getElem?_eq_getElem ha
  refine ⟨lines[a], hline, (hlines _ (List.getElem_mem ha)).resolve_right fun hopens => ?_⟩
  have hmatch := get?_line hline hclose
  obtain ⟨added, hclosed, hindex⟩ :=
    BraceScan.closed_of_opensFirst hopens (BraceScan.before lines a) a
  rw [hclosed, get?_append] at hmatch
  cases hfound : BraceMap.get? added i with
  | none =>
    rw [hfound, Option.none_or] at hmatch
    exact BraceScan.get?_before_ne ha.le i hmatch
  | some v => exact absurd (hindex _ (mem_of_get? hfound)) (Nat.ne_of_lt hlt)

/-- Before the closing brace the line of the block is the one that was opened last. -/
theorem BraceScan.stack_before : ∃ line stack, lines[a]? = some line ∧
    (BraceScan.before lines a).stack = i :: stack ∧
    (BraceScan.before lines a).line a line =
      ⟨stack, (i, a) :: (BraceScan.before lines a).closed⟩ := by
  have ha := (BraceMap.get?_ofLines hclose).2
  obtain ⟨line, hline, hclosing⟩ := BraceMap.isClosing_of_get? hlines hclose hlt
  have hmatch := BraceMap.get?_line hline hclose
  rw [line_isClosing hclosing] at hmatch
  cases hstack : (BraceScan.before lines a).stack with
  | nil =>
    rw [hstack] at hmatch
    exact absurd hmatch (get?_before_ne ha.le i)
  | cons opened stack =>
    rw [hstack] at hmatch
    have hopened : opened = i := by
      by_contra hne
      rw [BraceMap.get?_cons_of_ne (Ne.symm hne)] at hmatch
      exact get?_before_ne ha.le i hmatch
    subst hopened
    exact ⟨line, stack, hline, rfl, by rw [line_isClosing hclosing, hstack]⟩

/-- Blocks are nested: one that begins inside of another one is closed before it. -/
theorem BraceMap.lt_of_nested {k b : Nat} (hik : i < k) (hka : k < a)
    (hk : (ofLines lines).get? k = some b) : b < a := by
  have ha := (get?_ofLines hclose).2
  obtain ⟨line, stack, hline, hstack, hscan⟩ := BraceScan.stack_before hlines hclose hlt
  have hsorted := BraceScan.sorted_before lines a
  obtain ⟨added, hclosed, hadded⟩ := BraceScan.exists_added hline
  rw [hstack] at hsorted
  rw [hscan] at hclosed hadded
  -- Behind the closing brace only lines up to `i` or behind `a` are still open.
  have hnone : BraceMap.get? added k = none := by
    cases hfound : BraceMap.get? added k with
    | none => rfl
    | some v =>
      rcases (hadded _ (mem_of_get? hfound)).2 with hmem | hlate
      · have hle : k ≤ i := (List.pairwise_cons.1 hsorted).1 k hmem
        omega
      · dsimp only at hlate
        omega
  rw [hclosed, get?_append, hnone, Option.none_or, get?_cons_of_ne (by omega)] at hk
  exact ((BraceScan.within_before ha.le).closed _ (mem_of_get? hk)).2

end Blocks

end StepTrace
