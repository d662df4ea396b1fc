import StepTrace.Language
import StepTrace.Program.Run
import StepTrace.Proofs.Source.Cutting
import StepTrace.Proofs.Structured.Scan

/-!
# Layouts of a braced snippet

The same statements and blocks can be written on one line or on many, with the brace of a block
behind its header or on a line of its own. All these layouts of a tree of statements and blocks
(`BraceTree.Laid`) are prepared to the same lines, one for each statement, header and closing brace,
with the same blocks (`BraceTree.bracedLines_of_laid`).

What is asked of the tree is said in `BraceTree.isPlain`. It keeps to texts that the scan over a
line goes through without a cut: no quotation, brace, comment or line end, and brackets that match,
the round and the square ones counted together as the scan does. Headers need all of this as well as
statements do (`BraceTree.bracedLines_of_rough_texts`).
-/

namespace StepTrace

open CharClass

/-! ## Trees of statements and blocks -/

/-- The header of a block. -/
inductive BraceHeader where
  | ifHolds (cond : Text)
  | elseIf (cond : Text)
  | otherwise
  | whileHolds (cond : Text)
  | counting (init cond update : Text)
deriving DecidableEq, Repr

namespace BraceHeader

/-- The words at the front of a header. -/
def words : BraceHeader → Text
  | ifHolds _ => "if".toList
  | elseIf _ => "else if".toList
  | otherwise => "else".toList
  | whileHolds _ => "while".toList
  | counting _ _ _ => "for".toList

/-- What a header has between its parentheses. -/
def clause? : BraceHeader → Option Text
  | ifHolds cond => some cond
  | elseIf cond => some cond
  | otherwise => none
  | whileHolds cond => some cond
  | counting init cond update => some (init ++ "; ".toList ++ cond ++ "; ".toList ++ update)

/-- A header as it is written. -/
def text (h : BraceHeader) : Text :=
  match h.clause? with
  | some clause => h.words ++ [' ', '('] ++ clause ++ [')']
  | none => h.words

end BraceHeader

/-- Statements and blocks one after the other. -/
inductive BraceTree where
  | done
  | statement (text : Text) (rest : BraceTree)
  | block (header : BraceHeader) (body rest : BraceTree)
deriving DecidableEq, Repr

namespace BraceTree

/-- The lines of a tree: each statement, each header with its brace, and each closing brace. -/
def lines : BraceTree → List Text
  | done => []
  | statement text rest => text :: rest.lines
  | block header body rest => Structured.opened .braced header.text :: (body.lines ++
      ['\x7d'] :: rest.lines)

/-- The blocks of a tree whose first line has an index, the last one first: the line of a header
and the line of its closing brace. -/
def blocks : (index : Nat) → BraceTree → BraceMap
  | _, done => []
  | index, statement _ rest => rest.blocks (index + 1)
  | index, block _ body rest =>
    let stop := index + 1 + body.lines.length
    rest.blocks (stop + 1) ++ (index, stop) :: body.blocks (index + 1)

/-- The brace of a header follows it after one space, or begins a later line. -/
inductive Opening : Text → Prop
  | sameLine : Opening [' ', '\x7b']
  | laterLine {gap : Text} : (∀ c ∈ gap, isBlank c = true) → (∃ c ∈ gap, isLineEnd c = true) →
      Opening (gap ++ ['\x7b'])

/-- The layouts of a tree: any white space between its parts. -/
inductive Laid : BraceTree → Text → Prop
  | done {gap : Text} : (∀ c ∈ gap, isBlank c = true) → Laid .done gap
  | statement {gap text rest : Text} {tree : BraceTree} : (∀ c ∈ gap, isBlank c = true) →
      Laid tree rest → Laid (.statement text tree) (gap ++ text ++ rest)
  | block {gap opening inner rest : Text} {header : BraceHeader} {body tree : BraceTree} :
      (∀ c ∈ gap, isBlank c = true) → Opening opening → Laid body inner → Laid tree rest →
        Laid (.block header body tree) (gap ++ header.text ++ opening ++ inner ++ ['\x7d'] ++ rest)

end BraceTree

/-! ## Plain texts -/

namespace Text

/-- Round and square brackets match, counted together from a depth on. -/
def matchedFrom : Nat → Text → Bool
  | depth, [] => depth == 0
  | depth, c :: t =>
    if c = '(' ∨ c = '[' then matchedFrom (depth + 1) t
    else if c = ')' ∨ c = ']' then depth != 0 && matchedFrom (depth - 1) t
    else matchedFrom depth t

/-- A character that is no quote, brace or line end. -/
def isPlainChar (c : Char) : Bool := !isQuote c && c != '\x7b' && c != '\x7d' && !isLineEnd c

/-- No quote, brace, line end or comment, and brackets that match. -/
def isPlain (t : Text) : Bool := t.all isPlainChar && decide t.IsCommentless && t.matchedFrom 0

/-- The text begins with a word that ends there. -/
def beginsWithWord (word t : Text) : Bool :=
  t.startsWith word && !(t.drop word.length).head?.any CharClass.isWord

/-- A plain statement: trimmed, with its only semicolon at the end and other text before it, and
not beginning like a counting loop. -/
def isPlainStatement (t : Text) : Bool :=
  t.isPlain && t.trim == t && t.endsIn ';' && !t.dropLast.isEmpty && !t.dropLast.contains ';' &&
    !beginsWithWord "for".toList t

end Text

/-- The statements of a tree and the clauses of its headers are plain. -/
def BraceTree.isPlain : BraceTree → Bool
  | done => true
  | statement text rest => text.isPlainStatement && rest.isPlain
  | block header body rest => header.clause?.all Text.isPlain && body.isPlain && rest.isPlain

/-! ## Scanning plain texts -/

namespace Cutter

/-- Between two statements: nothing but white space so far and nothing open. -/
def Fresh (k : Cutter) : Prop := ∃ b, (∀ c ∈ b, isBlank c = true) ∧ k = ⟨b, 0, 0, .outside⟩

theorem fresh_start : start.Fresh := ⟨[], fun _ h => (nomatch h), rfl⟩

/-- Between two statements, a text completes the given ones and leads between two statements. -/
def Cuts (t : Text) (pieces : List Text) : Prop :=
  ∀ k : Cutter, k.Fresh → (k.scan t).1 = pieces ∧ (k.scan t).2.Fresh

theorem Cuts.append {t u : Text} {ps qs : List Text} (h : Cuts t ps) (h' : Cuts u qs) :
    Cuts (t ++ u) (ps ++ qs) := by
  intro k hk
  obtain ⟨hps, hmid⟩ := h k hk
  obtain ⟨hqs, hend⟩ := h' _ hmid
  rw [scan_append, hps, hqs]
  exact ⟨rfl, hend⟩

theorem Fresh.flushed {k : Cutter} (h : k.Fresh) : k.flushed = [] := by
  obtain ⟨b, hb, rfl⟩ := h
  exact flushed_eq_nil hb

theorem cuts_blanks {gap : Text} (h : ∀ c ∈ gap, isBlank c = true) : Cuts gap [] := by
  induction gap with
  | nil => exact fun k hk => ⟨rfl, hk⟩
  | cons c gap ih =>
    have hgap := ih fun a ha => h a (by simp [ha])
    intro k hk
    cases hc : isLineEnd c with
    | true =>
      obtain ⟨hdone, hend⟩ := hgap start fresh_start
      rw [scan_cons_lineEnd k hc, hk.flushed, hdone]
      exact ⟨rfl, hend⟩
    | false =>
      obtain ⟨b, hb, rfl⟩ := hk
      have hblank : isBlank c = true := h c (by simp)
      have hpush : (Cutter.mk b 0 0 .outside).push c = ⟨c :: b, 0, 0, .outside⟩ := by
        simp [push, Quotation.step, Text.not_isQuote_of_isBlank hblank]
      rw [scan_cons _ hc, step_blank _ hblank, hpush]
      exact hgap _ ⟨c :: b, by simpa [hblank] using hb, rfl⟩

/-- A plain text with matched brackets is kept as a whole, if it stands inside of brackets or has no
semicolon. -/
theorem scan_of_matched {base : Nat} : ∀ {t : Text} {depth : Nat} (reversed : Text),
    (∀ c ∈ t, Text.isPlainChar c = true) → t.matchedFrom depth → (base ≠ 0 ∨ ';' ∉ t) →
      scan ⟨reversed, base + depth, 0, .outside⟩ t =
        ([], ⟨t.reverse ++ reversed, base, 0, .outside⟩)
  | [], depth, reversed, _, hmatched, _ => by
    have hdepth : depth = 0 := by simpa [Text.matchedFrom] using hmatched
    rw [hdepth]
    rfl
  | c :: t, depth, reversed, hplain, hmatched, hsemi => by
    have hc : Text.isPlainChar c = true := hplain c (by simp)
    simp only [Text.isPlainChar, Bool.and_eq_true, Bool.not_eq_true', bne_iff_ne] at hc
    obtain ⟨⟨⟨hquote, hopen⟩, hclose⟩, hend⟩ := hc
    have hrest : ∀ a ∈ t, Text.isPlainChar a = true := fun a ha => hplain a (by simp [ha])
    have hsemi' : base ≠ 0 ∨ ';' ∉ t := hsemi.imp_right fun h hmem => h (by simp [hmem])
    have hcode : Quotation.isCode .outside c = true := by simp [Quotation.isCode, hquote]
    have hpush : ∀ parens, (Cutter.mk reversed parens 0 .outside).push c =
        ⟨c :: reversed, parens, 0, .outside⟩ := by
      simp [push, Quotation.step, hquote]
    have hscan : ∀ parens, (Cutter.mk reversed (base + depth) 0 .outside).step c =
        ([], ⟨c :: reversed, parens, 0, .outside⟩) →
        scan ⟨c :: reversed, parens, 0, .outside⟩ t =
          ([], ⟨t.reverse ++ c :: reversed, base, 0, .outside⟩) →
        scan ⟨reversed, base + depth, 0, .outside⟩ (c :: t) =
          ([], ⟨(c :: t).reverse ++ reversed, base, 0, .outside⟩) := by
      intro parens hstep htail
      rw [scan_cons _ hend, hstep, htail]
      simp
    rw [Text.matchedFrom] at hmatched
    split_ifs at hmatched with hopener hcloser
    · refine hscan (base + (depth + 1)) ?_ (scan_of_matched _ hrest hmatched hsemi')
      rw [step, hcode, if_neg (by simp), if_pos hopener, hpush]
      rfl
    · obtain ⟨hdepth, hmatched⟩ := Bool.and_eq_true_iff.1 hmatched
      have hparens : base + depth - 1 = base + (depth - 1) := by
        have hne : depth ≠ 0 := bne_iff_ne.1 hdepth
        omega
      refine hscan (base + (depth - 1)) ?_ (scan_of_matched _ hrest hmatched hsemi')
      rw [step, hcode, if_neg (by simp), if_neg hopener, if_pos hcloser, hpush, ← hparens]
    · refine hscan (base + depth) ?_ (scan_of_matched _ hrest hmatched hsemi')
      have hkept : ¬(c = ';' ∧ base + depth = 0 ∧ (0 : Nat) = 0 ∧
          (!isForHeader (Cutter.mk reversed (base + depth) 0 .outside).current) = true) := by
        rintro ⟨rfl, hzero, -⟩
        rcases hsemi with h | h
        · exact h (by omega)
        · exact h (by simp)
      rw [step, hcode, if_neg (by simp), if_neg hopener, if_neg hcloser, if_neg hopen,
        if_neg hclose, if_neg hkept, hpush]

theorem scan_singleton (k : Cutter) {c : Char} (h : isLineEnd c = false) :
    k.scan [c] = k.step c := by
  rw [scan_cons k h]
  exact Prod.ext (List.append_nil _) rfl

end Cutter

namespace Text

variable {t : Text}

theorem isPlain_iff : t.isPlain ↔
    ((∀ c ∈ t, isPlainChar c = true) ∧ t.IsCommentless) ∧ t.matchedFrom 0 := by
  simp [isPlain]

end Text

/-! ## Statements -/

/-- What a plain statement consists of. -/
structure Text.PlainStatement (t body : Text) : Prop where
  eq : t = body ++ [';']
  ne_nil : body ≠ []
  plain : ∀ c ∈ t, isPlainChar c = true
  commentless : t.IsCommentless
  matched : body.matchedFrom 0
  semicolon : ';' ∉ body
  trimmed : t.IsTrimmed
  notFor : isForHeader body = false

/-- A semicolon leaves the brackets before it as they are. -/
theorem Text.matchedFrom_of_semicolon : ∀ {t : Text} {depth : Nat},
    (t ++ [';']).matchedFrom depth → t.matchedFrom depth
  | [], _, h => h
  | c :: t, depth, h => by
    rw [List.cons_append, matchedFrom] at h
    rw [matchedFrom]
    split_ifs at h ⊢
    · exact matchedFrom_of_semicolon h
    · obtain ⟨hdepth, h⟩ := Bool.and_eq_true_iff.1 h
      exact Bool.and_eq_true_iff.2 ⟨hdepth, matchedFrom_of_semicolon h⟩
    · exact matchedFrom_of_semicolon h

theorem Text.plainStatement {t : Text} (h : t.isPlainStatement) : t.PlainStatement t.dropLast := by
  simp only [isPlainStatement, Bool.and_eq_true, beq_iff_eq, Bool.not_eq_true', endsIn,
    List.isEmpty_eq_false_iff, List.contains_eq_mem, decide_eq_false_iff_not] at h
  obtain ⟨⟨⟨⟨⟨hplain, htrim⟩, hlast⟩, hne⟩, hsemi⟩, hfor⟩ := h
  obtain ⟨⟨hchars, hcomments⟩, hmatched⟩ := isPlain_iff.1 hplain
  have heq : t = t.dropLast ++ [';'] := by
    rw [List.getLast?_eq_some_iff] at hlast
    obtain ⟨body, rfl⟩ := hlast
    rw [List.dropLast_concat]
  have htrimmed := isTrimmed_of_trim_eq htrim
  refine ⟨heq, hne, hchars, hcomments, ?_, hsemi, htrimmed, ?_⟩
  · rw [heq] at hmatched
    exact matchedFrom_of_semicolon hmatched
  · -- A word at the front of the body is one at the front of the statement.
    rw [Bool.eq_false_iff]
    intro hheader
    obtain ⟨rest, hrest, hedge⟩ := isForHeader_iff.1 hheader
    obtain ⟨c, body, hbody⟩ := List.exists_cons_of_ne_nil hne
    have hc : isBlank c = false := htrimmed.head c (by rw [heq, hbody]; rfl)
    have hfront : trimLeft t.dropLast = t.dropLast := by
      rw [hbody, trimLeft, List.dropWhile_cons_of_neg (by simp [hc])]
    have ht : t = "for".toList ++ (rest ++ [';']) := by
      rw [← List.append_assoc, ← hrest, hfront, ← heq]
    have hword : beginsWithWord "for".toList t = true := by
      rw [ht, beginsWithWord, startsWith, List.drop_left]
      have hhead : (rest ++ [';']).head?.any CharClass.isWord = false := by
        cases rest with
        | nil => decide +kernel
        | cons a rest => exact hedge
      rw [hhead, Bool.not_false, Bool.and_true]
      exact List.isPrefixOf_iff_prefix.2 (List.prefix_append _ _)
    rw [hword] at hfor
    cases hfor

namespace Cutter

theorem cuts_statement {t : Text} (h : t.isPlainStatement) : Cuts t [t] := by
  have hst := Text.plainStatement h
  generalize t.dropLast = body at hst
  obtain ⟨heq, hne, hplain, -, hmatched, hsemi, htrimmed, hfor⟩ := hst
  rintro - ⟨b, hb, rfl⟩
  have hbody : scan ⟨b, 0, 0, .outside⟩ body = ([], ⟨body.reverse ++ b, 0, 0, .outside⟩) :=
    scan_of_matched b (fun c hc => hplain c (by simp [heq, hc])) hmatched (Or.inr hsemi)
  have hblank : ∀ c ∈ b.reverse, isBlank c = true := fun c hc => hb c (List.mem_reverse.1 hc)
  have hcurrent : (Cutter.mk (body.reverse ++ b) 0 0 .outside).current = b.reverse ++ body := by
    simp [current]
  have hstep : (Cutter.mk (body.reverse ++ b) 0 0 .outside).step ';' =
      ([t], ⟨[], 0, 0, .outside⟩) := by
    have hcut : (Cutter.mk (';' :: (body.reverse ++ b)) 0 0 .outside).flushed = [t] := by
      refine flushed_eq b.reverse [] ?_ hblank (by simp) htrimmed ?_
      · simp [current, heq]
      · simp [heq]
    have hheader : isForHeader (b.reverse ++ body) = false := by
      rw [isForHeader_append hblank, hfor]
    rw [step, hcurrent, hheader]
    exact congrArg (·, (⟨[], 0, 0, .outside⟩ : Cutter)) hcut
  rw [heq, scan_append, hbody, scan_singleton _ (by decide), hstep, ← heq]
  exact ⟨rfl, fresh_start⟩

theorem cuts_closing : Cuts ['\x7d'] [['\x7d']] := by
  rintro - ⟨b, hb, rfl⟩
  have hstep : (Cutter.mk b 0 0 .outside).step '\x7d' = ([['\x7d']], ⟨[], 0, 0, .outside⟩) := by
    have hflushed : (Cutter.mk b 0 0 .outside).flushed = [] := flushed_eq_nil hb
    show ((Cutter.mk b 0 0 .outside).flushed ++ [['\x7d']], _) = _
    rw [hflushed]
    rfl
  rw [scan_singleton _ (by decide), hstep]
  exact ⟨rfl, fresh_start⟩

end Cutter

/-! ## Headers -/

namespace BraceHeader

variable {h : BraceHeader}

/-- The words that headers begin with. -/
def openings : List Text := ["if", "else if", "else", "while", "for"].map String.toList

theorem words_mem : ∀ h : BraceHeader, h.words ∈ openings
  | ifHolds _ => .head _
  | elseIf _ => .tail _ (.head _)
  | otherwise => .tail _ (.tail _ (.head _))
  | whileHolds _ => .tail _ (.tail _ (.tail _ (.head _)))
  | counting _ _ _ => .tail _ (.tail _ (.tail _ (.tail _ (.head _))))

theorem text_eq {clause : Text} (hclause : h.clause? = some clause) :
    h.text = (h.words ++ [' ']) ++ (['('] ++ (clause ++ [')'])) := by
  simp [text, hclause]

theorem text_of_none (hclause : h.clause? = none) : h.text = h.words := by
  simp [text, hclause]

theorem eq_otherwise (hclause : h.clause? = none) : h = otherwise := by
  cases h with
  | otherwise => rfl
  | _ => cases hclause

theorem exists_words (h : BraceHeader) : ∃ c rest, h.words = c :: rest ∧ isBlank c = false := by
  cases h <;> exact ⟨_, _, rfl, by decide +kernel⟩

theorem exists_text (h : BraceHeader) : ∃ c rest, h.text = c :: rest ∧ isBlank c = false := by
  obtain ⟨c, rest, hwords, hc⟩ := h.exists_words
  cases hclause : h.clause? with
  | some clause => exact ⟨c, _, by rw [text_eq hclause, hwords]; rfl, hc⟩
  | none => exact ⟨c, rest, by rw [text_of_none hclause, hwords], hc⟩

/-- A header ends in a parenthesis or the word for a last clause. -/
theorem getLast?_text (h : BraceHeader) :
    h.text.getLast? = some ')' ∨ h.text = "else".toList := by
  cases hclause : h.clause? with
  | some clause =>
    rw [text_eq hclause, ← List.append_assoc, ← List.append_assoc, List.getLast?_concat]
    exact Or.inl rfl
  | none =>
    rw [eq_otherwise hclause]
    exact Or.inr rfl

theorem isTrimmed_text (h : BraceHeader) : h.text.IsTrimmed where
  head a ha := by
    obtain ⟨c, rest, htext, hc⟩ := h.exists_text
    rw [htext] at ha
    cases ha
    exact hc
  last a ha := by
    rcases h.getLast?_text with hlast | hlast
    · rw [hlast] at ha
      cases ha
      decide +kernel
    · rw [hlast] at ha
      cases ha
      decide +kernel

theorem text_ne_nil (h : BraceHeader) : h.text ≠ [] := by
  obtain ⟨c, rest, htext, -⟩ := h.exists_text
  rw [htext]
  exact List.cons_ne_nil c rest

theorem opensBlock_text (h : BraceHeader) : opensBlock h.text = true := by
  rcases h.getLast?_text with hlast | hlast
  · simp [opensBlock, Text.endsIn, hlast]
  · rw [hlast]
    decide +kernel

theorem takesBrace_text (h : BraceHeader) : takesBrace h.text = true := by
  rcases h.getLast?_text with hlast | hlast
  · simp [takesBrace, Text.endsIn, hlast]
  · rw [hlast]
    decide +kernel

end BraceHeader

namespace Cutter

/-- A header with a plain clause is kept as a whole. -/
theorem scan_header {h : BraceHeader} (hplain : h.clause?.all Text.isPlain) (b : Text) :
    scan ⟨b, 0, 0, .outside⟩ h.text = ([], ⟨h.text.reverse ++ b, 0, 0, .outside⟩) := by
  have hwords : ∀ t : Text, t.all Text.isPlainChar → t.matchedFrom 0 → ';' ∉ t →
      scan ⟨b, 0, 0, .outside⟩ t = ([], ⟨t.reverse ++ b, 0, 0, .outside⟩) :=
    fun t hchars hmatched hsemi =>
      scan_of_matched b (List.all_eq_true.1 hchars) hmatched (Or.inr hsemi)
  cases hclause : h.clause? with
  | none =>
    rw [BraceHeader.eq_otherwise hclause]
    exact hwords _ (by decide +kernel) (by decide +kernel) (by decide +kernel)
  | some clause =>
    rw [hclause] at hplain
    obtain ⟨⟨hchars, -⟩, hmatched⟩ := Text.isPlain_iff.1 hplain
    have hfront : scan ⟨b, 0, 0, .outside⟩ (h.words ++ [' ']) =
        ([], ⟨(h.words ++ [' ']).reverse ++ b, 0, 0, .outside⟩) := by
      have hall : ∀ w ∈ BraceHeader.openings, (w ++ [' ']).all Text.isPlainChar ∧
          Text.matchedFrom 0 (w ++ [' ']) ∧ ';' ∉ w ++ [' '] := by decide +kernel
      obtain ⟨hplain, hmatched, hsemi⟩ := hall h.words h.words_mem
      exact hwords _ hplain hmatched hsemi
    -- Inside of the parentheses semicolons do not cut.
    have hinner : ∀ reversed : Text, scan ⟨reversed, 1, 0, .outside⟩ clause =
        ([], ⟨clause.reverse ++ reversed, 1, 0, .outside⟩) :=
      fun reversed => scan_of_matched reversed hchars hmatched (Or.inl Nat.one_ne_zero)
    have hopen : ∀ reversed : Text, scan ⟨reversed, 0, 0, .outside⟩ ['('] =
        ([], ⟨'(' :: reversed, 1, 0, .outside⟩) := fun _ => rfl
    have hclose : ∀ reversed : Text, scan ⟨reversed, 1, 0, .outside⟩ [')'] =
        ([], ⟨')' :: reversed, 0, 0, .outside⟩) := fun _ => rfl
    rw [BraceHeader.text_eq hclause, scan_append, hfront]
    dsimp only
    rw [scan_append, hopen]
    dsimp only
    rw [scan_append, hinner]
    dsimp only
    rw [hclose]
    simp

/-- Behind a header, white space with a line end completes it. -/
theorem scan_lineEnd {core : Text} (hcore : core.IsTrimmed) (hne : core ≠ []) {front : Text}
    (hfront : ∀ c ∈ front, isBlank c = true) : ∀ {gap : Text} (back : Text),
      (∀ c ∈ gap, isBlank c = true) → (∃ c ∈ gap, isLineEnd c = true) →
      (∀ c ∈ back, isBlank c = true) →
        let k : Cutter := ⟨(front ++ core ++ back).reverse, 0, 0, .outside⟩
        (k.scan gap).1 = [core] ∧ (k.scan gap).2.Fresh
  | [], _, _, ⟨_, h, _⟩, _ => nomatch h
  | c :: gap, back, hgap, hend, hback => by
    have hrest : ∀ a ∈ gap, isBlank a = true := fun a ha => hgap a (by simp [ha])
    have hc : isBlank c = true := hgap c (by simp)
    intro k
    cases hline : isLineEnd c with
    | true =>
      obtain ⟨hdone, hfresh⟩ := cuts_blanks hrest start fresh_start
      have hflushed : k.flushed = [core] :=
        flushed_eq front back (List.reverse_reverse _) hfront hback hcore hne
      rw [scan_cons_lineEnd k hline, hdone, hflushed]
      exact ⟨rfl, hfresh⟩
    | false =>
      have hpush : k.push c = ⟨(front ++ core ++ (back ++ [c])).reverse, 0, 0, .outside⟩ := by
        simp [k, push, Quotation.step, Text.not_isQuote_of_isBlank hc]
      rw [scan_cons k hline, step_blank k hc, hpush]
      refine scan_lineEnd hcore hne hfront (back ++ [c]) hrest ?_ ?_
      · obtain ⟨a, ha, haend⟩ := hend
        rcases List.mem_cons.1 ha with rfl | ha
        · rw [hline] at haend
          cases haend
        · exact ⟨a, ha, haend⟩
      · intro a ha
        rcases List.mem_append.1 ha with ha | ha
        · exact hback a ha
        · rw [List.mem_singleton.1 ha]
          exact hc

/-- A brace between two statements opens a block. -/
theorem cuts_brace : Cuts ['\x7b'] [['\x7b']] := by
  rintro - ⟨b, hb, rfl⟩
  have hblank : ∀ c ∈ b.reverse, isBlank c = true := fun c hc => hb c (List.mem_reverse.1 hc)
  have hflushed : (Cutter.mk ('\x7b' :: b) 0 0 .outside).flushed = [['\x7b']] := by
    have hbrace : isBlank '\x7b' = false := by decide +kernel
    refine flushed_eq b.reverse [] (by simp [current]) hblank (by simp) ⟨?_, ?_⟩ (by simp)
    · simpa using hbrace
    · simpa using hbrace
  have hstep : (Cutter.mk b 0 0 .outside).step '\x7b' = ([['\x7b']], ⟨[], 0, 0, .outside⟩) := by
    have hopens : opensBlock (Cutter.mk b 0 0 .outside).current.trim = true := by
      rw [current, Text.trim_of_blank hblank]
      rfl
    rw [step, hopens]
    exact congrArg (·, (⟨[], 0, 0, .outside⟩ : Cutter)) hflushed
  rw [scan_singleton _ (by decide), hstep]
  exact ⟨rfl, fresh_start⟩

/-- The statements that a header and its brace are cut into: one, or two on different lines. -/
theorem cuts_opening {h : BraceHeader} (hplain : h.clause?.all Text.isPlain) {opening : Text}
    (hopening : BraceTree.Opening opening) :
    Cuts (h.text ++ opening) [h.text ++ [' ', '\x7b']] ∨
      Cuts (h.text ++ opening) [h.text, ['\x7b']] := by
  cases hopening with
  | sameLine =>
    refine Or.inl ?_
    rintro - ⟨b, hb, rfl⟩
    have hblank : ∀ c ∈ b.reverse, isBlank c = true := fun c hc => hb c (List.mem_reverse.1 hc)
    have hspace : scan ⟨h.text.reverse ++ b, 0, 0, .outside⟩ [' '] =
        ([], ⟨' ' :: (h.text.reverse ++ b), 0, 0, .outside⟩) := rfl
    have hopens : opensBlock
        (Cutter.mk (' ' :: (h.text.reverse ++ b)) 0 0 .outside).current.trim = true := by
      have hspace : ∀ c ∈ [' '], isBlank c = true := List.all_eq_true.1 (by decide +kernel)
      have htrim : Text.trim (b.reverse ++ h.text ++ [' ']) = h.text :=
        Text.trim_eq hblank hspace h.isTrimmed_text
      rw [current, List.reverse_cons, List.reverse_append, List.reverse_reverse, htrim]
      exact h.opensBlock_text
    have hflushed : (Cutter.mk ('\x7b' :: ' ' :: (h.text.reverse ++ b)) 0 0 .outside).flushed =
        [h.text ++ [' ', '\x7b']] := by
      refine flushed_eq b.reverse [] (by simp [current]) hblank (by simp) ⟨?_, ?_⟩ (by simp)
      · obtain ⟨c, rest, htext, hc⟩ := h.exists_text
        intro a ha
        rw [htext] at ha
        cases ha
        exact hc
      · intro a ha
        have hlast : a = '\x7b' := by simpa using ha.symm
        rw [hlast]
        decide +kernel
    have hbrace : scan ⟨' ' :: (h.text.reverse ++ b), 0, 0, .outside⟩ ['\x7b'] =
        ([h.text ++ [' ', '\x7b']], ⟨[], 0, 0, .outside⟩) := by
      rw [scan_singleton _ (by decide), step, hopens]
      exact congrArg (·, (⟨[], 0, 0, .outside⟩ : Cutter)) hflushed
    rw [scan_append, scan_header hplain, ← List.singleton_append, scan_append, hspace, hbrace]
    exact ⟨rfl, fresh_start⟩
  | @laterLine gap hgap hend =>
    refine Or.inr ?_
    have hfirst : Cuts (h.text ++ gap) [h.text] := by
      rintro - ⟨b, hb, rfl⟩
      have hblank : ∀ c ∈ b.reverse, isBlank c = true := fun c hc => hb c (List.mem_reverse.1 hc)
      have hbreak := scan_lineEnd h.isTrimmed_text h.text_ne_nil hblank [] hgap hend (by simp)
      rw [List.append_nil, List.reverse_append, List.reverse_reverse] at hbreak
      rw [scan_append, scan_header hplain]
      exact hbreak
    rw [← List.append_assoc]
    exact hfirst.append cuts_brace

end Cutter

/-! ## Joining braces to headers -/

/-- The pieces are joined to the given lines, whatever comes behind them. -/
def Joins (pieces lines : List Text) : Prop :=
  ∀ more, joinBraces (pieces ++ more) = lines ++ joinBraces more

theorem Joins.append {ps qs ls ms : List Text} (h : Joins ps ls) (h' : Joins qs ms) :
    Joins (ps ++ qs) (ls ++ ms) := by
  intro more
  rw [List.append_assoc, h, h', List.append_assoc]

/-- A piece that takes no brace stays by itself. -/
theorem joins_singleton {t : Text} (h : takesBrace t = false) : Joins [t] [t] := by
  intro more
  cases more with
  | nil => rfl
  | cons next rest => simp [joinBraces, h]

theorem joins_header {t : Text} (h : takesBrace t = true) :
    Joins [t, ['\x7b']] [Structured.opened .braced t] := by
  intro more
  show joinBraces (t :: ['\x7b'] :: more) = _
  rw [joinBraces, if_pos ⟨rfl, h⟩]
  rfl

/-! ## Preparing a part of a snippet -/

/-- A part of a snippet is prepared to the given lines. -/
structure Prepares (t : Text) (lines : List Text) : Prop where
  cuts : ∃ pieces, Cutter.Cuts t pieces ∧ Joins pieces lines ∧ [';'] ∉ pieces
  commentless : t.IsCommentless
  last : ∀ c ∈ t.getLast?, c ≠ '/'

namespace Prepares

theorem append {t u : Text} {ls ms : List Text} (h : Prepares t ls) (h' : Prepares u ms) :
    Prepares (t ++ u) (ls ++ ms) where
  cuts := by
    obtain ⟨ps, hps, hls, hsemi⟩ := h.cuts
    obtain ⟨qs, hqs, hms, hsemi'⟩ := h'.cuts
    exact ⟨ps ++ qs, hps.append hqs, hls.append hms, by simp [hsemi, hsemi']⟩
  commentless :=
    h.commentless.append h'.commentless fun c hc _ _ hslash => h.last c hc hslash.1
  last c hc := by
    cases hu : u.getLast? with
    | none => exact h.last c (by simpa [List.getLast?_append, hu] using hc)
    | some a => exact h'.last c (by simpa [List.getLast?_append, hu] using hc)

theorem blanks {gap : Text} (h : ∀ c ∈ gap, isBlank c = true) : Prepares gap [] := by
  have hslash : ∀ c ∈ gap, c ≠ '/' := by
    rintro c hc rfl
    exact absurd (h _ hc) (by decide +kernel)
  refine ⟨⟨[], Cutter.cuts_blanks h, fun _ => rfl, by simp⟩, ?_, fun c hc => ?_⟩
  · refine List.Pairwise.isChain ?_
    exact List.pairwise_of_forall_mem_list fun a ha b _ hab => hslash a ha hab.1
  · exact hslash c (List.mem_of_getLast? hc)

theorem statement {t : Text} (h : t.isPlainStatement) : Prepares t [t] := by
  have hst := Text.plainStatement h
  have hlast : t.getLast? = some ';' := by rw [hst.eq, List.getLast?_concat]
  refine ⟨⟨[t], Cutter.cuts_statement h, joins_singleton ?_, ?_⟩, hst.commentless, ?_⟩
  · simp [takesBrace, Text.endsIn, hlast]
  · intro hmem
    have hbody : [] ++ [';'] = t.dropLast ++ [';'] := by
      rw [← hst.eq]
      exact List.mem_singleton.1 hmem
    exact hst.ne_nil (List.append_cancel_right hbody).symm
  · intro c hc
    rw [hlast] at hc
    cases hc
    decide

theorem closing : Prepares ['\x7d'] [['\x7d']] where
  cuts := ⟨_, Cutter.cuts_closing, joins_singleton (by decide), by decide⟩
  commentless := by decide
  last := by simp

theorem commentless_header {h : BraceHeader} (hplain : h.clause?.all Text.isPlain) :
    h.text.IsCommentless := by
  have hwords : ∀ w ∈ BraceHeader.openings, Text.IsCommentless (w ++ [' ', '(']) := by
    decide +kernel
  cases hclause : h.clause? with
  | none =>
    rw [BraceHeader.eq_otherwise hclause]
    decide +kernel
  | some clause =>
    rw [hclause] at hplain
    obtain ⟨⟨-, hcomments⟩, -⟩ := Text.isPlain_iff.1 hplain
    have hfront : Text.IsCommentless (h.words ++ [' ', '(']) := hwords h.words h.words_mem
    have htext : h.text = (h.words ++ [' ', '(']) ++ (clause ++ [')']) := by
      simp [BraceHeader.text, hclause]
    rw [htext]
    refine hfront.append (hcomments.append (List.isChain_singleton _) ?_) ?_
    · rintro c - d hd ⟨-, hslash⟩
      cases hd
      exact absurd hslash (by decide)
    · rintro c hc d - ⟨rfl, -⟩
      rw [show h.words ++ [' ', '('] = h.words ++ [' '] ++ ['('] by simp,
        List.getLast?_concat] at hc
      cases hc

theorem opening {h : BraceHeader} (hplain : h.clause?.all Text.isPlain) {opening : Text}
    (hopening : BraceTree.Opening opening) :
    Prepares (h.text ++ opening) [Structured.opened .braced h.text] := by
  have hlast : ∀ c ∈ h.text.getLast?, c ≠ '/' := by
    intro c hc
    rcases h.getLast?_text with htext | htext
    · rw [htext] at hc
      cases hc
      decide
    · rw [htext] at hc
      cases hc
      decide
  have hbrace : (∀ c ∈ opening.getLast?, c ≠ '/') ∧ opening.IsCommentless := by
    cases hopening with
    | sameLine => exact ⟨by simp, by decide⟩
    | laterLine hgap _ =>
      refine ⟨fun c hc => ?_, ?_⟩
      · rw [List.getLast?_concat] at hc
        cases hc
        decide
      · have hblank := Prepares.blanks hgap
        refine hblank.commentless.append (List.isChain_singleton _) ?_
        exact fun c hc _ _ hslash => hblank.last c hc hslash.1
  have hne : opening ≠ [] := by
    cases hopening <;> simp
  refine ⟨?_, ?_, fun c hc => ?_⟩
  · rcases Cutter.cuts_opening hplain hopening with hcuts | hcuts
    · refine ⟨_, hcuts, joins_singleton ?_, ?_⟩
      · simp [takesBrace, Text.endsIn, List.getLast?_append]
      · intro hmem
        have hlength := congrArg List.length (List.mem_singleton.1 hmem)
        simp at hlength
    · refine ⟨_, hcuts, joins_header h.takesBrace_text, ?_⟩
      intro hmem
      rcases List.mem_cons.1 hmem with htext | hbrace
      · have htrimmed := h.getLast?_text
        rw [← htext] at htrimmed
        exact absurd htrimmed (by decide)
      · exact absurd hbrace (by decide)
  · exact (commentless_header hplain).append hbrace.2 fun c hc _ _ hslash => hlast c hc hslash.1
  · rw [List.getLast?_append_of_ne_nil _ hne] at hc
    exact hbrace.1 c hc

end Prepares

namespace BraceTree

/-- Every layout of a plain tree is prepared to the lines of the tree. -/
theorem Laid.prepares {tree : BraceTree} {t : Text} (h : tree.Laid t) (hplain : tree.isPlain) :
    Prepares t tree.lines := by
  induction h with
  | done hgap => exact .blanks hgap
  | statement hgap _ ih =>
    obtain ⟨htext, hrest⟩ := Bool.and_eq_true_iff.1 hplain
    exact ((Prepares.blanks hgap).append (.statement htext)).append (ih hrest)
  | @block gap opening inner rest header body tree hgap hopening _ _ ihbody ihrest =>
    obtain ⟨hboth, hrest⟩ := Bool.and_eq_true_iff.1 hplain
    obtain ⟨hheader, hbody⟩ := Bool.and_eq_true_iff.1 hboth
    have hfront := (Prepares.blanks hgap).append (Prepares.opening hheader hopening)
    have hall := ((hfront.append (ihbody hbody)).append .closing).append (ihrest hrest)
    simpa [lines] using hall

/-! ## Blocks -/

theorem isBraceless_of_plain {t : Text} (h : ∀ c ∈ t, Text.isPlainChar c = true) :
    t.isBraceless := by
  unfold Text.isBraceless
  rw [List.all_eq_true]
  intro c hc
  have hplain := h c (Text.mem_of_mem_codeFrom hc)
  simp only [Text.isPlainChar, Bool.and_eq_true] at hplain
  exact Bool.and_eq_true_iff.2 ⟨hplain.1.1.2, hplain.1.2⟩

theorem closesQuotes_of_plain {t : Text} (h : ∀ c ∈ t, Text.isPlainChar c = true) :
    t.closesQuotes := by
  rw [Text.closesQuotes_iff]
  induction t with
  | nil => rfl
  | cons c t ih =>
    have hc : isQuote c = false := by
      have hplain := h c (by simp)
      simp only [Text.isPlainChar, Bool.and_eq_true, Bool.not_eq_true'] at hplain
      exact hplain.1.1.1
    rw [List.foldl_cons, Quotation.step, if_neg (by simp [hc])]
    exact ih fun a ha => h a (by simp [ha])

theorem plain_header {h : BraceHeader} (hplain : h.clause?.all Text.isPlain) :
    ∀ c ∈ h.text, Text.isPlainChar c = true := by
  have hwords : ∀ w ∈ BraceHeader.openings, (w ++ [' ', '(', ')']).all Text.isPlainChar := by
    decide +kernel
  have hall := List.all_eq_true.1 (hwords h.words h.words_mem)
  intro c hc
  cases hclause : h.clause? with
  | none =>
    rw [BraceHeader.text_of_none hclause] at hc
    exact hall c (by simp [hc])
  | some clause =>
    rw [hclause] at hplain
    rw [BraceHeader.text_eq hclause] at hc
    simp only [List.mem_append, List.mem_singleton] at hc
    rcases hc with (hc | hc) | hc | hc | hc
    · exact hall c (by simp [hc])
    · exact hall c (by simp [hc])
    · exact hall c (by simp [hc])
    · exact (Text.isPlain_iff.1 hplain).1.1 c hc
    · exact hall c (by simp [hc])

/-- A header with its brace opens one block and closes none. -/
theorem line_opened {h : BraceHeader} (hplain : h.clause?.all Text.isPlain) (s : BraceScan)
    (index : Nat) : s.line index (Structured.opened .braced h.text) =
      ⟨index :: s.stack, s.closed⟩ := by
  have hchars := plain_header hplain
  have hsame : s.line index h.text = s := s.line_of_isBraceless index (isBraceless_of_plain hchars)
  rw [BraceScan.line, Structured.opened, Text.code_append (closesQuotes_of_plain hchars),
    List.foldl_append]
  exact congrArg (List.foldl (BraceScan.step index) · ['\x7b']) hsame

/-- The scan over the lines of a plain tree finds its blocks and leaves the stack as it was. -/
theorem scan_lines : ∀ (tree : BraceTree), tree.isPlain → ∀ (s : BraceScan) (index : Nat),
    s.lines index tree.lines = ⟨s.stack, tree.blocks index ++ s.closed⟩
  | done, _, _, _ => rfl
  | statement text rest, hplain, s, index => by
    obtain ⟨htext, hrest⟩ := Bool.and_eq_true_iff.1 hplain
    have hline : s.line index text = s :=
      s.line_of_isBraceless index (isBraceless_of_plain (Text.plainStatement htext).plain)
    rw [lines, BraceScan.lines, hline, rest.scan_lines hrest]
    rfl
  | block header body rest, hplain, s, index => by
    obtain ⟨hboth, hrest⟩ := Bool.and_eq_true_iff.1 hplain
    obtain ⟨hheader, hbody⟩ := Bool.and_eq_true_iff.1 hboth
    rw [lines, BraceScan.lines, line_opened hheader, BraceScan.lines_append,
      body.scan_lines hbody, BraceScan.lines, BraceScan.line_closing _ _ rfl,
      rest.scan_lines hrest, blocks]
    simp

theorem ofLines_lines {tree : BraceTree} (hplain : tree.isPlain) :
    BraceMap.ofLines tree.lines = tree.blocks 0 := by
  rw [BraceMap.ofLines, tree.scan_lines hplain]
  exact List.append_nil _

end BraceTree

/-! ## All layouts alike -/

theorem Prepares.bracedLines_eq {source : Text} {lines : List Text} (h : Prepares source lines)
    {d : Dialect} (hd : d.comments = [['/', '/']]) : bracedLines d source = lines := by
  obtain ⟨pieces, hcuts, hjoins, hsemi⟩ := h.cuts
  obtain ⟨hpieces, hfresh⟩ := hcuts .start Cutter.fresh_start
  have hall : Cutter.start.cutAll source = pieces := by
    rw [Cutter.cutAll, hpieces, hfresh.flushed, List.append_nil]
  have hlines := hjoins []
  rw [List.append_nil, joinBraces, List.append_nil] at hlines
  rw [bracedLines_eq_joinBraces hd h.commentless (by rwa [hall]), hall, hlines]

/-- The comments of the braced dialects. -/
theorem Dialect.comments_of_braced (id : Text) (h : (ofId id).layout = .braced) :
    (ofId id).comments = [['/', '/']] := by
  revert h
  unfold ofId
  cases Language.ofId? id with
  | none => decide
  | some language => cases language <;> decide

/-- The trace of a snippet in a braced dialect depends on its lines only. -/
theorem Dialect.trace_congr {d : Dialect} (hd : d.layout = .braced) {source other : Text}
    (h : bracedLines d source = bracedLines d other) (limits : Limits) :
    d.trace limits source = d.trace limits other := by
  have hread : Program.read d source = Program.read d other := by
    simp only [Program.read, hd, h]
  rw [trace, trace, hread]

namespace BraceTree

/-- In every braced dialect all layouts of a plain tree are prepared to the same lines, one for each
statement, header and closing brace, with the blocks of the tree, and have the same trace. -/
theorem bracedLines_of_laid (id : Text) (hid : (Dialect.ofId id).layout = .braced)
    {tree : BraceTree} (hplain : tree.isPlain) {source : Text} (hlaid : tree.Laid source) :
    bracedLines (.ofId id) source = tree.lines ∧
      BraceMap.ofLines (bracedLines (.ofId id) source) = tree.blocks 0 ∧
      ∀ other, tree.Laid other → ∀ limits,
        (Dialect.ofId id).trace limits source = (Dialect.ofId id).trace limits other := by
  have hcomments := Dialect.comments_of_braced id hid
  have hlines := (hlaid.prepares hplain).bracedLines_eq hcomments
  refine ⟨hlines, by rw [hlines, ofLines_lines hplain], fun other hother limits => ?_⟩
  have hlines' := (hother.prepares hplain).bracedLines_eq hcomments
  exact Dialect.trace_congr hid (hlines.trans hlines'.symm) limits

/-- A loop around a conditional with two clauses, and a statement behind it. -/
def nested : BraceTree :=
  .block (.counting "i = 0".toList "i < 3".toList "i++".toList)
    (.block (.ifHolds "i > (1)".toList) (.statement "x = a[i];".toList .done)
      (.block .otherwise (.statement "x = f(i, 2) ;".toList .done) .done))
    (.statement "y = 1;".toList .done)

/-- All on one line, without a blank that could be left out. -/
def nestedNarrow : Text :=
  ("for (i = 0; i < 3; i++) \x7bif (i > (1)) \x7bx = a[i];\x7d" ++
    "else \x7bx = f(i, 2) ;\x7d\x7dy = 1;").toList

/-- The braces of the first and the last block on lines of their own. -/
def nestedWide : Text :=
  ("for (i = 0; i < 3; i++)\r\n\x7b\r\n\tif (i > (1)) \x7b x = a[i]; \x7d else\n\n" ++
    "  \x7bx = f(i, 2) ;\n\x7d  \x7d\ny = 1;\n").toList

/-- Both layouts are prepared to the nine lines of the tree, with its three blocks. -/
theorem bracedLines_of_laid_nested :
    nested.Laid nestedNarrow ∧ nested.Laid nestedWide ∧ nested.isPlain ∧
      nested.lines.length = 9 ∧ nested.blocks 0 = [(0, 7), (4, 6), (1, 3)] ∧
      bracedLines (.ofId "java".toList) nestedNarrow = nested.lines ∧
      BraceMap.ofLines (bracedLines (.ofId "java".toList) nestedWide) = nested.blocks 0 ∧
      (Dialect.ofId "java".toList).trace .usual nestedNarrow =
        (Dialect.ofId "java".toList).trace .usual nestedWide := by
  have hall : ∀ gap ∈ [[], [' '], ['\n'], "  ".toList, "\r\n\t".toList, "\r\n".toList,
      "\n\n  ".toList], gap.all isBlank = true := by decide +kernel
  have hblank := fun gap hgap => List.all_eq_true.1 (hall gap hgap)
  have hnarrow : nested.Laid nestedNarrow :=
    .block (hblank [] (by decide)) .sameLine
      (.block (hblank [] (by decide)) .sameLine
        (.statement (hblank [] (by decide)) (.done (hblank [] (by decide))))
        (.block (hblank [] (by decide)) .sameLine
          (.statement (hblank [] (by decide)) (.done (hblank [] (by decide))))
          (.done (hblank [] (by decide)))))
      (.statement (hblank [] (by decide)) (.done (hblank [] (by decide))))
  have hwide : nested.Laid nestedWide :=
    .block (hblank [] (by decide))
      (.laterLine (hblank "\r\n".toList (by decide)) ⟨'\n', by decide, by decide⟩)
      (.block (hblank "\r\n\t".toList (by decide)) .sameLine
        (.statement (hblank [' '] (by decide)) (.done (hblank [' '] (by decide))))
        (.block (hblank [' '] (by decide))
          (.laterLine (hblank "\n\n  ".toList (by decide)) ⟨'\n', by decide, by decide⟩)
          (.statement (hblank [] (by decide)) (.done (hblank ['\n'] (by decide))))
          (.done (hblank "  ".toList (by decide)))))
      (.statement (hblank ['\n'] (by decide)) (.done (hblank ['\n'] (by decide))))
  have hplain : nested.isPlain := by decide +kernel
  obtain ⟨hlines, -, htrace⟩ := bracedLines_of_laid "java".toList (by decide +kernel) hplain hnarrow
  obtain ⟨-, hblocks, -⟩ := bracedLines_of_laid "java".toList (by decide +kernel) hplain hwide
  exact ⟨hnarrow, hwide, hplain, rfl, rfl, hlines, hblocks, htrace nestedWide hwide .usual⟩

/-- A square bracket that is not closed in a header keeps its brace from opening a block, unless the
line ends there. What follows a comment marker in a header is lost with its brace. A statement with
a line end in it becomes two. -/
theorem bracedLines_of_rough_texts :
    let body := BraceTree.statement "x = 1;".toList .done
    let bracket := "if (a[ > 1) \x7b x = 1; \x7d".toList
    let marker := "if (a // b) \x7b\nx = 1;\n\x7d".toList
    let twoLines := "x =\n1;".toList
    ((BraceTree.block (.ifHolds "a[ > 1".toList) body .done).Laid bracket ∧
      bracedLines .c bracket = [bracket]) ∧
    ((BraceTree.block (.ifHolds "a // b".toList) body .done).Laid marker ∧
      bracedLines .c marker = ["if (a".toList, "x = 1;".toList, ['\x7d']]) ∧
    (BraceTree.statement twoLines .done).Laid twoLines ∧
      bracedLines .c twoLines = ["x =".toList, "1;".toList] := by
  intro body bracket marker twoLines
  have hall : ∀ gap ∈ [[], [' '], ['\n']], gap.all isBlank = true := by decide +kernel
  have hblank := fun gap hgap => List.all_eq_true.1 (hall gap hgap)
  have hnone := hblank [] (by decide)
  have hspace := hblank [' '] (by decide)
  have hbreak := hblank ['\n'] (by decide)
  refine ⟨⟨.block hnone .sameLine (.statement hspace (.done hspace)) (.done hnone), ?_⟩,
    ⟨.block hnone .sameLine (.statement hbreak (.done hbreak)) (.done hnone), ?_⟩,
    .statement hnone (.done hnone), ?_⟩
  · decide +kernel
  · decide +kernel
  · decide +kernel

end BraceTree

end StepTrace
