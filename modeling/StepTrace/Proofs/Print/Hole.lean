import Mathlib.Data.List.Basic
import StepTrace.Proofs.Number.Display
import StepTrace.Proofs.Print.Faults
import StepTrace.Proofs.Print.Literal

/-!
# Templates with holes for arguments

A template is a row of literal texts with a hole between each two of them (`Template`). What a hole
shows depends on its key and on the number of holes without a key before it (`Field.replacement`):
a hole without a key shows the argument with that number, a number shows the argument it counts, and
anything else is an expression. A hole for an argument that is not there stays as it is written.

The pieces of the written template are its literal characters and its holes
(`Template.pieces_text`), and holes are filled one after the other with a count of the arguments
taken in order. This count is the number of holes without a key, as long as there are arguments
(`Field.fillHole_eq`). So filling a template is one pass over its fields, and nothing that is shown
is read again (`composed_template`).
-/

namespace StepTrace.Print

open CharClass

/-! ## Templates -/

/-- A hole with what stands between its braces, and the literal text behind it. -/
structure Field where
  content : Text
  literal : Text
deriving DecidableEq, Repr

/-- A literal text, and holes with a literal text behind each. -/
structure Template where
  opening : Text
  fields : List Field
deriving DecidableEq, Repr

/-- A character that is no brace and no quote, and no digit beyond the ten basic ones. -/
def isPlainChar (c : Char) : Bool :=
  c != '\x7b' && c != '\x7d' && !isQuote c && (!isDigit c || c.isDigit)

namespace Field

/-- A hole as it is written. -/
def hole (f : Field) : Text := '\x7b' :: (f.content ++ ['\x7d'])

/-- The key of a hole: what stands before its first colon. -/
def key (f : Field) : Text := holeKey f.content

/-- The text of an argument, or the hole itself if it is not there. -/
def argument (s : Store) (f : Field) : Option Text → Except Fault Text
  | some arg => value s arg
  | none => .ok f.hole

/-- The text for a hole with `rank` holes without a key before it. -/
def replacement (s : Store) (args : List Text) (rank : Nat) (f : Field) : Except Fault Text :=
  if f.key = [] then f.argument s args[rank]?
  else if f.key.all Char.isDigit then
    if f.key.length ≤ 6 then f.argument s args[Nat.ofDigitChars 10 f.key 0]? else .ok f.hole
  else value s f.key

end Field

/-- The number of holes without a key. -/
def unkeyed (fields : List Field) : Nat := fields.countP fun f => f.key.isEmpty

/-- The text for the hole with an index among others, and the literal text behind it. -/
def fieldText (s : Store) (args : List Text) (fields : List Field) (f : Field × Nat) :
    Except Fault Text :=
  (f.1.replacement s args (unkeyed (fields.take f.2))).map (· ++ f.1.literal)

namespace Template

/-- A template as it is written. -/
def text (t : Template) : Text := t.opening ++ t.fields.flatMap fun f => f.hole ++ f.literal

/-- The literal texts and what stands between braces are plain. -/
def isPlain (t : Template) : Bool :=
  t.opening.all isPlainChar &&
    t.fields.all fun f => f.content.all isPlainChar && f.literal.all isPlainChar

/-- A template with a text in each of its holes. -/
def filled (s : Store) (args : List Text) (t : Template) : Except Fault Text := do
  let texts ← t.fields.zipIdx.mapM (fieldText s args t.fields)
  return t.opening ++ texts.flatten

end Template

/-! ## Pieces -/

theorem not_brace_of_isPlainChar {c : Char} (h : isPlainChar c = true) :
    c ≠ '\x7b' ∧ c ≠ '\x7d' := by
  simp only [isPlainChar, Bool.and_eq_true, bne_iff_ne] at h
  exact ⟨h.1.1.1, h.1.1.2⟩

theorem piecesFrom_drop (form : HoleForm) : ∀ (t : Text) (skip : Nat),
    piecesFrom form skip t = pieces form (t.drop skip)
  | [], skip => by rw [List.drop_nil, pieces, piecesFrom, piecesFrom]
  | c :: t, 0 => rfl
  | c :: t, skip + 1 => by rw [piecesFrom, piecesFrom_drop form t skip, List.drop_succ_cons]

theorem pieces_cons {c : Char} (h : c ≠ '\x7b') (t : Text) :
    pieces .plain (c :: t) = .char c :: pieces .plain t := by
  have hnone : holeAt? .plain (c :: t) = none := by
    unfold holeAt?
    split
    · rename_i htext
      exact absurd (List.cons.inj htext).1 h
    · rename_i hform _
      cases hform
    · rfl
  rw [pieces, piecesFrom, hnone]
  rfl

theorem pieces_literal {literal : Text} (h : literal.all isPlainChar) (t : Text) :
    pieces .plain (literal ++ t) = literal.map .char ++ pieces .plain t := by
  induction literal with
  | nil => rfl
  | cons c literal ih =>
    rw [List.all_cons, Bool.and_eq_true] at h
    rw [List.cons_append, pieces_cons (not_brace_of_isPlainChar h.1).1, ih h.2]
    rfl

theorem pieces_hole {f : Field} (h : f.content.all isPlainChar) (t : Text) :
    pieces .plain (f.hole ++ t) = .hole f.content f.hole :: pieces .plain t := by
  have hbrace : ∀ c ∈ f.content, (c != '\x7b' && c != '\x7d') = true := by
    intro c hc
    obtain ⟨hopen, hclose⟩ := not_brace_of_isPlainChar (List.all_eq_true.1 h c hc)
    simp [hopen, hclose]
  have hfound : holeAt? .plain ('\x7b' :: (f.content ++ '\x7d' :: t)) = some f.content := by
    simp [holeAt?, List.dropWhile_append_of_pos hbrace, List.takeWhile_append_of_pos hbrace]
  have htext : f.hole ++ t = '\x7b' :: (f.content ++ '\x7d' :: t) := by simp [Field.hole]
  have hbehind : f.content ++ '\x7d' :: t = (f.content ++ ['\x7d']) ++ t := by simp
  have hsize : f.content.length + 2 = f.hole.length := by simp [Field.hole]
  rw [htext, pieces, piecesFrom, hfound]
  show Piece.hole f.content (('\x7b' :: (f.content ++ '\x7d' :: t)).take (f.content.length + 2)) ::
    piecesFrom .plain (f.content.length + 1) (f.content ++ '\x7d' :: t) = _
  rw [← htext, hsize, List.take_left, piecesFrom_drop, hbehind,
    show f.content.length + 1 = (f.content ++ ['\x7d']).length by simp, List.drop_left]

/-- A plain template is cut into its literal characters and its holes. -/
theorem pieces_fields : ∀ {fields : List Field},
    (fields.all fun f => f.content.all isPlainChar && f.literal.all isPlainChar) →
    pieces .plain (fields.flatMap fun f => f.hole ++ f.literal) =
      fields.flatMap fun f => .hole f.content f.hole :: f.literal.map .char
  | [], _ => rfl
  | f :: fields, h => by
    rw [List.all_cons, Bool.and_eq_true, Bool.and_eq_true] at h
    rw [List.flatMap_cons, List.append_assoc, pieces_hole h.1.1, pieces_literal h.1.2,
      pieces_fields h.2]
    rfl

theorem Template.pieces_text {t : Template} (h : t.isPlain) : pieces .plain t.text =
    t.opening.map .char ++
      t.fields.flatMap fun f => .hole f.content f.hole :: f.literal.map .char := by
  rw [isPlain, Bool.and_eq_true] at h
  rw [text, pieces_literal h.1, pieces_fields h.2]

/-! ## One hole -/

/-- A key of a plain template is a number exactly if it is made of the basic digits. -/
theorem all_isDigit_iff {key : Text} (h : key.all isPlainChar) :
    key.all isDigit = key.all Char.isDigit := by
  rw [Bool.eq_iff_iff, List.all_eq_true, List.all_eq_true]
  refine forall_congr' fun c => forall_congr' fun hc => ?_
  have hplain := List.all_eq_true.1 h c hc
  simp only [isPlainChar, Bool.and_eq_true, Bool.or_eq_true, Bool.not_eq_true'] at hplain
  refine ⟨fun hdigit => ?_, fun hdigit => ?_⟩
  · rcases hplain.2 with hnot | hdigit'
    · rw [hdigit] at hnot
      cases hnot
    · exact hdigit'
  · rw [isDigit, Bool.or_eq_true]
    exact Or.inl (isDecimal_of_isDigit hdigit)

/-- What a hole of a plain template asks for. -/
theorem Request.ofKey_plain {key : Text} (h : key.all isPlainChar) : Request.ofKey key = .ok
    (if key = [] then .next
    else if key.all Char.isDigit then
      if key.length ≤ 6 then .argument (Nat.ofDigitChars 10 key 0) else .missing
    else .expression key) := by
  rw [ofKey, all_isDigit_iff h]
  by_cases hempty : key = []
  · rw [if_pos (by simpa using hempty), if_pos hempty]
  · rw [if_neg (by simpa using hempty), if_neg hempty]
    by_cases hnumber : key.all Char.isDigit
    · have hdigits : ∀ c ∈ key, c.isDigit = true := List.all_eq_true.1 hnumber
      have hdecimal : key.all isDecimal := List.all_eq_true.2 fun c hc =>
        isDecimal_of_isDigit (hdigits c hc)
      rw [if_pos hnumber, if_pos hnumber, if_pos hdecimal, Literal.value_of_isDigit hdigits]
      by_cases hshort : key.length ≤ 6
      · rw [if_pos hshort, if_neg (show ¬longestIndex < key.length from Nat.not_lt.2 hshort)]
      · rw [if_neg hshort, if_pos (show longestIndex < key.length from Nat.not_le.1 hshort)]
    · rw [if_neg hnumber, if_neg hnumber]

theorem mem_of_mem_holeKey {c : Char} {content : Text} (h : c ∈ holeKey content) : c ∈ content :=
  (List.takeWhile_prefix _).subset ((Text.trim_isInfix _).subset h)

namespace Field

variable {s : Store} {f : Field}

/-- Filling a hole shows its replacement. The count of the arguments taken in order is the number of
holes without a key, as long as there are arguments. -/
theorem fillHole_eq (h : f.content.all isPlainChar) (args : List Text) (rank : Nat) :
    fillHole s args (min rank args.length) f.content f.hole =
      (f.replacement s args rank).map fun text =>
        (text, min (rank + unkeyed [f]) args.length) := by
  have hkey : f.key.all isPlainChar := List.all_eq_true.2 fun c hc =>
    List.all_eq_true.1 h c (mem_of_mem_holeKey hc)
  rw [fillHole, replacement, show holeKey f.content = f.key from rfl, Request.ofKey_plain hkey]
  by_cases hempty : f.key = []
  · have hcount : unkeyed [f] = 1 := by simp [unkeyed, hempty]
    rw [if_pos hempty, if_pos hempty, hcount]
    show (match args[min rank args.length]? with
      | some arg => do return (← value s arg, min rank args.length + 1)
      | none => return (f.hole, min rank args.length)) = _
    rcases Nat.lt_or_ge rank args.length with hlt | hge
    · rw [Nat.min_eq_left hlt.le, Nat.min_eq_left (Nat.succ_le_of_lt hlt),
        List.getElem?_eq_getElem hlt]
      rfl
    · rw [Nat.min_eq_right hge, Nat.min_eq_right (Nat.le_succ_of_le hge),
        List.getElem?_eq_none hge, List.getElem?_eq_none (Nat.le_refl _)]
      rfl
  · have hcount : unkeyed [f] = 0 := by simp [unkeyed, hempty]
    rw [if_neg hempty, if_neg hempty, hcount, Nat.add_zero]
    split_ifs
    · show (match args[Nat.ofDigitChars 10 f.key 0]? with
        | some arg => do return (← value s arg, min rank args.length)
        | none => return (f.hole, min rank args.length)) = _
      cases args[Nat.ofDigitChars 10 f.key 0]? <;> rfl
    · rfl
    · rfl

theorem replacement_yields {bound : Nat} {allowed : Fault → Prop} (hs : s.Within bound)
    (hbound : bound ≤ Double.largestInt) (args : List Text) (rank : Nat) :
    Yields allowed (fun _ => True) (f.replacement s args rank) := by
  have hargument : ∀ arg : Option Text, Yields allowed (fun _ => True) (f.argument s arg)
    | some arg => value_yields hs hbound arg
    | none => trivial
  rw [replacement]
  split_ifs
  · exact hargument _
  · exact hargument _
  · exact trivial
  · exact value_yields hs hbound _

end Field

/-! ## All holes -/

variable {s : Store} {args : List Text}

theorem fillHoles_literal (taken : Nat) (literal : Text) (pieces : List Piece) :
    fillHoles s args taken (literal.map .char ++ pieces) =
      (fillHoles s args taken pieces).map (literal ++ ·) := by
  induction literal with
  | nil =>
    show fillHoles s args taken pieces = _
    cases fillHoles s args taken pieces <;> rfl
  | cons c literal ih =>
    rw [List.map_cons, List.cons_append, fillHoles, ih]
    cases fillHoles s args taken pieces <;> rfl

theorem unkeyed_append (fields : List Field) (f : Field) :
    unkeyed (fields ++ [f]) = unkeyed fields + unkeyed [f] := List.countP_append ..

/-- The holes of the fields behind some others show their replacements. -/
theorem fillHoles_fields : ∀ fields before : List Field,
    (fields.all fun f => f.content.all isPlainChar && f.literal.all isPlainChar) →
    fillHoles s args (min (unkeyed before) args.length)
        (fields.flatMap fun f => .hole f.content f.hole :: f.literal.map .char) =
      ((fields.zipIdx before.length).mapM (fieldText s args (before ++ fields))).map List.flatten
  | [], before, _ => rfl
  | f :: fields, before, h => by
    rw [List.all_cons, Bool.and_eq_true, Bool.and_eq_true] at h
    have hrest := fillHoles_fields fields (before ++ [f]) h.2
    rw [unkeyed_append, List.length_append, List.append_assoc] at hrest
    rw [List.flatMap_cons, List.cons_append, fillHoles, Field.fillHole_eq h.1.1, List.zipIdx_cons,
      List.mapM_cons, fieldText, List.take_left]
    cases f.replacement s args (unkeyed before) with
    | error fault => rfl
    | ok text =>
      show (fillHoles s args (min (unkeyed before + unkeyed [f]) args.length) _ >>= fun rest =>
        pure (text ++ rest)) = _
      rw [fillHoles_literal, hrest]
      show (Except.map _ (Except.map _ (List.mapM (fieldText s args (before ++ f :: fields))
        (fields.zipIdx (before.length + 1)))) >>= _) = _
      cases List.mapM (fieldText s args (before ++ f :: fields))
        (fields.zipIdx (before.length + 1)) with
      | error fault => rfl
      | ok texts => exact congrArg Except.ok (List.append_assoc ..).symm

/-- Filling the holes of a plain template is one pass over its fields. -/
theorem Template.fillHoles_text {t : Template} (h : t.isPlain) :
    fillHoles s args 0 (pieces .plain t.text) = t.filled s args := by
  have hcount : min (unkeyed []) args.length = 0 := Nat.zero_min _
  rw [pieces_text h, fillHoles_literal, ← hcount,
    fillHoles_fields t.fields [] (Bool.and_eq_true_iff.1 h).2, filled]
  show (Except.map List.flatten (List.mapM (fieldText s args t.fields) t.fields.zipIdx)).map _ = _
  cases List.mapM (fieldText s args t.fields) t.fields.zipIdx <;> rfl

/-- White space around the arguments does not matter. -/
theorem Template.filled_trim (t : Template) :
    t.filled s (args.map Text.trim) = t.filled s args := by
  have hargument : ∀ (f : Field) (index : Nat),
      f.argument s (args.map Text.trim)[index]? = f.argument s args[index]? := by
    intro f index
    rw [List.getElem?_map]
    cases args[index]? with
    | none => rfl
    | some arg => exact value_trim s arg
  have hfield : fieldText s (args.map Text.trim) t.fields = fieldText s args t.fields := by
    funext f
    simp only [fieldText, Field.replacement, hargument]
  rw [filled, filled, hfield]

theorem Template.filled_yields {bound : Nat} {allowed : Fault → Prop} (hs : s.Within bound)
    (hbound : bound ≤ Double.largestInt) (t : Template) :
    Yields allowed (fun _ => True) (t.filled s args) := by
  refine (Yields.mapM (Q := fun _ => True) fun f _ => ?_).bind fun _ _ => trivial
  exact Yields.map_iff.2 (f.1.replacement_yields hs hbound args _)

theorem Template.not_isQuote_of_mem_text {t : Template} (h : t.isPlain) {c : Char}
    (hc : c ∈ t.text) : isQuote c = false := by
  have hplain : ∀ {u : Text}, u.all isPlainChar → c ∈ u → isQuote c = false := by
    intro u hu hmem
    have hchar := List.all_eq_true.1 hu c hmem
    simp only [isPlainChar, Bool.and_eq_true, Bool.not_eq_true'] at hchar
    exact hchar.1.2
  rw [isPlain, Bool.and_eq_true] at h
  rcases List.mem_append.1 hc with hc | hc
  · exact hplain h.1 hc
  · obtain ⟨f, hf, hc⟩ := List.mem_flatMap.1 hc
    have hfield := Bool.and_eq_true_iff.1 (List.all_eq_true.1 h.2 f hf)
    rcases List.mem_append.1 hc with hc | hc
    · simp only [Field.hole, List.mem_cons, List.mem_append, List.not_mem_nil, or_false] at hc
      rcases hc with rfl | hc | rfl
      · decide
      · exact hplain hfield.1 hc
      · decide
    · exact hplain hfield.2 hc

/-- A plain template between quotes with arguments behind it is shown in one pass: a text for each
hole between the literal texts, without marks for line feeds and trimmed. If the variables are
within the bound, there is such a text. -/
theorem composed_template {q : Char} (hq : isQuote q = true) {t : Template} (ht : t.isPlain)
    {first : Text} (hfirst : first.trim = q :: (t.text ++ [q]))
    (hargs : ∀ arg ∈ args, Text.IsPiece [','] arg.trim) :
    composed s (Text.joined [','] (first :: args)) = (t.filled s args).map withoutFeeds ∧
      ∀ bound, s.Within bound → bound ≤ Double.largestInt → ∃ text, t.filled s args = .ok text := by
  have hquote : q ∉ t.text := fun hmem => by
    rw [Template.not_isQuote_of_mem_text ht hmem] at hq
    cases hq
  refine ⟨?_, fun bound hs hbound => (t.filled_yields hs hbound).exists_ok⟩
  have hpieces : ∀ p ∈ first :: args, Text.IsPiece [','] p.trim := by
    refine List.forall_mem_cons.2 ⟨?_, hargs⟩
    rw [hfirst]
    exact Text.isPiece_literal (by decide) hq hquote
  have hsplit : Text.arguments (Text.joined [','] (first :: args)) =
      first.trim :: args.map Text.trim :=
    Text.splitParts_joined_char (by decide) (List.cons_ne_nil _ _) hpieces
  have hunquote : first.trim.unquote? = some t.text :=
    (Text.unquote?_trim first).trans (Text.unquote?_literal hq hfirst hquote)
  simp only [composed, hsplit, hunquote]
  rw [Template.fillHoles_text ht, Template.filled_trim]
  cases t.filled s args <;> rfl

/-- Holes of all kinds: in order, by number, with an expression, and for arguments that are not
there. -/
def mixedTemplate : Template where
  opening := "a ".toList
  fields := [⟨[], " ".toList⟩, ⟨"1:>5".toList, " ".toList⟩, ⟨" x ".toList, "\\n".toList⟩,
    ⟨":?".toList, " ".toList⟩, ⟨"9".toList, " ".toList⟩, ⟨"0000001".toList, " ".toList⟩, ⟨[], []⟩]

/-- An argument with a hole in it is not read again. -/
theorem composed_template_mixed :
    let store := Store.empty.insert "x".toList (.num (.int 5))
    let args : List Text := [" \"\x7b0\x7d\"".toList, " [1, 2] ".toList]
    let first : Text := '"' :: (mixedTemplate.text ++ ['"'])
    mixedTemplate.isPlain ∧ (∀ arg ∈ args, Text.IsPiece [','] arg.trim) ∧
      mixedTemplate.text = ("a \x7b\x7d \x7b1:>5\x7d \x7b x \x7d\\n" ++
        "\x7b:?\x7d \x7b9\x7d \x7b0000001\x7d \x7b\x7d").toList ∧
      composed store (Text.joined [','] (first :: args)) =
        .ok "a \x7b0\x7d [1, 2] 5[1, 2] \x7b9\x7d \x7b0000001\x7d \x7b\x7d".toList := by
  intro store args first
  have hplain : mixedTemplate.isPlain := by decide
  have hargs : ∀ arg ∈ args, Text.IsPiece [','] arg.trim := by decide
  refine ⟨hplain, hargs, by decide, ?_⟩
  rw [(composed_template (q := '"') (by decide) hplain (by decide) hargs).1]
  decide +kernel

end StepTrace.Print
