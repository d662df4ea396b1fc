import StepTrace.Proofs.Pattern.Leads
import StepTrace.Proofs.Source.Cutting
import StepTrace.Proofs.Structured.Header
import StepTrace.Proofs.Text.Parentheses

/-!
# Headers of loops with a condition

A loop with clauses has a start, a condition and an update in its header, and a loop with a
condition has only that (`forHeader`, `whileHeader`). In the dialects that have both, the first is
read as a loop that runs its start and its updates silently (`loop?_forHeader`), and the second as a
loop without them (`loop?_whileHeader`), with the same condition.

The clauses are found at the semicolons, so they must not have any. White space around them does
not matter, nor do parentheses around the condition. In one dialect the word of both loops is the
same, and what follows it may also be read as a loop over a list.
-/

namespace StepTrace

open CharClass Pattern Structured

/-! ## Clauses -/

/-- Something on one line without semicolons and braces. -/
def isLoopPart (t : Text) : Bool :=
  isCondition t && t.all fun c => c != ';' && c != '\x7b' && c != '\x7d'

/-- A statement that can be a clause of a loop: it has no comma on the top level. -/
def isLoopClause (t : Text) : Bool := isLoopPart t && (Text.splitTop [','] t.trim).length == 1

/-- A condition that can be a clause of a loop: its parentheses match. -/
def isLoopGuard (t : Text) : Bool := isLoopPart t && t.balanced

/-- A statement as a line, with or without a semicolon behind it. -/
def statementLine (t : Text) (semicolon : Bool) : Text := if semicolon then t ++ [';'] else t

section Clauses

variable {t : Text}

theorem isLoopPart_iff : isLoopPart t ↔
    t.trim ≠ [] ∧ '\n' ∉ t ∧ ';' ∉ t ∧ '\x7b' ∉ t ∧ '\x7d' ∉ t := by
  rw [isLoopPart, Bool.and_eq_true, isCondition_iff, and_assoc]
  simp only [List.all_eq_true, Bool.and_eq_true, bne_iff_ne, ne_eq]
  refine and_congr_right fun _ => and_congr_right fun _ => ⟨fun h => ?_, fun h c hc => ?_⟩
  · exact ⟨fun hmem => (h _ hmem).1.1 rfl, fun hmem => (h _ hmem).1.2 rfl,
      fun hmem => (h _ hmem).2 rfl⟩
  · exact ⟨⟨fun heq => h.1 (heq ▸ hc), fun heq => h.2.1 (heq ▸ hc)⟩, fun heq => h.2.2 (heq ▸ hc)⟩

/-- A text with one part is that part. -/
theorem Text.partsFrom_of_length (separator : Text) : ∀ (t : Text) (n : Nesting),
    (partsFrom separator n 0 t).length = 1 → partsFrom separator n 0 t = [t]
  | [], _, _ => rfl
  | c :: t, n, h => by
    rw [partsFrom] at h ⊢
    split_ifs at h ⊢
    · have hnil : partsFrom separator n (separator.length - 1) t = [] := by simpa using h
      exact absurd hnil (partsFrom_ne_nil separator t n _)
    · have ih := partsFrom_of_length separator t (n.step c)
      have hne := partsFrom_ne_nil separator t (n.step c) 0
      generalize partsFrom separator (n.step c) 0 t = parts at h ih hne ⊢
      cases parts with
      | nil => exact absurd rfl hne
      | cons first rest =>
        rw [ih h]
        rfl

theorem Text.dropTail_of_not_mem {c : Char} (h : c ∉ t) : t.dropTail (· == c) = t := by
  have hhead : ∀ (hpos : 0 < t.reverse.length), (t.reverse[0] == c) = false := fun hpos =>
    beq_false_of_ne fun heq => h (List.mem_reverse.1 (heq ▸ List.getElem_mem hpos))
  rw [dropTail, List.dropWhile_eq_self_iff.2 fun hpos => by
      rw [hhead hpos]
      exact Bool.false_ne_true, List.reverse_reverse]

namespace Statement

theorem body_trim (t : Text) : body t.trim = body t := by
  rw [body, body, Text.trim_trim]

theorem body_of_not_mem (h : ';' ∉ t) : body t = t.trim := by
  have hmem : ';' ∉ t.trim := fun hmem => h ((Text.trim_isInfix t).subset hmem)
  rw [body, Text.dropTail_of_not_mem hmem, Text.trim_trim]

/-- The semicolon behind a statement does not matter. -/
theorem body_statementLine (hne : t.trim ≠ []) (h : ';' ∉ t) (semicolon : Bool) :
    body (statementLine t semicolon) = t.trim := by
  cases semicolon with
  | false => exact body_of_not_mem h
  | true =>
    obtain ⟨front, back, ht, hfront, hback, htrim⟩ := Text.exists_trim t
    have hnil : ∀ c ∈ ([] : Text), isBlank c = true := List.forall_mem_nil _
    have hcore : Text.IsTrimmed (t.trim ++ back ++ [';']) := by
      refine ⟨fun c hc => htrim.head c ?_, fun c hc => ?_⟩
      · obtain ⟨a, rest, hrest⟩ := List.exists_cons_of_ne_nil hne
        rw [hrest] at hc ⊢
        exact hc
      · rw [List.getLast?_concat, Option.mem_some_iff] at hc
        rw [← hc]
        decide
    have hline : Text.trim (t ++ [';']) = t.trim ++ back ++ [';'] := by
      have heq := Text.trim_eq hfront hnil hcore
      rwa [List.append_nil, ← List.append_assoc, ← List.append_assoc, ← ht] at heq
    have hmem : ';' ∉ t.trim ++ back := fun hmem => h (by
      rw [ht, List.append_assoc]
      exact List.mem_append_right _ hmem)
    have hdrop : Text.dropTail (· == ';') (t.trim ++ back ++ [';']) = t.trim ++ back := by
      have hlast : Text.dropTail (· == ';') (t.trim ++ back ++ [';']) =
          Text.dropTail (· == ';') (t.trim ++ back) := by simp [Text.dropTail]
      rw [hlast, Text.dropTail_of_not_mem hmem]
    show (Text.dropTail (· == ';') (Text.trim (t ++ [';']))).trim = _
    rw [hline, hdrop]
    simpa [Text.trim_trim] using Text.trim_append hnil hback t.trim

theorem read_statementLine (d : Dialect) (hne : t.trim ≠ []) (h : ';' ∉ t) (semicolon : Bool) :
    read d (statementLine t semicolon) = read d t := by
  rw [read, read, body_statementLine hne h, body_of_not_mem h]

theorem readAll_clause (d : Dialect) (h : isLoopClause t) : readAll d t.trim = [read d t] := by
  simp only [isLoopClause, Bool.and_eq_true, isLoopPart_iff, beq_iff_eq, Text.splitTop,
    List.length_map] at h
  have hparts := Text.partsFrom_of_length [','] t.trim .start h.2
  have hread : read d t.trim = read d t := by rw [read, read, body_trim]
  have hsome : (!t.trim.isEmpty) = true := by simpa using h.1.1
  rw [readAll, Text.splitParts, Text.splitTop, hparts, List.map_singleton, Text.trim_trim,
    List.filter_singleton, hsome, cond_true, List.map_singleton, hread]

end Statement

end Clauses

/-! ## Reading clauses -/

/-- The clauses of a loop and what follows them. -/
def clausesThen (last : Pattern) : Pattern :=
  seq (capture .init (many true (noneOf ";"))) <| seq (text ";") <|
    seq (capture .cond (many true (noneOf ";"))) <| seq (text ";") <|
      seq (capture .update remainder) last

section Takes

variable {p last : Pattern} {slot : Slot} {c c' : Cursor} {k k' : Captures}
  {front init cond update rest : Text}

theorem append_cons_inj_of_not_mem {a : Char} : ∀ {x y u v : Text}, a ∉ x → a ∉ y →
    x ++ a :: u = y ++ a :: v → x = y ∧ u = v
  | [], [], _, _, _, _, h => ⟨rfl, (List.cons.inj h).2⟩
  | [], b :: _, _, _, _, hy, h => absurd (by simp [(List.cons.inj h).1]) hy
  | b :: _, [], _, _, hx, _, h => absurd (by simp [(List.cons.inj h).1]) hx
  | b :: x, b' :: y, _, _, hx, hy, h => by
    obtain ⟨rfl, htail⟩ := List.cons.inj h
    obtain ⟨rfl, hrest⟩ := append_cons_inj_of_not_mem (fun hmem => hx (List.mem_cons_of_mem _ hmem))
      (fun hmem => hy (List.mem_cons_of_mem _ hmem)) htail
    exact ⟨rfl, hrest⟩

/-- What is captured up to a semicolon. -/
theorem takes_upTo_semicolon (hfront : ';' ∉ front) (hrest : c.rest = front ++ ';' :: rest)
    (h : (seq (capture slot (many true (noneOf ";"))) (seq (text ";") p)).Takes c k c' k') :
    ∃ c₁, c₁.rest = rest ∧ p.Takes c₁ ((slot, front) :: k) c' k' := by
  obtain ⟨c₁, _, ⟨_, hmany, rfl⟩, c₂, _, hsemi, hp⟩ := h
  obtain ⟨taken, htaken, hsplit, -, rfl⟩ := takes_many_char.1 hmany
  obtain ⟨hrest₁, -, rfl⟩ := takes_text.1 hsemi
  have hnot : ';' ∉ taken := fun hmem => absurd (htaken _ hmem) (by decide)
  have hsame : front ++ ';' :: rest = taken ++ ';' :: c₂.rest := by
    rw [← hrest, hsplit, hrest₁]
    rfl
  obtain ⟨rfl, hrest₂⟩ := append_cons_inj_of_not_mem hfront hnot hsame
  rw [Cursor.taken_eq hsplit] at hp
  exact ⟨c₂, hrest₂.symm, hp⟩

theorem exists_takes_upTo_semicolon (hfront : ';' ∉ front)
    (hrest : c.rest = front ++ ';' :: rest)
    (h : p.Takes ⟨some ';', rest⟩ ((slot, front) :: k) c' k') :
    (seq (capture slot (many true (noneOf ";"))) (seq (text ";") p)).Takes c k c' k' := by
  have hmany : (many true (noneOf ";")).Takes c k
      ⟨front.getLast?.or c.previous, ';' :: rest⟩ k := by
    refine takes_many_char.2 ⟨front, fun a ha => ?_, hrest, rfl, rfl⟩
    have hne : a ≠ ';' := fun heq => hfront (heq ▸ ha)
    simpa using hne
  have htaken : c.taken ⟨front.getLast?.or c.previous, ';' :: rest⟩ = front :=
    Cursor.taken_eq hrest
  exact ⟨_, _, ⟨_, hmany, rfl⟩, ⟨some ';', rest⟩, _, takes_text.2 ⟨rfl, rfl, rfl⟩, htaken ▸ h⟩

theorem takes_clausesThen (hinit : ';' ∉ init) (hcond : ';' ∉ cond)
    (hrest : c.rest = init ++ ';' :: (cond ++ ';' :: rest))
    (h : (clausesThen last).Takes c k c' k') :
    ∃ c₁ taken, rest = taken ++ c₁.rest ∧
      last.Takes c₁ ((.update, taken) :: (.cond, cond) :: (.init, init) :: k) c' k' := by
  obtain ⟨c₁, hrest₁, h⟩ := takes_upTo_semicolon hinit hrest h
  obtain ⟨c₂, hrest₂, h⟩ := takes_upTo_semicolon hcond hrest₁ h
  obtain ⟨c₃, _, ⟨_, hupdate, rfl⟩, hlast⟩ := h
  obtain ⟨taken, -, hsplit, -, rfl⟩ := takes_many_char.1 hupdate
  rw [Cursor.taken_eq hsplit] at hlast
  exact ⟨c₃, taken, by rw [← hrest₂, hsplit], hlast⟩

theorem exists_takes_clausesThen (hinit : ';' ∉ init) (hcond : ';' ∉ cond) (hupdate : '\n' ∉ update)
    (hrest : c.rest = init ++ ';' :: (cond ++ ';' :: (update ++ rest)))
    (h : last.Takes ⟨update.getLast?.or (some ';'), rest⟩
      ((.update, update) :: (.cond, cond) :: (.init, init) :: k) c' k') :
    (clausesThen last).Takes c k c' k' := by
  refine exists_takes_upTo_semicolon hinit hrest (exists_takes_upTo_semicolon hcond rfl ?_)
  have hremainder : remainder.Takes ⟨some ';', update ++ rest⟩ ((.cond, cond) :: (.init, init) :: k)
      ⟨update.getLast?.or (some ';'), rest⟩ ((.cond, cond) :: (.init, init) :: k) := by
    refine takes_many_char.2 ⟨update, fun a ha => ?_, rfl, rfl, rfl⟩
    have hne : a ≠ '\n' := fun heq => hupdate (heq ▸ ha)
    simpa using hne
  have htaken : (⟨some ';', update ++ rest⟩ : Cursor).taken
      ⟨update.getLast?.or (some ';'), rest⟩ = update := Cursor.taken_eq rfl
  refine ⟨_, _, ⟨_, hremainder, rfl⟩, ?_⟩
  rw [htaken]
  exact h

end Takes

/-! ## Headers -/

/-- The dialect of a language has loops with clauses. -/
def Language.hasClauses (language : Language) : Bool :=
  language.dialect.loops.any fun p => p.2 == .clauses

/-- The header of a loop with a start, a condition and an update. -/
def forHeader (language : Language) (init cond update : Text) : Text :=
  let clauses := init ++ "; ".toList ++ cond ++ "; ".toList ++ update
  if language = .go then "for ".toList ++ clauses else "for (".toList ++ clauses ++ [')']

/-- The header of a loop with a condition only. -/
def whileHeader (language : Language) (cond : Text) : Text :=
  if language = .go then "for ".toList ++ cond else "while (".toList ++ cond ++ [')']

section Headers

variable {init cond update : Text}

/-- A match has found the clauses, up to white space around them. -/
structure FindsClauses (f : Found) (init cond update : Text) : Prop where
  init : (f.getD .init).trim = init.trim
  cond : (f.getD .cond).trim = cond.trim
  update : (f.getD .update).trim = update.trim

theorem findsClauses_of_captures {f : Found} {init' : Text} (hinit : init'.trim = init.trim)
    (h : f.captures = [(.update, ' ' :: update), (.cond, ' ' :: cond), (.init, init')]) :
    FindsClauses f init cond update := by
  obtain ⟨stop, captures⟩ := f
  cases h
  exact ⟨hinit, trim_blank_cons cond, trim_blank_cons update⟩

/-- A text without line feeds ends at its end. -/
theorem eq_nil_of_textEnd {t front rest : Text} (hfeed : '\n' ∉ t) (ht : t = front ++ rest)
    (hend : rest = [] ∨ rest = ['\n']) : rest = [] := by
  refine hend.resolve_right fun hrest => hfeed ?_
  rw [ht, hrest]
  simp

/-- Before a parenthesis behind one blank the white space is that blank. -/
theorem takes_gap_paren {c c' : Cursor} {k k' : Captures} {p : Pattern} {rest : Text}
    (hrest : c.rest = ' ' :: '(' :: rest)
    (h : (seq gap (seq (text "(") p)).Takes c k c' k') :
    ∃ c₁, c₁.rest = rest ∧ p.Takes c₁ k c' k' := by
  obtain ⟨c₁, _, hgap, c₂, _, hparen, hp⟩ := h
  obtain ⟨taken, htaken, hsplit, -, rfl⟩ := takes_many_char.1 hgap
  obtain ⟨hrest₁, -, rfl⟩ := takes_text.1 hparen
  have hnot : '(' ∉ taken := fun hmem => absurd (htaken _ hmem) (by decide)
  have hsame : [' '] ++ '(' :: rest = taken ++ '(' :: c₂.rest := by
    rw [show [' '] ++ '(' :: rest = c.rest from hrest.symm, hsplit, hrest₁]
    rfl
  exact ⟨c₂, (append_cons_inj_of_not_mem (by decide) hnot hsame).2.symm, hp⟩

theorem match?_clauseLoop (hinit : ';' ∉ init) (hcond : ';' ∉ cond) (hupdate : '\n' ∉ update) :
    ∃ f, Dialect.clauseLoop.1.match?
        ("for (".toList ++ (init ++ "; ".toList ++ cond ++ "; ".toList ++ update) ++ [')']) =
      some f ∧ FindsClauses f init cond update := by
  have hcond' : ';' ∉ ' ' :: cond := by simpa using hcond
  have hupdate' : '\n' ∉ ' ' :: update := by simpa using hupdate
  obtain ⟨tail, htail⟩ : ∃ tail : Text,
      tail = init ++ ';' :: (' ' :: cond ++ ';' :: (' ' :: update ++ [')'])) := ⟨_, rfl⟩
  have htext : "for (".toList ++ (init ++ "; ".toList ++ cond ++ "; ".toList ++ update) ++ [')'] =
      "for".toList ++ ' ' :: '(' :: tail := by simp [htail]
  have hsome : (Dialect.clauseLoop.1.match? ("for".toList ++ ' ' :: '(' :: tail)).isSome := by
    have hgap : gap.Takes ⟨some 'r', ' ' :: '(' :: tail⟩ [] ⟨some ' ', '(' :: tail⟩ [] :=
      takes_many_char.2 ⟨[' '], List.forall_mem_singleton.2 (by decide), rfl, rfl, rfl⟩
    have hlast : (seq (text ")") (seq textEnd nothing)).Takes
        ⟨(' ' :: update).getLast?.or (some ';'), [')']⟩
        [(.update, ' ' :: update), (.cond, ' ' :: cond), (.init, init)] ⟨some ')', []⟩
        [(.update, ' ' :: update), (.cond, ' ' :: cond), (.init, init)] :=
      ⟨⟨some ')', []⟩, _, takes_text.2 ⟨rfl, rfl, rfl⟩, _, _, ⟨Or.inl rfl, rfl, rfl⟩, rfl, rfl⟩
    exact isSome_match? ⟨_, _, takes_text.2 ⟨rfl, rfl, rfl⟩, _, _, hgap, ⟨some '(', _⟩, _,
      takes_text.2 ⟨rfl, rfl, rfl⟩, exists_takes_clausesThen hinit hcond' hupdate' htail hlast⟩
  rw [htext]
  obtain ⟨f, hf⟩ := Option.isSome_iff_exists.1 hsome
  refine ⟨f, hf, ?_⟩
  obtain ⟨c₁, _, hword, hrest⟩ := takes_of_match? hf
  obtain ⟨hrest₁, -, rfl⟩ := takes_text.1 hword
  obtain ⟨c₂, hrest₂, hclauses⟩ := takes_gap_paren (List.append_cancel_left hrest₁).symm hrest
  obtain ⟨c₃, taken, hsplit, _, _, hparen, c₄, _, ⟨hend, rfl, rfl⟩, -, hcaptures⟩ :=
    takes_clausesThen hinit hcond' (hrest₂.trans htail) hclauses
  obtain ⟨hrest₄, -, rfl⟩ := takes_text.1 hparen
  have hall : ' ' :: update ++ [')'] = taken ++ [')'] ++ c₄.rest := by
    rw [hsplit, hrest₄]
    simp
  have hnil : c₄.rest = [] := eq_nil_of_textEnd (by simpa using hupdate) hall hend
  rw [hnil, List.append_nil] at hall
  obtain rfl : ' ' :: update = taken := List.append_cancel_right hall
  exact findsClauses_of_captures rfl hcaptures

/-- The loop with clauses that are not between parentheses. -/
def openClauseLoop : Pattern :=
  seq (text "for") (seq blanks (clausesThen (seq textEnd nothing)))

theorem match?_openClauseLoop (hinit : ';' ∉ init) (hcond : ';' ∉ cond) (hupdate : '\n' ∉ update) :
    ∃ f, openClauseLoop.match?
        ("for ".toList ++ (init ++ "; ".toList ++ cond ++ "; ".toList ++ update)) = some f ∧
      FindsClauses f init cond update := by
  have hcond' : ';' ∉ ' ' :: cond := by simpa using hcond
  have hupdate' : '\n' ∉ ' ' :: update := by simpa using hupdate
  obtain ⟨tail, htail⟩ : ∃ tail : Text,
      tail = init ++ ';' :: (' ' :: cond ++ ';' :: (' ' :: update ++ [])) := ⟨_, rfl⟩
  have htext : "for ".toList ++ (init ++ "; ".toList ++ cond ++ "; ".toList ++ update) =
      "for".toList ++ ' ' :: tail := by simp [htail]
  have hsome : (openClauseLoop.match? ("for".toList ++ ' ' :: tail)).isSome := by
    have hblanks : blanks.Takes ⟨some 'r', ' ' :: tail⟩ [] ⟨some ' ', tail⟩ [] :=
      takes_several_char.2 ⟨[' '], by simp, List.forall_mem_singleton.2 (by decide), rfl, rfl, rfl⟩
    exact isSome_match? ⟨_, _, takes_text.2 ⟨rfl, rfl, rfl⟩, _, _, hblanks,
      exists_takes_clausesThen hinit hcond' hupdate' htail
        ⟨_, _, ⟨Or.inl rfl, rfl, rfl⟩, rfl, rfl⟩⟩
  rw [htext]
  obtain ⟨f, hf⟩ := Option.isSome_iff_exists.1 hsome
  refine ⟨f, hf, ?_⟩
  obtain ⟨c₁, _, hword, c₂, _, hblanks, hclauses⟩ := takes_of_match? hf
  obtain ⟨hrest₁, -, rfl⟩ := takes_text.1 hword
  obtain ⟨front, -, hfront, hrest₂, -, rfl⟩ := takes_several_char.1 hblanks
  -- More than one blank before the start is possible, so the start may be found without some.
  obtain ⟨init', hsame, hrest⟩ : ∃ init' : Text, ' ' :: init = front ++ init' ∧
      c₂.rest = init' ++ ';' :: (' ' :: cond ++ ';' :: (' ' :: update ++ [])) :=
    exists_of_append_cons (fun hmem => absurd (hfront ';' hmem) (by decide))
      (((congrArg (' ' :: ·) htail).symm.trans (List.append_cancel_left hrest₁)).trans hrest₂)
  have htrim : init'.trim = init.trim := by
    rw [← trim_blank_cons init, hsame, Text.trim_blanks_append hfront]
  have hinit' : ';' ∉ init' := fun hmem => by
    have hmem' : ';' ∈ ' ' :: init := hsame ▸ List.mem_append_right front hmem
    simp [hinit] at hmem'
  obtain ⟨c₃, taken, hsplit, _, _, ⟨hend, rfl, rfl⟩, -, hcaptures⟩ :=
    takes_clausesThen hinit' hcond' hrest hclauses
  have hnil := eq_nil_of_textEnd (by simpa using hupdate) hsplit hend
  rw [hnil] at hsplit
  obtain rfl : ' ' :: update = taken := List.append_cancel_right hsplit
  exact findsClauses_of_captures htrim hcaptures

/-! ### Conditions -/

/-- What is captured up to the end is all that is left. -/
theorem captures_to_end {c c' : Cursor} {k k' : Captures} {slot : Slot} {body : Pattern}
    (hfeed : '\n' ∉ c.rest) (h : (seq (capture slot body) (seq textEnd nothing)).Takes c k c' k') :
    ∃ k₁, k' = (slot, c.rest) :: k₁ := by
  obtain ⟨_, _, ⟨k₁, hbody, rfl⟩, c₁, _, ⟨hend, rfl, rfl⟩, -, rfl⟩ := h
  obtain ⟨front, hfront⟩ := (body.cuts_takes _ _ _ _ hbody).1
  have hnil : c₁.rest = [] := eq_nil_of_textEnd hfeed hfront.symm hend
  refine ⟨k₁, ?_⟩
  rw [Cursor.taken_eq hfront.symm, ← hfront, hnil, List.append_nil]

theorem get?_of_captures {f : Found} {slot : Slot} {t : Text} {k : Captures}
    (h : f.captures = (slot, t) :: k) : f.get? slot = some t := by
  rw [Found.get?, h, List.lookup_cons_self]

theorem isSome_match?_parenLoop (hcond : '\n' ∉ cond) :
    (Dialect.parenLoop.1.match? ("while".toList ++ ' ' :: '(' :: (cond ++ [')']))).isSome := by
  have hgap : gap.Takes ⟨some 'e', ' ' :: '(' :: (cond ++ [')'])⟩ []
      ⟨some ' ', '(' :: (cond ++ [')'])⟩ [] :=
    takes_many_char.2 ⟨[' '], List.forall_mem_singleton.2 (by decide), rfl, rfl, rfl⟩
  have hremainder : remainder.Takes ⟨some '(', cond ++ [')']⟩ []
      ⟨cond.getLast?.or (some '('), [')']⟩ [] := by
    refine takes_many_char.2 ⟨cond, fun a ha => ?_, rfl, rfl, rfl⟩
    have hne : a ≠ '\n' := fun heq => hcond (heq ▸ ha)
    simpa using hne
  exact isSome_match? ⟨_, _, takes_text.2 ⟨rfl, rfl, rfl⟩, _, _, hgap, ⟨some ')', []⟩, _,
    ⟨_, ⟨_, _, takes_text.2 ⟨rfl, rfl, rfl⟩, _, _, hremainder, _, _,
      takes_text.2 ⟨rfl, rfl, rfl⟩, rfl, rfl⟩, rfl⟩, _, _, ⟨Or.inl rfl, rfl, rfl⟩, rfl, rfl⟩

theorem match?_parenLoop (hcond : '\n' ∉ cond) :
    ∃ f, Dialect.parenLoop.1.match? ("while (".toList ++ cond ++ [')']) = some f ∧
      f.get? .cond = some ('(' :: (cond ++ [')'])) := by
  have htext : "while (".toList ++ cond ++ [')'] =
      "while".toList ++ ' ' :: '(' :: (cond ++ [')']) := by simp
  have hfeed : '\n' ∉ '(' :: (cond ++ [')']) := by simpa using hcond
  rw [htext]
  obtain ⟨f, hf⟩ := Option.isSome_iff_exists.1 (isSome_match?_parenLoop hcond)
  refine ⟨f, hf, ?_⟩
  obtain ⟨c₁, _, hword, c₂, _, hgap, hcapture⟩ := takes_of_match? hf
  obtain ⟨hrest₁, -, rfl⟩ := takes_text.1 hword
  obtain ⟨taken, htaken, hsplit, -, rfl⟩ := takes_many_char.1 hgap
  obtain ⟨_, _, ⟨_, ⟨c₃, _, hopen, -⟩, -⟩, -⟩ := id hcapture
  obtain ⟨hrest₂, -, -⟩ := takes_text.1 hopen
  have hnot : '(' ∉ taken := fun hmem => absurd (htaken _ hmem) (by decide)
  have hsame : [' '] ++ '(' :: (cond ++ [')']) = taken ++ '(' :: c₃.rest := by
    rw [show [' '] ++ '(' :: (cond ++ [')']) = c₁.rest from List.append_cancel_left hrest₁, hsplit,
      hrest₂]
    rfl
  obtain ⟨-, hinner⟩ := append_cons_inj_of_not_mem (by decide) hnot hsame
  have hrest : c₂.rest = '(' :: (cond ++ [')']) := by
    rw [hrest₂, ← hinner]
    rfl
  rw [← hrest] at hfeed ⊢
  obtain ⟨k, hk⟩ := captures_to_end hfeed hcapture
  exact get?_of_captures hk

/-- The loop while a condition holds that is not between parentheses. -/
def openLoop : Pattern :=
  all [text "for", blanks, capture .cond (several (noneOf ";")), textEnd]

theorem match?_openLoop (hne : cond ≠ []) (hfeed : '\n' ∉ cond) (hsemi : ';' ∉ cond) :
    ∃ f u, openLoop.match? ("for ".toList ++ cond) = some f ∧ f.get? .cond = some u ∧
      u.trim = cond.trim := by
  have hsome : (openLoop.match? ("for".toList ++ ' ' :: cond)).isSome := by
    have hblanks : blanks.Takes ⟨some 'r', ' ' :: cond⟩ [] ⟨some ' ', cond⟩ [] :=
      takes_several_char.2 ⟨[' '], by simp, List.forall_mem_singleton.2 (by decide), rfl, rfl, rfl⟩
    have hcapture : (several (noneOf ";")).Takes ⟨some ' ', cond⟩ []
        ⟨cond.getLast?.or (some ' '), []⟩ [] := by
      refine takes_several_char.2 ⟨cond, hne, fun a ha => ?_, by simp, rfl, rfl⟩
      have hne : a ≠ ';' := fun heq => hsemi (heq ▸ ha)
      simpa using hne
    exact isSome_match? ⟨_, _, takes_text.2 ⟨rfl, rfl, rfl⟩, _, _, hblanks, _, _,
      ⟨_, hcapture, rfl⟩, _, _, ⟨Or.inl rfl, rfl, rfl⟩, rfl, rfl⟩
  obtain ⟨f, hf⟩ := Option.isSome_iff_exists.1 hsome
  obtain ⟨c₁, _, hword, c₂, _, hblanks, hcapture⟩ := takes_of_match? hf
  obtain ⟨hrest₁, -, rfl⟩ := takes_text.1 hword
  obtain ⟨front, -, hfront, hrest₂, -, rfl⟩ := takes_several_char.1 hblanks
  have hsplit : ' ' :: cond = front ++ c₂.rest := (List.append_cancel_left hrest₁).trans hrest₂
  have hfeed₂ : '\n' ∉ c₂.rest := fun hmem => by
    have hmem' : '\n' ∈ ' ' :: cond := hsplit ▸ List.mem_append_right front hmem
    simp [hfeed] at hmem'
  obtain ⟨k, hk⟩ := captures_to_end hfeed₂ hcapture
  refine ⟨f, c₂.rest, hf, get?_of_captures hk, ?_⟩
  rw [← trim_blank_cons cond, hsplit, Text.trim_blanks_append hfront]

/-- A loop with clauses has a semicolon in its header. -/
theorem match?_openClauseLoop_eq_none {t : Text} (h : ';' ∉ t) :
    openClauseLoop.match? t = none := by
  refine Option.eq_none_iff_forall_ne_some.2 fun f hf => h ?_
  obtain ⟨c₁, _, hword, c₂, _, hblanks, c₃, _, hinit, c₄, _, hsemi, -⟩ := takes_of_match? hf
  obtain ⟨hrest, -, -⟩ := takes_text.1 hsemi
  have hmem : ';' ∈ c₃.rest := by simp [hrest]
  have hsuffix : c₃.rest <:+ t := ((cuts_takes _ _ _ _ _ hinit).1.trans
    (cuts_takes _ _ _ _ _ hblanks).1).trans (cuts_takes _ _ _ _ _ hword).1
  exact hsuffix.subset hmem

/-! ### Loops -/

theorem firstMatch?_cons_of_some {α : Type} {p : Pattern × α} {ps : List (Pattern × α)} {t : Text}
    {f : Found} (h : p.1.match? t = some f) : firstMatch? (p :: ps) t = some (f, p.2) := by
  simp only [firstMatch?, List.findSome?_cons, h, Option.map_some]

theorem firstMatch?_cons_of_none {α : Type} {p : Pattern × α} {ps : List (Pattern × α)} {t : Text}
    (h : p.1.match? t = none) : firstMatch? (p :: ps) t = firstMatch? ps t := by
  simp only [firstMatch?, List.findSome?_cons, h, Option.map_none]

/-- Clauses that were found are read as statements and a condition. -/
theorem readLoop_clauses (d : Dialect) {f : Found} (hf : FindsClauses f init cond update)
    (hinit : isLoopClause init) (hcond : cond.trim ≠ []) (hupdate : isLoopClause update) :
    ∃ counter, readLoop d f .clauses =
      .guarded [Statement.read d init] (Condition.read cond) [Statement.read d update] counter := by
  have hguard : loopCondition (f.getD .cond) = Condition.read cond := by
    rw [loopCondition, hf.cond, if_neg (by simpa using hcond)]
    exact Condition.read_congr hf.cond
  refine ⟨counter? init.trim update.trim, ?_⟩
  rw [readLoop, hguard, hf.init, hf.update, Statement.readAll_clause d hinit,
    Statement.readAll_clause d hupdate]

theorem trimRight_paren (t : Text) : (t ++ [')']).trimRight = t ++ [')'] :=
  Text.dropTail_append t ⟨')', by simp, by decide⟩

/-- A loop over the items of a list. -/
def Loop.isEach : Loop → Bool
  | .each _ _ => true
  | _ => false

variable {d : Dialect} {rest : List (Pattern × LoopForm)}

/-- A header whose first match finds clauses is a loop with these clauses. -/
theorem loop?_of_findsClauses {header : Text} {f : Found}
    (hmatch : firstMatch? d.loops header = some (f, .clauses))
    (hf : FindsClauses f init cond update) (hinit : isLoopClause init) (hcond : cond.trim ≠ [])
    (hupdate : isLoopClause update) :
    ∃ counter, loop? d header =
      some (.guarded [Statement.read d init] (Condition.read cond) [Statement.read d update]
        counter) := by
  obtain ⟨counter, hread⟩ := readLoop_clauses d hf hinit hcond hupdate
  exact ⟨counter, by rw [loop?, hmatch, Option.map_some, ← hread]⟩

theorem loop?_parenClauses (hloops : d.loops = Dialect.clauseLoop :: rest)
    (hinit : isLoopClause init) (hcond : isLoopGuard cond) (hupdate : isLoopClause update) :
    ∃ counter, loop? d (Text.trimRight
        ("for (".toList ++ (init ++ "; ".toList ++ cond ++ "; ".toList ++ update) ++ [')'])) =
      some (.guarded [Statement.read d init] (Condition.read cond) [Statement.read d update]
        counter) := by
  obtain ⟨-, -, hinitsemi, -, -⟩ := isLoopPart_iff.1 (Bool.and_eq_true_iff.1 hinit).1
  obtain ⟨hcondne, -, hcondsemi, -, -⟩ := isLoopPart_iff.1 (Bool.and_eq_true_iff.1 hcond).1
  obtain ⟨-, hfeed, -, -, -⟩ := isLoopPart_iff.1 (Bool.and_eq_true_iff.1 hupdate).1
  obtain ⟨f, hf, hfinds⟩ := match?_clauseLoop hinitsemi hcondsemi hfeed
  rw [trimRight_paren]
  exact loop?_of_findsClauses (hloops ▸ firstMatch?_cons_of_some hf) hfinds hinit hcondne hupdate

theorem loop?_openClauses (hloops : d.loops = (openClauseLoop, .clauses) :: rest)
    (hinit : isLoopClause init) (hcond : isLoopGuard cond) (hupdate : isLoopClause update) :
    ∃ counter, loop? d (Text.trimRight
        ("for ".toList ++ (init ++ "; ".toList ++ cond ++ "; ".toList ++ update))) =
      some (.guarded [Statement.read d init] (Condition.read cond) [Statement.read d update]
        counter) := by
  obtain ⟨-, -, hinitsemi, -, -⟩ := isLoopPart_iff.1 (Bool.and_eq_true_iff.1 hinit).1
  obtain ⟨hcondne, -, hcondsemi, -, -⟩ := isLoopPart_iff.1 (Bool.and_eq_true_iff.1 hcond).1
  have hpart := (Bool.and_eq_true_iff.1 hupdate).1
  obtain ⟨-, hfeed, -, -, -⟩ := isLoopPart_iff.1 hpart
  obtain ⟨f, hf, hfinds⟩ := match?_openClauseLoop hinitsemi hcondsemi (not_mem_trimRight hfeed)
  have hfinds' : FindsClauses f init cond update :=
    ⟨hfinds.init, hfinds.cond, hfinds.update.trans (trim_trimRight update)⟩
  have hheader : Text.trimRight
        ("for ".toList ++ (init ++ "; ".toList ++ cond ++ "; ".toList ++ update)) =
      "for ".toList ++ (init ++ "; ".toList ++ cond ++ "; ".toList ++ update.trimRight) := by
    rw [← List.append_assoc, trimRight_header _ (Bool.and_eq_true_iff.1 hpart).1,
      List.append_assoc]
  rw [hheader]
  exact loop?_of_findsClauses (hloops ▸ firstMatch?_cons_of_some hf) hfinds' hinit hcondne hupdate

theorem loop?_parenGuard (hloops : ∀ t : Text, firstMatch? d.loops ("while".toList ++ t) =
      firstMatch? [Dialect.parenLoop] ("while".toList ++ t)) (hcond : isLoopGuard cond) :
    loop? d (Text.trimRight ("while (".toList ++ cond ++ [')'])) =
      some (.guarded [] (Condition.read cond) [] none) := by
  obtain ⟨hpart, hbalanced⟩ := Bool.and_eq_true_iff.1 hcond
  obtain ⟨-, hfeed, -, -, -⟩ := isLoopPart_iff.1 hpart
  obtain ⟨f, hf, hu⟩ := match?_parenLoop hfeed
  have hfound : firstMatch? d.loops ("while (".toList ++ cond ++ [')']) = some (f, .condition) :=
    (hloops (' ' :: '(' :: (cond ++ [')']))).trans (firstMatch?_cons_of_some hf)
  have hread : Condition.read ('(' :: (cond ++ [')'])) = Condition.read cond := by
    rw [Condition.read, Condition.read, Text.unwrap_parens hbalanced]
  rw [trimRight_paren, loop?, hfound, Option.map_some]
  show some (readLoop d f .condition) = _
  rw [readLoop, hu, Option.elim_some, hread]

/-- Behind its word a loop without parentheses may be one over a list; otherwise it has a condition.
-/
theorem loop?_openGuard {each : Pattern} {last : List (Pattern × LoopForm)}
    (hloops : d.loops = (openClauseLoop, .clauses) :: (each, .each) ::
      (seq (text "for") textEnd, .condition) :: (openLoop, .condition) :: last)
    (hcond : isLoopGuard cond)
    (heach : (loop? d (Text.trimRight ("for ".toList ++ cond))).any Loop.isEach = false) :
    loop? d (Text.trimRight ("for ".toList ++ cond)) =
      some (.guarded [] (Condition.read cond) [] none) := by
  obtain ⟨hpart, -⟩ := Bool.and_eq_true_iff.1 hcond
  obtain ⟨hne, hfeed, hsemi, -, -⟩ := isLoopPart_iff.1 hpart
  have htrim : cond.trimRight.trim = cond.trim := trim_trimRight cond
  have hne' : cond.trimRight ≠ [] := fun hnil => hne (by rw [← htrim, hnil]; rfl)
  have hsemi' : ';' ∉ cond.trimRight := fun hmem =>
    hsemi ((Text.dropTail_isPrefix _ cond).subset hmem)
  rw [trimRight_header _ (Bool.and_eq_true_iff.1 hpart).1] at heach ⊢
  obtain ⟨f, u, hf, hu, hutrim⟩ := match?_openLoop hne' (not_mem_trimRight hfeed) hsemi'
  have hclauses : openClauseLoop.match? ("for ".toList ++ cond.trimRight) = none :=
    match?_openClauseLoop_eq_none (by simpa using hsemi')
  have hbare : (seq (text "for") textEnd).match? ("for ".toList ++ cond.trimRight) = none := by
    refine Option.eq_none_iff_forall_ne_some.2 fun g hg => ?_
    obtain ⟨c₁, _, hword, hend, -, -⟩ := takes_of_match? hg
    have hrest : "for".toList ++ ' ' :: cond.trimRight = "for".toList ++ c₁.rest :=
      (takes_text.1 hword).1
    rw [← List.append_cancel_left hrest] at hend
    simp at hend
  have hfirst : each.match? ("for ".toList ++ cond.trimRight) = none := by
    refine Option.eq_none_iff_forall_ne_some.2 fun g hg => ?_
    rw [loop?, hloops, firstMatch?_cons_of_none hclauses, firstMatch?_cons_of_some hg] at heach
    cases heach
  rw [loop?, hloops, firstMatch?_cons_of_none hclauses, firstMatch?_cons_of_none hfirst,
    firstMatch?_cons_of_none hbare, firstMatch?_cons_of_some hf, Option.map_some]
  show some (readLoop d f .condition) = _
  rw [readLoop, hu, Option.elim_some, Condition.read_congr (hutrim.trans htrim)]

/-- A loop with clauses is read with its start and its update as silent statements. -/
theorem loop?_forHeader {language : Language} (hlanguage : language.hasClauses)
    (hinit : isLoopClause init) (hcond : isLoopGuard cond) (hupdate : isLoopClause update) :
    ∃ counter, loop? language.dialect (forHeader language init cond update).trimRight =
      some (.guarded [Statement.read language.dialect init] (Condition.read cond)
        [Statement.read language.dialect update] counter) := by
  cases language with
  | go => exact loop?_openClauses rfl hinit hcond hupdate
  | rust | python | sql => cases hlanguage
  | c | java | csharp | cpp | typescript | javascript =>
    exact loop?_parenClauses rfl hinit hcond hupdate

/-- A loop with a condition is read as a loop without statements, unless it is one over a list. -/
theorem loop?_whileHeader {language : Language} (hlanguage : language.hasClauses)
    (hcond : isLoopGuard cond)
    (heach : language = .go →
      (loop? language.dialect (whileHeader language cond).trimRight).any Loop.isEach = false) :
    loop? language.dialect (whileHeader language cond).trimRight =
      some (.guarded [] (Condition.read cond) [] none) := by
  cases language with
  | go => exact loop?_openGuard rfl hcond (heach rfl)
  | rust | python | sql => cases hlanguage
  | c | java | csharp | cpp | typescript | javascript => exact loop?_parenGuard (fun _ => rfl) hcond

end Headers

end StepTrace
