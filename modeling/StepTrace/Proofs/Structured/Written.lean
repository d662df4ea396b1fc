import StepTrace.Proofs.Structured.Header

/-!
# The lines of structured programs by indentation

In an indented dialect all lines of a structured program stand at one indent and the lines of its
bodies deeper (`Block.Written`). So a body ends at the first line that is not deeper than its header
(`bodyLength_append`). Where a structured program begins and the lines behind it are indented less,
every body and every conditional before it has come to its end (`Block.Written.closes`), since its
first line is no further clause.

Every structured program can be written so (`Block.written_printed`).
-/

namespace StepTrace

namespace Structured

/-- The texts of a structured program in an indented dialect. A statement is no conditional, loop or
further clause, and the headers of loops are those of the dialect. -/
def indentedRules (d : Dialect) : Rules where
  leaf t := ((ifForm.match? (indentedHeader t)).bind (·.get? .cond)).isNone &&
    (loop? d (indentedHeader t)).isNone && !t.startsWith elifBeginning &&
    !t.startsWith elseBeginning
  cond t := isCondition t
  loop header head := loop? d header.trimRight == some head

/-! ## Lines -/

mutual

/-- The lines of a structured program, all of them at one indent but those of the bodies, which are
deeper. -/
def Block.Written : Block → (indent : Nat) → List IndentedLine → Prop
  | .done, _, lines => lines = []
  | .leaf text rest, indent, lines =>
    ∃ raw below, lines = ⟨raw, text, indent⟩ :: below ∧ rest.Written indent below
  | .branch cond body further rest, indent, lines =>
    ∃ raw deeper inner clauses below,
      lines = ⟨raw, ifLine .indented cond, indent⟩ :: (inner ++ (clauses ++ below)) ∧
      indent < deeper ∧ body.Written deeper inner ∧ further.Written indent clauses ∧
      rest.Written indent below
  | .loop header _ body rest, indent, lines =>
    ∃ raw deeper inner below,
      lines = ⟨raw, loopLine .indented header, indent⟩ :: (inner ++ below) ∧
      indent < deeper ∧ body.Written deeper inner ∧ rest.Written indent below

/-- The lines of some further clauses. -/
def Clauses.Written : Clauses → (indent : Nat) → List IndentedLine → Prop
  | .none, _, lines => lines = []
  | .clause cond body next, indent, lines =>
    ∃ raw deeper inner clauses,
      lines = ⟨raw, furtherLine .indented cond, indent⟩ :: (inner ++ clauses) ∧
      indent < deeper ∧ body.Written deeper inner ∧ next.Written indent clauses
  | .otherwise body, indent, lines =>
    ∃ raw deeper inner, lines = ⟨raw, elseLine .indented, indent⟩ :: inner ∧
      indent < deeper ∧ body.Written deeper inner

end

mutual

/-- No line is indented less than the structured program. -/
theorem Block.Written.le : ∀ {b : Block} {indent : Nat} {lines : List IndentedLine},
    b.Written indent lines → ∀ line ∈ lines, indent ≤ line.indent
  | .done, indent, lines, h => by
    rw [Block.Written] at h
    simp [h]
  | .leaf text rest, indent, lines, h => by
    rw [Block.Written] at h
    obtain ⟨raw, below, rfl, hrest⟩ := h
    simpa using Block.Written.le hrest
  | .branch cond body further rest, indent, lines, h => by
    rw [Block.Written] at h
    obtain ⟨raw, deeper, inner, clauses, below, rfl, hlt, hbody, hfurther, hrest⟩ := h
    intro line hline
    simp only [List.mem_cons, List.mem_append] at hline
    rcases hline with rfl | hline | hline | hline
    · exact Nat.le_refl _
    · exact Nat.le_trans (Nat.le_of_lt hlt) (Block.Written.le hbody line hline)
    · exact Clauses.Written.le hfurther line hline
    · exact Block.Written.le hrest line hline
  | .loop header head body rest, indent, lines, h => by
    rw [Block.Written] at h
    obtain ⟨raw, deeper, inner, below, rfl, hlt, hbody, hrest⟩ := h
    intro line hline
    simp only [List.mem_cons, List.mem_append] at hline
    rcases hline with rfl | hline | hline
    · exact Nat.le_refl _
    · exact Nat.le_trans (Nat.le_of_lt hlt) (Block.Written.le hbody line hline)
    · exact Block.Written.le hrest line hline

theorem Clauses.Written.le : ∀ {c : Clauses} {indent : Nat} {lines : List IndentedLine},
    c.Written indent lines → ∀ line ∈ lines, indent ≤ line.indent
  | .none, indent, lines, h => by
    rw [Clauses.Written] at h
    simp [h]
  | .clause cond body next, indent, lines, h => by
    rw [Clauses.Written] at h
    obtain ⟨raw, deeper, inner, clauses, rfl, hlt, hbody, hnext⟩ := h
    intro line hline
    simp only [List.mem_cons, List.mem_append] at hline
    rcases hline with rfl | hline | hline
    · exact Nat.le_refl _
    · exact Nat.le_trans (Nat.le_of_lt hlt) (Block.Written.le hbody line hline)
    · exact Clauses.Written.le hnext line hline
  | .otherwise body, indent, lines, h => by
    rw [Clauses.Written] at h
    obtain ⟨raw, deeper, inner, rfl, hlt, hbody⟩ := h
    intro line hline
    rcases List.mem_cons.1 hline with rfl | hline
    · exact Nat.le_refl _
    · exact Nat.le_trans (Nat.le_of_lt hlt) (Block.Written.le hbody line hline)

end

/-- The lines of a body are deeper than its header. -/
theorem Block.Written.lt {b : Block} {indent deeper : Nat} {lines : List IndentedLine}
    (h : b.Written deeper lines) (hlt : indent < deeper) : ∀ line ∈ lines, indent < line.indent :=
  fun line hline => Nat.lt_of_lt_of_le hlt (h.le line hline)

/-! ## Ends of bodies -/

/-- The body of a line ends where the lines are no longer deeper. -/
theorem bodyLength_append {indent : Nat} {inner behind : List IndentedLine}
    (hinner : ∀ line ∈ inner, indent < line.indent)
    (hbehind : ∀ line ∈ behind.head?, line.indent ≤ indent) :
    bodyLength indent (inner ++ behind) = inner.length := by
  have hdeep : ∀ line ∈ inner, decide ((indent : Int) < line.indent) = true := by
    simpa using hinner
  have hstop : behind.takeWhile (fun line => decide ((indent : Int) < line.indent)) = [] := by
    cases behind with
    | nil => rfl
    | cons line behind =>
      have hle : line.indent ≤ indent := hbehind line rfl
      rw [List.takeWhile_cons_of_neg (by simpa using hle)]
  rw [bodyLength, List.takeWhile_append_of_pos hdeep, hstop, List.append_nil]

/-- At these lines every body and every conditional of an indent has come to its end. -/
structure Closes (indent : Nat) (lines : List IndentedLine) : Prop where
  le : ∀ line ∈ lines.head?, line.indent ≤ indent
  elif : isClause elifBeginning indent lines = false
  otherwise : isClause elseBeginning indent lines = false

theorem head_indent_le (raw text : Text) (indent : Nat) (lines : List IndentedLine) :
    ∀ line ∈ (⟨raw, text, indent⟩ :: lines : List IndentedLine).head?, line.indent ≤ indent := by
  simp

theorem Closes.of_lt {indent : Nat} {lines : List IndentedLine}
    (h : ∀ line ∈ lines.head?, line.indent < indent) : Closes indent lines := by
  have hclause : ∀ beginning, isClause beginning indent lines = false := by
    intro beginning
    cases lines with
    | nil => rfl
    | cons line lines =>
      have hlt : line.indent < indent := h line rfl
      have hne : ((line.indent : Int) == indent) = false := by
        rw [beq_eq_false_iff_ne]
        omega
      simp [isClause, hne]
  exact ⟨fun line hline => Nat.le_of_lt (h line hline), hclause _, hclause _⟩

theorem Closes.of_text {indent : Nat} {raw text : Text}
    (helif : text.startsWith elifBeginning = false) (helse : text.startsWith elseBeginning = false)
    (lines : List IndentedLine) : Closes indent (⟨raw, text, indent⟩ :: lines) where
  le := head_indent_le raw text indent lines
  elif := by simp [isClause, helif]
  otherwise := by simp [isClause, helse]

theorem startsWith_of_openingWord : ∀ w ∈ openingWords, ∀ rest : Text,
    Text.startsWith (w.toList ++ rest) elifBeginning = false ∧
      Text.startsWith (w.toList ++ rest) elseBeginning = false :=
  List.forall_iff_forall_mem.1 ⟨fun _ => ⟨rfl, rfl⟩, fun _ => ⟨rfl, rfl⟩, fun _ => ⟨rfl, rfl⟩,
    fun _ => ⟨rfl, rfl⟩, fun _ => ⟨rfl, rfl⟩⟩

/-- A structured program does not begin with a further clause. -/
theorem Block.Written.closes {language : Language} {b : Block} {indent : Nat}
    {part after : List IndentedLine} (h : b.Written indent part)
    (hfollows : b.follows (indentedRules language.dialect))
    (hafter : ∀ line ∈ after.head?, line.indent < indent) : Closes indent (part ++ after) := by
  cases b with
  | done =>
    rw [Block.Written] at h
    rw [h]
    exact .of_lt hafter
  | leaf text rest =>
    rw [Block.Written] at h
    obtain ⟨raw, below, rfl, -⟩ := h
    simp only [Block.follows, indentedRules, Bool.and_eq_true, Bool.not_eq_true'] at hfollows
    exact .of_text hfollows.1.1.2 hfollows.1.2 _
  | branch cond body further rest =>
    rw [Block.Written] at h
    obtain ⟨raw, deeper, inner, clauses, below, rfl, -⟩ := h
    obtain ⟨helif, helse⟩ := startsWith_of_openingWord "if" (by decide) (' ' :: (cond ++ [':']))
    exact .of_text helif helse _
  | loop header head body rest =>
    rw [Block.Written] at h
    obtain ⟨raw, deeper, inner, below, rfl, -⟩ := h
    simp only [Block.follows, indentedRules, Bool.and_eq_true, beq_iff_eq] at hfollows
    obtain ⟨w, hw, back, hback⟩ := header_begins hfollows.1.1
    obtain ⟨helif, helse⟩ :=
      startsWith_of_openingWord w (List.mem_cons_of_mem _ hw) (back ++ [':'])
    rw [← List.append_assoc, ← hback] at helif helse
    exact .of_text helif helse _

/-- The line behind a body is not deeper than its header. -/
theorem Clauses.Written.head_le {c : Clauses} {indent : Nat} {part behind : List IndentedLine}
    (h : c.Written indent part) (hbehind : Closes indent behind) :
    ∀ line ∈ (part ++ behind).head?, line.indent ≤ indent := by
  cases c with
  | none =>
    rw [Clauses.Written] at h
    rw [h]
    exact hbehind.le
  | clause cond body next =>
    rw [Clauses.Written] at h
    obtain ⟨raw, deeper, inner, clauses, rfl, -⟩ := h
    exact head_indent_le raw _ indent _
  | otherwise body =>
    rw [Clauses.Written] at h
    obtain ⟨raw, deeper, inner, rfl, -⟩ := h
    exact head_indent_le raw _ indent _

/-! ## Printed lines -/

/-- A line with a text at an indent. -/
def lineAt (indent : Nat) (text : Text) : IndentedLine :=
  ⟨List.replicate indent ' ' ++ text, text, indent⟩

mutual

/-- The lines of a structured program whose bodies are indented by two blanks. -/
def Block.printed : Block → (indent : Nat) → List IndentedLine
  | .done, _ => []
  | .leaf text rest, indent => lineAt indent text :: rest.printed indent
  | .branch cond body further rest, indent =>
    lineAt indent (ifLine .indented cond) ::
      (body.printed (indent + 2) ++ (further.printed indent ++ rest.printed indent))
  | .loop header _ body rest, indent =>
    lineAt indent (loopLine .indented header) ::
      (body.printed (indent + 2) ++ rest.printed indent)

/-- The lines of some further clauses. -/
def Clauses.printed : Clauses → (indent : Nat) → List IndentedLine
  | .none, _ => []
  | .clause cond body next, indent =>
    lineAt indent (furtherLine .indented cond) ::
      (body.printed (indent + 2) ++ next.printed indent)
  | .otherwise body, indent =>
    lineAt indent (elseLine .indented) :: body.printed (indent + 2)

end

mutual

theorem Block.written_printed : ∀ (b : Block) (indent : Nat), b.Written indent (b.printed indent)
  | .done, indent => by rw [Block.Written, Block.printed]
  | .leaf text rest, indent => by
    rw [Block.Written, Block.printed]
    exact ⟨_, _, rfl, rest.written_printed indent⟩
  | .branch cond body further rest, indent => by
    rw [Block.Written, Block.printed]
    exact ⟨_, indent + 2, _, _, _, rfl, by omega, body.written_printed _,
      further.written_printed indent, rest.written_printed indent⟩
  | .loop header head body rest, indent => by
    rw [Block.Written, Block.printed]
    exact ⟨_, indent + 2, _, _, rfl, by omega, body.written_printed _, rest.written_printed indent⟩

theorem Clauses.written_printed : ∀ (c : Clauses) (indent : Nat),
    c.Written indent (c.printed indent)
  | .none, indent => by rw [Clauses.Written, Clauses.printed]
  | .clause cond body next, indent => by
    rw [Clauses.Written, Clauses.printed]
    exact ⟨_, indent + 2, _, _, rfl, by omega, body.written_printed _, next.written_printed indent⟩
  | .otherwise body, indent => by
    rw [Clauses.Written, Clauses.printed]
    exact ⟨_, indent + 2, _, rfl, by omega, body.written_printed _⟩

end

/-- The snippet of a structured program. -/
def Block.indentedSnippet (b : Block) : Text := Text.joined ['\n'] ((b.printed 0).map (·.raw))

end Structured

end StepTrace
