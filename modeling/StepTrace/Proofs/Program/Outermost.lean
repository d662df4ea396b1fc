import StepTrace.Proofs.Program.Outline
import StepTrace.Proofs.Program.Walk

/-!
# Statements at the outermost level

In an indented dialect a run that finishes comes to the plain statements without an indent one after
the other, each of them once. There is one exception: a statement whose first word only begins with
the letters `else`, right behind the body of a conditional or of one of its further clauses, is
taken for the last clause and swallowed (`swallowed`). `Dialect.statements_executed` says that all
others are executed, in their order.

Whether a conditional may go on at a line depends on the lines without an indent before it only
(`isOpen`). A run never comes to a line as an ordinary one at which it goes on (`Ordinary`): behind
each block it looks for a clause first.
-/

namespace StepTrace

open Pattern Structured

/-! ## Words -/

theorem word_matchesFront {w : String} {last : Char} (hlast : w.toList.getLast? = some last)
    (hw : CharClass.isWord last = true) {rest : Text}
    (hrest : rest.head?.any CharClass.isWord = false) :
    (word w).matchesFront (w.toList ++ rest) := by
  have htext : (text w).Takes ⟨none, w.toList ++ rest⟩ [] ⟨some last, rest⟩ [] :=
    takes_text.2 ⟨rfl, by rw [hlast]; rfl, rfl⟩
  have hedge : (⟨some last, rest⟩ : Cursor).atWordEdge = true := by
    show (CharClass.isWord last != rest.head?.any CharClass.isWord) = true
    rw [hw, hrest]
    rfl
  exact isSome_match? ⟨_, _, htext, hedge, rfl, rfl⟩

/-- What begins like a further clause with a condition has the word of one. -/
theorem word_of_elifBeginning {t : Text} (h : t.startsWith elifBeginning) :
    (word "elif").matchesFront t := by
  obtain ⟨rest, rfl⟩ := List.isPrefixOf_iff_prefix.1 h
  have hblank : (' ' :: rest).head?.any CharClass.isWord = false :=
    show CharClass.isWord ' ' = false by decide
  exact word_matchesFront (w := "elif") rfl (by decide) hblank

/-- What begins with the letters of the last clause and not with its word goes on with the word. -/
theorem exists_isWord_of_elseBeginning {t : Text} (h : t.startsWith elseBeginning)
    (hword : (word "else").matchesFront t = false) :
    ∃ c rest, t = "else".toList ++ c :: rest ∧ CharClass.isWord c = true := by
  obtain ⟨rest, rfl⟩ := List.isPrefixOf_iff_prefix.1 h
  by_contra hnone
  have hrest : rest.head?.any CharClass.isWord = false := by
    cases rest with
    | nil => rfl
    | cons c rest =>
      by_contra hc
      exact hnone ⟨c, rest, rfl, by simpa using hc⟩
  have hmatch : (word "else").matchesFront ("else".toList ++ rest) :=
    word_matchesFront rfl (by decide) hrest
  rw [show elseBeginning = "else".toList from rfl, hmatch] at hword
  cases hword

namespace IndentedLine

/-- A line with the first condition of a conditional does not begin like a further clause. -/
theorem not_beginsClause {line : IndentedLine} (h : line.condition?.isSome) :
    beginsClause line = false := by
  obtain ⟨cond, hcond⟩ := Option.isSome_iff_exists.1 h
  obtain ⟨f, hf, -⟩ := Option.bind_eq_some_iff.1 hcond
  obtain ⟨c, k, hword, -⟩ := takes_of_match? hf
  obtain ⟨hword, -, -⟩ := takes_text.1 hword
  obtain ⟨rest, hrest⟩ := indentedHeader_isPrefix line.text
  have htext : line.text = 'i' :: 'f' :: (c.rest ++ rest) := by
    rw [← hrest, show indentedHeader line.text = _ from hword]
    rfl
  rw [beginsClause, htext]
  rfl

/-- A plain statement without an indent: no conditional, no loop, and not the word of a clause. -/
def isStatement (d : Dialect) (line : IndentedLine) : Bool :=
  line.indent == 0 && line.condition?.isNone && (loop? d (indentedHeader line.text)).isNone &&
    !(word "else").matchesFront line.text && !(word "elif").matchesFront line.text

end IndentedLine

/-! ## Open conditionals -/

/-- Whether a conditional without an indent may go on behind a line, knowing whether it may go on at
the line. -/
def staysOpen (opened : Bool) (line : IndentedLine) : Bool :=
  if line.indent = 0 then
    (opened && line.text.startsWith elifBeginning) || line.condition?.isSome
  else opened

/-- A conditional without an indent may go on at a line. -/
def isOpen (lines : List IndentedLine) (index : Nat) : Bool :=
  (lines.take index).foldl staysOpen false

/-- The line is a plain statement without an indent. -/
def isStatementAt (d : Dialect) (lines : List IndentedLine) (index : Nat) : Bool :=
  lines[index]?.any (·.isStatement d)

/-- The line begins with the letters of the last clause where a conditional may go on. -/
def swallowed (lines : List IndentedLine) (index : Nat) : Bool :=
  isOpen lines index &&
    lines[index]?.any fun line => line.indent == 0 && line.text.startsWith elseBeginning

/-- The line is a plain statement without an indent that is not swallowed. -/
def isExecuted (d : Dialect) (lines : List IndentedLine) (index : Nat) : Bool :=
  isStatementAt d lines index && !swallowed lines index

/-- A line that is not taken for a further clause: no conditional may go on there, or it has no
indent and does not begin like a clause. -/
def Ordinary (lines : List IndentedLine) (index : Nat) : Prop :=
  isOpen lines index = true →
    ∀ line, lines[index]? = some line → line.indent = 0 ∧ beginsClause line = false

section Open

variable {d : Dialect} {lines : List IndentedLine}

theorem isOpen_succ {index : Nat} {line : IndentedLine} (h : lines[index]? = some line) :
    isOpen lines (index + 1) = staysOpen (isOpen lines index) line := by
  rw [isOpen, List.take_add_one, h, List.foldl_append]
  rfl

/-- Behind deeper lines a conditional may go on if it may in front of them. -/
theorem isOpen_of_deep {first stop : Nat} (hle : first ≤ stop)
    (hdeep : ∀ k line, first ≤ k → k < stop → lines[k]? = some line → 0 < line.indent) :
    isOpen lines stop = isOpen lines first := by
  induction stop, hle using Nat.le_induction with
  | base => rfl
  | succ k hk ih =>
    have hbefore := ih fun i line hi hlt => hdeep i line hi (by omega)
    cases hline : lines[k]? with
    | none =>
      rw [← hbefore, isOpen, List.take_add_one, hline]
      simp [isOpen]
    | some line =>
      have hpos := hdeep k line hk (Nat.lt_succ_self k) hline
      rw [isOpen_succ hline, staysOpen, if_neg (by omega), hbefore]

theorem isStatementAt_of_deep {index : Nat}
    (h : ∀ line, lines[index]? = some line → 0 < line.indent) :
    isStatementAt d lines index = false := by
  rw [isStatementAt]
  cases hline : lines[index]? with
  | none => rfl
  | some line =>
    have hne : (line.indent == 0) = false := beq_false_of_ne (h line hline).ne'
    simp [IndentedLine.isStatement, hne]

theorem isExecuted_of_deep {index : Nat}
    (h : ∀ line, lines[index]? = some line → 0 < line.indent) :
    isExecuted d lines index = false := by
  rw [isExecuted, isStatementAt_of_deep h, Bool.false_and]

theorem isExecuted_of_elif {index : Nat} {line : IndentedLine} (hline : lines[index]? = some line)
    (h : line.text.startsWith elifBeginning) : isExecuted d lines index = false := by
  rw [isExecuted, isStatementAt, hline]
  simp [IndentedLine.isStatement, word_of_elifBeginning h]

theorem isExecuted_of_swallowed {index : Nat} (h : swallowed lines index = true) :
    isExecuted d lines index = false := by
  rw [isExecuted, h, Bool.not_true, Bool.and_false]

theorem swallowed_of_else {index : Nat} {line : IndentedLine} (hopen : isOpen lines index = true)
    (hline : lines[index]? = some line) (hindent : line.indent = 0)
    (h : line.text.startsWith elseBeginning) : swallowed lines index = true := by
  rw [swallowed, hopen, hline]
  simp [hindent, h]

/-- At an ordinary line that is no conditional of its own, all conditionals before it are over. -/
theorem Ordinary.isOpen_behind {index : Nat} {line : IndentedLine} (h : Ordinary lines index)
    (hline : lines[index]? = some line) (hcond : line.condition? = none) :
    isOpen lines (index + 1) = false := by
  rw [isOpen_succ hline, staysOpen, hcond]
  cases hopen : isOpen lines index with
  | false => simp
  | true =>
    obtain ⟨hindent, hclause⟩ := h hopen line hline
    rw [if_pos hindent, (Bool.or_eq_false_iff.1 hclause).1]
    rfl

theorem Ordinary.of_not_isOpen {index : Nat} (h : isOpen lines index = false) :
    Ordinary lines index := by
  intro hopen
  rw [h] at hopen
  cases hopen

/-- An ordinary line is not swallowed. -/
theorem Ordinary.not_swallowed {index : Nat} (h : Ordinary lines index) :
    swallowed lines index = false := by
  rw [swallowed]
  cases hopen : isOpen lines index with
  | false => rfl
  | true =>
    cases hline : lines[index]? with
    | none => rfl
    | some line =>
      obtain ⟨-, hclause⟩ := h hopen line hline
      simp [(Bool.or_eq_false_iff.1 hclause).2]

/-- The lines from an index on that are executed. -/
def executedFrom (d : Dialect) (lines : List IndentedLine) (index : Nat) : List Nat :=
  (List.range' index (lines.length - index)).filter (isExecuted d lines)

theorem executedFrom_of_length_le {index : Nat} (h : lines.length ≤ index) :
    executedFrom d lines index = [] := by
  rw [executedFrom, Nat.sub_eq_zero_of_le h]
  rfl

theorem executedFrom_succ {index : Nat} (h : index < lines.length) :
    executedFrom d lines index =
      [index].filter (isExecuted d lines) ++ executedFrom d lines (index + 1) := by
  have hcount : lines.length - index = lines.length - (index + 1) + 1 := by omega
  rw [executedFrom, executedFrom, hcount, List.range'_succ, ← List.filter_append,
    List.singleton_append]

/-- Lines that are not executed can be left out. -/
theorem executedFrom_of_le {index after : Nat} (hle : index ≤ after) (hafter : after ≤ lines.length)
    (h : ∀ k, index ≤ k → k < after → isExecuted d lines k = false) :
    executedFrom d lines index = executedFrom d lines after := by
  induction after, hle using Nat.le_induction with
  | base => rfl
  | succ k hk ih =>
    rw [ih (by omega) fun i hi hlt => h i hi (by omega), executedFrom_succ (by omega),
      List.filter_singleton, h k hk (Nat.lt_succ_self k)]
    rfl

end Open

/-! ## Runs that cannot finish -/

theorem Run.Stuck.bind_left {x : Run α} (h : x.Stuck) (f : α → Run β) : (x >>= f).Stuck := by
  intro r b
  rw [Run.exec_bind]
  rcases hexec : x.exec r with ⟨e | a, r'⟩
  · exact fun h => nomatch h
  · exact absurd (congrArg Prod.fst hexec) (h r a)

/-- Nothing gets past a clause if nothing gets past those behind it. -/
theorem Chain.stuck_clause {limits : Limits} {next : Chain}
    (h : ∀ taken, (next.run limits taken).Stuck) (line : Text) (cond : Condition) (body : Program)
    (stop : Nat) (taken : Bool) :
    ((Chain.clause line cond body stop next).run limits taken).Stuck := by
  rw [Chain.run]
  split_ifs
  · exact h true
  · refine Run.Stuck.bind fun holds => ?_
    cases holds with
    | false => exact h false
    | true => exact Run.Stuck.bind fun _ => h true

theorem Watched.leaves_of_stuck {x : Watched α} (h : x.run.Stuck) (p : Nat → Bool)
    (lines : List Nat) : x.Leaves p lines :=
  fun r a _ hexec => absurd (congrArg Prod.fst hexec) (h r a)

/-! ## Clauses at the outermost level -/

section Clauses

variable {d : Dialect} {lines : List IndentedLine}

/-- The line, if there is one, is deeper than an indent. -/
def Deeper (lines : List IndentedLine) (indent index : Nat) : Prop :=
  ∀ line, lines[index]? = some line → indent < line.indent

theorem Structured.Opens.keepsTo_deeper {index : Nat} {line : IndentedLine}
    {inner behind : List IndentedLine} (h : Opens lines index line inner behind) (d : Dialect) :
    (indentedProgram d lines (index + 1)).KeepsTo (Deeper lines line.indent)
      (index + 1 + inner.length) :=
  (h.keepsTo d).imp fun _ hk _ hl => h.getElem?_inner hk.1 hk.2 hl

/-- Behind the block of a line without an indent a conditional may go on if it may inside. -/
theorem Structured.Opens.isOpen_behind {index : Nat} {line : IndentedLine}
    {inner behind : List IndentedLine} (h : Opens lines index line inner behind)
    (hline : line.indent = 0) (hopen : isOpen lines (index + 1) = true) :
    isOpen lines (index + 1 + inner.length) = true := by
  rw [isOpen_of_deep (by omega) fun k l hk hlt hl => hline ▸ h.getElem?_inner hk hlt hl]
  exact hopen

namespace Structured.GoesOn

variable {index after : Nat} {line : IndentedLine} {chain : Chain}

/-- The bodies of all further clauses are deeper than the conditional. -/
theorem keepsTo (h : GoesOn d lines index line chain after) :
    chain.KeepsTo (Deeper lines line.indent) := by
  induction h with
  | finished => exact Chain.keepsTo_finished
  | further _ hnext hindent _ _ _ ih =>
    rw [Chain.KeepsTo, ← hindent]
    exact ⟨hnext.keepsTo_deeper d, ih⟩
  | malformed => exact Chain.keepsTo_malformed
  | last _ hnext hindent =>
    rw [Chain.KeepsTo, ← hindent]
    exact hnext.keepsTo_deeper d

/-- The run goes on behind a conditional on a later line. -/
theorem bounds (h : GoesOn d lines index line chain after) :
    index < after ∧ after ≤ lines.length := by
  induction h with
  | finished hopens => exact ⟨by omega, hopens.stop_le⟩
  | further _ _ _ _ _ _ ih => exact ⟨by omega, ih.2⟩
  | malformed _ hnext => exact ⟨by omega, hnext.stop_le⟩
  | last _ hnext => exact ⟨by omega, hnext.stop_le⟩

/-- All lines of a conditional are at least as deep as its first one. -/
theorem indent_le (h : GoesOn d lines index line chain after) {k : Nat} {l : IndentedLine}
    (hk : index < k) (hlt : k < after) (hl : lines[k]? = some l) : line.indent ≤ l.indent := by
  -- A line of the block above the next clause, that clause, or a line below it.
  have hsplit : ∀ {index : Nat} {line : IndentedLine} {inner behind : List IndentedLine}
      {next : IndentedLine} {inner' behind' : List IndentedLine}, index < k →
      Opens lines index line inner behind →
      Opens lines (index + 1 + inner.length) next inner' behind' →
      next.indent = line.indent → (index + 1 + inner.length < k → next.indent ≤ l.indent) →
      line.indent ≤ l.indent := by
    intro index line inner behind next inner' behind' hk hopens hnext hindent hbehind
    rcases Nat.lt_trichotomy k (index + 1 + inner.length) with hbefore | rfl | hafter
    · exact (hopens.getElem?_inner hk hbefore hl).le
    · obtain rfl : next = l := Option.some.inj (hnext.getElem?.symm.trans hl)
      exact hindent.ge
    · exact hindent ▸ hbehind hafter
  induction h with
  | finished hopens => exact (hopens.getElem?_inner hk hlt hl).le
  | further hopens hnext hindent _ _ _ ih =>
    exact hsplit hk hopens hnext hindent fun hafter => ih hafter hlt
  | malformed hopens hnext hindent =>
    exact hsplit hk hopens hnext hindent fun hafter => (hnext.getElem?_inner hafter hlt hl).le
  | last hopens hnext hindent =>
    exact hsplit hk hopens hnext hindent fun hafter => (hnext.getElem?_inner hafter hlt hl).le

/-- A conditional without an indent cannot be got past, or no line of it counts as a statement that
is executed and the line behind it is an ordinary one. -/
theorem stuck_or_ordinary (h : GoesOn d lines index line chain after) (hline : line.indent = 0)
    (hopen : isOpen lines (index + 1) = true) (limits : Limits) :
    (∀ taken, (chain.run limits taken).Stuck) ∨
    (∀ k, index < k → k < after → isExecuted d lines k = false) ∧ Ordinary lines after := by
  induction h with
  | finished hopens hend =>
    refine Or.inr ⟨fun k hk hlt => ?_, fun _ l hl => ?_⟩
    · exact isExecuted_of_deep fun l hl => hline ▸ hopens.getElem?_inner hk hlt hl
    · have hindent := hopens.indent_le hl
      exact ⟨by omega, hend l hl (by omega)⟩
  | @further index line inner _ next _ _ _ _ _ hopens hnext hindent hword _ _ ih =>
    have hzero := hindent.trans hline
    have hbehind := hopens.isOpen_behind hline hopen
    have hstays : isOpen lines (index + 1 + inner.length + 1) = true := by
      rw [isOpen_succ hnext.getElem?, staysOpen, if_pos hzero, hbehind, hword]
      rfl
    refine (ih hzero hstays).imp (fun hstuck => Chain.stuck_clause hstuck _ _ _ _) ?_
    rintro ⟨hrest, hordinary⟩
    refine ⟨fun k hk hlt => ?_, hordinary⟩
    rcases Nat.lt_trichotomy k (index + 1 + inner.length) with hbefore | rfl | hafter
    · exact isExecuted_of_deep fun l hl => hline ▸ hopens.getElem?_inner hk hbefore hl
    · exact isExecuted_of_elif hnext.getElem? hword
    · exact hrest k hafter hlt
  | malformed =>
    refine Or.inl fun taken => ?_
    rw [Chain.run]
    exact Run.stuck_throw _
  | @last index line inner _ next _ _ hopens hnext hindent helif hword =>
    have hzero := hindent.trans hline
    have hbehind := hopens.isOpen_behind hline hopen
    refine Or.inr ⟨fun k hk hlt => ?_, Ordinary.of_not_isOpen ?_⟩
    · rcases Nat.lt_trichotomy k (index + 1 + inner.length) with hbefore | rfl | hafter
      · exact isExecuted_of_deep fun l hl => hline ▸ hopens.getElem?_inner hk hbefore hl
      · exact isExecuted_of_swallowed (swallowed_of_else hbehind hnext.getElem? hzero hword)
      · exact isExecuted_of_deep fun l hl => hzero ▸ hnext.getElem?_inner hafter hlt hl
    · rw [isOpen_of_deep (by omega) fun k l hk hlt hl =>
        hzero ▸ hnext.getElem?_inner hk hlt hl, isOpen_succ hnext.getElem?, staysOpen,
        if_pos hzero, helif, Bool.and_false, Bool.false_or]
      by_contra hcond
      have hnot := IndentedLine.not_beginsClause (eq_true_of_ne_false hcond)
      rw [beginsClause, hword, Bool.or_true] at hnot
      cases hnot

end Structured.GoesOn

/-! ## The spine of a run -/

/-- A step from an ordinary line adds this line if it is a statement, provided that nothing is
executed up to the line at which the run goes on. -/
theorem Ordinary.leaves_step {index after : Nat} {x rest : Watched Unit}
    (h : Ordinary lines index) (hlt : index < after) (hafter : after ≤ lines.length)
    (hnone : ∀ k, index < k → k < after → isExecuted d lines k = false)
    (hx : x.Stays fun k => isStatementAt d lines k = false)
    (hrest : rest.Leaves (isStatementAt d lines) (executedFrom d lines after)) :
    (do Watched.visit index; x; rest).Leaves (isStatementAt d lines)
      (executedFrom d lines index) := by
  have hself : [index].filter (isStatementAt d lines) = [index].filter (isExecuted d lines) := by
    rw [List.filter_singleton, List.filter_singleton, isExecuted, h.not_swallowed, Bool.not_false,
      Bool.and_true]
  have hsplit : executedFrom d lines index =
      [index].filter (isStatementAt d lines) ++ ([] ++ executedFrom d lines after) := by
    rw [executedFrom_succ (by omega), executedFrom_of_le hlt hafter hnone, hself, List.nil_append]
  rw [hsplit]
  exact Watched.leaves_bind (Watched.leaves_visit index) fun _ =>
    Watched.leaves_bind (Watched.leaves_of_stays hx) fun _ => hrest

/-- A conditional on an ordinary line cannot be got past, or nothing is executed up to the line
behind it and that is an ordinary one. -/
theorem Ordinary.branch {index after : Nat} {line : IndentedLine} {chain : Chain}
    (h : Ordinary lines index) (hline : lines[index]? = some line) (hcond : line.condition?.isSome)
    (hgoes : GoesOn d lines index line chain after) (limits : Limits) :
    (∀ taken, (chain.run limits taken).Stuck) ∨
    (∀ k, index < k → k < after → isExecuted d lines k = false) ∧ Ordinary lines after := by
  by_cases hindent : line.indent = 0
  · refine hgoes.stuck_or_ordinary hindent ?_ limits
    rw [isOpen_succ hline, staysOpen, if_pos hindent, hcond, Bool.or_true]
  · -- Inside of a block nothing changes: the conditionals without an indent are over.
    have hclosed : isOpen lines index = false := by
      by_contra hopen
      exact hindent (h (eq_true_of_ne_false hopen) line hline).1
    have hdeep : ∀ k l, index + 1 ≤ k → k < after → lines[k]? = some l → 0 < l.indent := by
      intro k l hk hlt hl
      have hle := hgoes.indent_le hk hlt hl
      omega
    refine Or.inr ⟨fun k hk hlt => isExecuted_of_deep fun l => hdeep k l hk hlt, ?_⟩
    refine Ordinary.of_not_isOpen ?_
    rw [isOpen_of_deep hgoes.bounds.1 hdeep, isOpen_succ hline, staysOpen, if_neg hindent, hclosed]

/-- From an ordinary line on, a run that finishes executes the statements that are not swallowed, in
their order. By induction on the number of lines to the end. -/
theorem leaves_program (limits : Limits) : ∀ (n : Nat) {index : Nat}, lines.length ≤ index + n →
    Ordinary lines index →
    ((indentedProgram d lines index).watch limits lines.length).Leaves (isStatementAt d lines)
      (executedFrom d lines index)
  | n, index, hcount, hordinary => by
    rcases Nat.lt_or_ge index lines.length with hlt | hge
    · obtain ⟨n, rfl⟩ : ∃ m, n = m + 1 := ⟨n - 1, by omega⟩
      have hline : lines[index]? = some lines[index] := List.getElem?_eq_getElem hlt
      obtain ⟨inner, behind, hopens⟩ := exists_opens hline
      generalize lines[index] = line at hline hopens
      have hdeep : ∀ k, Deeper lines line.indent k → isStatementAt d lines k = false :=
        fun k hk => isStatementAt_of_deep fun l hl => Nat.zero_lt_of_lt (hk l hl)
      have hbody := (hopens.keepsTo_deeper d).imp hdeep
      cases hcond : line.condition? with
      | some cond =>
        have hgoes := goesOn_tailAt d lines.length (Nat.le_add_left _ _) hline
        have ⟨hafter, hend⟩ := hgoes.bounds
        rw [hopens.program_of_condition hcond hafter, Program.watch, if_pos hlt]
        rcases hordinary.branch hline (by rw [hcond]; rfl) hgoes limits with hstuck | ⟨hnone, hord⟩
        · refine Watched.leaves_of_stuck (Run.Stuck.bind fun _ => Run.Stuck.bind_left ?_ _) _ _
          rw [Chain.run_watch]
          exact Chain.stuck_clause hstuck _ _ _ _ _
        · have hrest := leaves_program limits n (by omega) hord
          refine hordinary.leaves_step hafter hend hnone (Chain.stays_watch _ _ ?_) hrest
          rw [Chain.KeepsTo]
          exact ⟨hbody, hgoes.keepsTo.imp hdeep⟩
      | none =>
        have hclosed := hordinary.isOpen_behind hline hcond
        cases hloop : loop? d (indentedHeader line.text) with
        | some head =>
          have hinner : ∀ k l, index + 1 ≤ k → k < index + 1 + inner.length →
              lines[k]? = some l → 0 < l.indent :=
            fun k l hk hlt hl => Nat.zero_lt_of_lt (hopens.getElem?_inner hk hlt hl)
          have hord : Ordinary lines (index + 1 + inner.length) :=
            Ordinary.of_not_isOpen (by rw [isOpen_of_deep (by omega) hinner, hclosed])
          have hrest := leaves_program limits n (by omega) hord
          rw [hopens.program_of_loop hcond hloop, Program.watch, if_pos hlt]
          exact hordinary.leaves_step (by omega) hopens.stop_le
            (fun k hk hlt => isExecuted_of_deep fun l => hinner k l hk hlt)
            (Loop.stays_watch _ (Program.stays_watch _ _ hbody) head) hrest
        | none =>
          have hrest := leaves_program limits n (by omega) (Ordinary.of_not_isOpen hclosed)
          rw [hopens.program_of_statement hcond hloop, Program.watch, if_pos hlt]
          exact hordinary.leaves_step (Nat.lt_succ_self index) hlt
            (fun k hk hlt => absurd hlt (by omega)) (Watched.stays_lift _) hrest
    · rw [indentedProgram, programAt_of_length_le hge, Program.watch,
        executedFrom_of_length_le hge]
      exact Watched.leaves_of_stays (Watched.stays_pure ())

end Clauses

/-- The run of a snippet comes to its end: it does not fail, and it is not stopped for the limit of
entries. -/
def Dialect.finishes (d : Dialect) (limits : Limits) (source : Text) : Bool :=
  (((Program.read d source).1.run limits (Program.read d source).2).exec (.start .empty)).1.isOk

/-- The lines that a run of a snippet comes to. -/
def Dialect.trail (d : Dialect) (limits : Limits) (source : Text) : List Nat :=
  ((Program.read d source).1.watch limits (Program.read d source).2).trail (.start .empty)

theorem read_of_indented {d : Dialect} (hlayout : d.layout = .indented) (source : Text) :
    Program.read d source =
      (indentedProgram d (indentedLines d source) 0, (indentedLines d source).length) := by
  simp only [Program.read, hlayout, Program.ofIndented, indentedRows_eq]
  rfl

theorem filter_trail {d : Dialect} (hlayout : d.layout = .indented) {limits : Limits}
    {source : Text} (h : d.finishes limits source) :
    (d.trail limits source).filter (isStatementAt d (indentedLines d source)) =
      (List.range (indentedLines d source).length).filter
        (isExecuted d (indentedLines d source)) := by
  have hordinary : Ordinary (indentedLines d source) 0 := Ordinary.of_not_isOpen rfl
  have hleaves := leaves_program (d := d) limits _ (Nat.le_add_left _ 0) hordinary
  rw [executedFrom, Nat.sub_zero, ← List.range_eq_range'] at hleaves
  rw [Dialect.finishes, read_of_indented hlayout, ← Program.run_watch] at h
  rw [Dialect.trail, read_of_indented hlayout]
  generalize hexec : ((indentedProgram d (indentedLines d source) 0).watch limits
    (indentedLines d source).length).run.exec (.start .empty) = x at h
  obtain ⟨_ | u, r⟩ := x
  · cases h
  · exact hleaves _ _ _ hexec

/-- A statement that is swallowed only begins with the letters of the last clause. -/
theorem exists_isWord_of_swallowed {d : Dialect} {lines : List IndentedLine} {index : Nat}
    (hstatement : isStatementAt d lines index) (hswallowed : swallowed lines index) :
    ∃ line c rest, lines[index]? = some line ∧ line.text = "else".toList ++ c :: rest ∧
      CharClass.isWord c = true := by
  rw [isStatementAt] at hstatement
  rw [swallowed, Bool.and_eq_true] at hswallowed
  cases hline : lines[index]? with
  | none =>
    rw [hline] at hstatement
    cases hstatement
  | some line =>
    simp only [hline, Option.any_some, IndentedLine.isStatement, Bool.and_eq_true,
      Bool.not_eq_true'] at hstatement hswallowed
    obtain ⟨c, rest, htext, hc⟩ :=
      exists_isWord_of_elseBeginning hswallowed.2.2 hstatement.1.2
    exact ⟨line, c, rest, rfl, htext, hc⟩

/-- In an indented dialect a run that comes to its end executes the plain statements without an
indent that are not swallowed, each of them once and in their order. A statement that is swallowed
begins with the letters of the last clause and goes on with a word character, so that its first word
is another one. If there is none, all statements are executed. -/
theorem Dialect.statements_executed {d : Dialect} (hlayout : d.layout = .indented) (limits : Limits)
    (source : Text) (h : d.finishes limits source) :
    let lines := indentedLines d source
    let executed := (d.trail limits source).filter (isStatementAt d lines)
    executed = (List.range lines.length).filter (isExecuted d lines) ∧
    (∀ index, isStatementAt d lines index → swallowed lines index → ∃ line c rest,
      lines[index]? = some line ∧ line.text = "else".toList ++ c :: rest ∧
        CharClass.isWord c = true) ∧
    ((∀ index, isStatementAt d lines index → swallowed lines index = false) →
      executed = (List.range lines.length).filter (isStatementAt d lines)) := by
  intro lines executed
  have hexecuted : executed = (List.range lines.length).filter (isExecuted d lines) :=
    filter_trail hlayout h
  refine ⟨hexecuted, fun index => exists_isWord_of_swallowed, fun hnone => ?_⟩
  rw [hexecuted]
  refine List.filter_congr fun index _ => ?_
  rw [isExecuted]
  cases hstatement : isStatementAt d lines index with
  | false => rfl
  | true => rw [hnone index hstatement, Bool.not_false, Bool.and_true]

/-- A loop with a conditional in its body, and behind it a conditional whose second clause is taken.
Of the eleven lines two are plain statements without an indent. -/
def outermostSnippet : Text :=
  "for i in range(2):\n  if i > 0:\n    a = 1\nx = 1\n".toList ++
    "if x > 3:\n  y = 1\nelif x > 0:\n  y = 2\nelse:\n  y = 3\nz = y".toList

theorem Dialect.statements_executed_branches :
    Dialect.python.finishes .usual outermostSnippet = true ∧
    (∀ index, isStatementAt .python (indentedLines .python outermostSnippet) index →
      swallowed (indentedLines .python outermostSnippet) index = false) ∧
    Dialect.python.trail .usual outermostSnippet = [0, 1, 1, 2, 3, 4, 7, 10] ∧
    (Dialect.python.trail .usual outermostSnippet).filter
      (isStatementAt .python (indentedLines .python outermostSnippet)) = [3, 10] := by
  have hfinishes : Dialect.python.finishes .usual outermostSnippet = true := by decide +kernel
  have hnone : ∀ index, isStatementAt .python (indentedLines .python outermostSnippet) index →
      swallowed (indentedLines .python outermostSnippet) index = false := by
    have hall : ∀ index < (indentedLines .python outermostSnippet).length,
        isStatementAt .python (indentedLines .python outermostSnippet) index →
        swallowed (indentedLines .python outermostSnippet) index = false := by decide +kernel
    intro index hindex
    refine hall index ?_ hindex
    by_contra hge
    rw [isStatementAt, List.getElem?_eq_none (Nat.le_of_not_lt hge)] at hindex
    cases hindex
  have hexecuted := (Dialect.statements_executed rfl .usual outermostSnippet hfinishes).2.2 hnone
  exact ⟨hfinishes, hnone, by decide +kernel, hexecuted.trans (by decide +kernel)⟩

/-- A statement that assigns to a name with the letters of the last clause at its beginning, behind
the body of a conditional: the run comes to its end and the statement is never executed. -/
theorem Dialect.statement_swallowed :
    let source := "if 1 > 2:\n  y = 1\nelsewhere = 2".toList
    Dialect.python.finishes .usual source = true ∧
      isStatementAt .python (indentedLines .python source) 2 = true ∧
      Dialect.python.trail .usual source = [0] := by
  decide +kernel

end StepTrace
