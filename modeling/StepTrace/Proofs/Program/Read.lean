import StepTrace.Proofs.Run.Discipline

/-!
# Programs that are read obey a discipline

A program is made of what its lines say: statements, heads of loops, and conditions. If all these
obey a discipline, so does the program (`Program.ofIndented_obeys`, `Program.ofBraced_obeys`).
Beside them there are two ways to go wrong, which a discipline may allow. In an indented dialect a
further clause can lack its condition (`IndentedLine.IsMalformed`). In a braced dialect the walk
over the clauses of a conditional, which moves from the line of one clause to the line of the next
(`BracedSource.Moves`), can fail to get ahead.
-/

namespace StepTrace

/-! ## Parts of a program -/

/-- What a line says obeys a discipline, as a statement and as the head of a loop. -/
structure Dialect.LineObeys (D : Discipline) (d : Dialect) (line header : Text) : Prop where
  statement : (Statement.read d line).Obeys D D.action
  loop : ∀ head, loop? d header = some head → head.Obeys D

/-- The program and the chain of a row obey a discipline. -/
structure Row.Obeys (D : Discipline) (row : Row) : Prop where
  program : row.program.Obeys D
  chain : row.chain.Obeys D

section Rows

variable {D : Discipline} {d : Dialect}

theorem Condition.obeys_constant (b : Bool) : (Condition.constant b).Obeys D :=
  fun _ _ => trivial

theorem Below.row?_mem {b : Below} {line : Nat} {row : Row} (h : b.row? line = some row) :
    row ∈ b.rows := by
  unfold Below.row? at h
  split_ifs at h
  exact List.mem_of_getElem? h

theorem Below.program_obeys {b : Below} (h : ∀ row ∈ b.rows, row.Obeys D) (line : Nat) :
    (b.program line).Obeys D := by
  unfold Below.program
  cases hrow : b.row? line with
  | none => exact trivial
  | some row => exact (h row (Below.row?_mem hrow)).program

theorem rowProgram_obeys {index : Nat} {line header : Text} {conditional : Option Text}
    {bounds : Bounds} {tail : Chain} {after : Nat} {below : Below}
    (hcond : ∀ t, (Condition.read t).Obeys D) (hline : d.LineObeys D line header)
    (hbelow : ∀ row ∈ below.rows, row.Obeys D) (htail : conditional.isSome → tail.Obeys D) :
    (rowProgram d index line header conditional bounds tail after below).Obeys D := by
  have hprogram := Below.program_obeys hbelow
  unfold rowProgram
  cases conditional with
  | some cond => exact ⟨⟨hcond cond, hprogram _, htail rfl⟩, hprogram _⟩
  | none =>
    cases hloop : loop? d header with
    | some head => exact ⟨hline.loop head hloop, hprogram _, hprogram _⟩
    | none => exact ⟨hline.statement, hprogram _⟩

theorem firstProgram_obeys {rows : List Row} (h : ∀ row ∈ rows, row.Obeys D) :
    (firstProgram rows).Obeys D := by
  cases rows with
  | nil => exact trivial
  | cons row rows => exact (h row (by simp)).program

/-! ## Indented dialects -/

/-- The condition of a further clause. -/
def IndentedLine.furtherCondition? (line : IndentedLine) : Option Text :=
  (elifForm.match? (indentedHeader line.text)).bind (·.get? .cond)

/-- The line begins as a further clause with a condition and has none. -/
def IndentedLine.IsMalformed (line : IndentedLine) : Prop :=
  line.text.startsWith elifBeginning ∧ line.furtherCondition? = none

/-- The chain of the further clauses behind the body of a line, and the line behind it. -/
def indentedTail (index : Nat) (line : IndentedLine) (lines : List IndentedLine)
    (rows : List Row) : Chain × Nat :=
  let behind := lines.drop (bodyLength line.indent lines)
  let next := (indentedBounds index line.indent lines).next
  match (if isClause elifBeginning line.indent behind || isClause elseBeginning line.indent behind
    then Below.row? ⟨index + 1, rows⟩ next else none) with
  | some row => (row.chain, row.after)
  | none => (.finished, next)

theorem indentedTail_obeys (index : Nat) (line : IndentedLine) (lines : List IndentedLine)
    {rows : List Row} (h : ∀ row ∈ rows, row.Obeys D) :
    (indentedTail index line lines rows).1.Obeys D := by
  simp only [indentedTail]
  split
  · rename_i row hrow
    split_ifs at hrow
    exact (h row (Below.row?_mem hrow)).chain
  · exact trivial

theorem indentedRow_program (index : Nat) (line : IndentedLine) (lines : List IndentedLine)
    (rows : List Row) : (indentedRow d index line lines rows).program =
      rowProgram d index line.text (indentedHeader line.text)
        ((ifForm.match? (indentedHeader line.text)).bind (·.get? .cond))
        (indentedBounds index line.indent lines) (indentedTail index line lines rows).1
        (indentedTail index line lines rows).2 ⟨index + 1, rows⟩ := by
  rfl

theorem indentedRow_chain (index : Nat) (line : IndentedLine) (lines : List IndentedLine)
    (rows : List Row) : (indentedRow d index line lines rows).chain =
      if line.text.startsWith elifBeginning then
        match line.furtherCondition? with
        | some cond =>
          .clause line.text (Condition.read cond) (Below.program ⟨index + 1, rows⟩ (index + 1))
            (indentedBounds index line.indent lines).stop (indentedTail index line lines rows).1
        | none => .malformed
      else .otherwise (Below.program ⟨index + 1, rows⟩ (index + 1))
        (indentedBounds index line.indent lines).stop := by
  show (if line.text.startsWith elifBeginning then
    match line.furtherCondition? with
    | some cond =>
      (Chain.clause line.text (Condition.read cond) (Below.program ⟨index + 1, rows⟩ (index + 1))
        (indentedBounds index line.indent lines).stop (indentedTail index line lines rows).1,
        (indentedTail index line lines rows).2)
    | none => (Chain.malformed, _)
    else (Chain.otherwise (Below.program ⟨index + 1, rows⟩ (index + 1))
      (indentedBounds index line.indent lines).stop, _)).1 = _
  split_ifs
  · cases line.furtherCondition? <;> rfl
  · rfl

theorem indentedRow_obeys {index : Nat} {line : IndentedLine} {lines : List IndentedLine}
    {rows : List Row} (hcond : ∀ t, (Condition.read t).Obeys D)
    (hline : d.LineObeys D line.text (indentedHeader line.text))
    (hmalformed : line.IsMalformed → D.stop (.fault .noCondition))
    (hrows : ∀ row ∈ rows, row.Obeys D) : (indentedRow d index line lines rows).Obeys D where
  program := by
    rw [indentedRow_program]
    exact rowProgram_obeys hcond hline hrows fun _ => indentedTail_obeys index line lines hrows
  chain := by
    rw [indentedRow_chain]
    split_ifs with helif
    · cases hfurther : line.furtherCondition? with
      | some cond =>
        exact ⟨hcond cond, Below.program_obeys hrows _, indentedTail_obeys index line lines hrows⟩
      | none => exact hmalformed ⟨helif, hfurther⟩
    · exact Below.program_obeys hrows _

theorem indentedRows_obey (hcond : ∀ t, (Condition.read t).Obeys D) :
    ∀ (lines : List IndentedLine) (index : Nat),
      (∀ line ∈ lines, d.LineObeys D line.text (indentedHeader line.text) ∧
        (line.IsMalformed → D.stop (.fault .noCondition))) →
      ∀ row ∈ indentedRows d index lines, row.Obeys D
  | [], _, _, _, hrow => nomatch hrow
  | line :: lines, index, hlines, row, hrow => by
    have hbelow := indentedRows_obey hcond lines (index + 1) fun l hl => hlines l (by simp [hl])
    rcases List.mem_cons.1 hrow with rfl | hrow
    · obtain ⟨hline, hmalformed⟩ := hlines line (by simp)
      exact indentedRow_obeys hcond hline hmalformed hbelow
    · exact hbelow row hrow

/-- The program of indented lines obeys a discipline if the lines do. -/
theorem Program.ofIndented_obeys {lines : List IndentedLine}
    (hcond : ∀ t, (Condition.read t).Obeys D)
    (hlines : ∀ line ∈ lines, d.LineObeys D line.text (indentedHeader line.text) ∧
      (line.IsMalformed → D.stop (.fault .noCondition))) :
    (Program.ofIndented d lines).Obeys D :=
  firstProgram_obeys (indentedRows_obey hcond lines 0 hlines)

/-! ## Braced dialects -/

namespace BracedSource

/-- The condition of the conditional that begins on a line. -/
def firstCondition? (line : Text) : Option Text :=
  if opensBody line (bracedHeader line) then
    (ifForm.match? (bracedHeader line)).bind (·.get? .cond)
  else none

/-- The condition of the further clause on a line. -/
def furtherCondition? (line : Text) : Option Text :=
  (elseIfForm.match? (bracedHeader line)).bind (·.get? .cond)

/-- The walk over the clauses of a conditional moves from the clause with a condition on one line to
the further clause on another. -/
def Moves (s : BracedSource) (cursor opener : Nat) : Prop :=
  ∃ line, s.lines[cursor]? = some line ∧
    ((firstCondition? line).isSome ∨ (furtherCondition? line).isSome) ∧
    s.elseLine? (s.bounds cursor line).stop = some opener

/-- The chain of the further clauses behind the body of a line, and the line behind it. -/
def tail (s : BracedSource) (index : Nat) (line : Text) (rows : List Row) : Chain × Nat :=
  match s.elseLine? (s.bounds index line).stop with
  | none => (.finished, (s.bounds index line).next)
  | some opener =>
    match Below.row? ⟨index + 1, rows⟩ opener with
    | some row => (row.chain, row.after)
    | none =>
      (.circular line (((furtherCondition? line).map Condition.read).getD (.constant false)),
        (s.bounds index line).next)

theorem row_program (s : BracedSource) (index : Nat) (line : Text) (rows : List Row) :
    (row d s index line rows).program =
      if isSkipped d line then Below.program ⟨index + 1, rows⟩ (index + 1)
      else rowProgram d index line (bracedHeader line) (firstCondition? line)
        (s.bounds index line) (s.tail index line rows).1 (s.tail index line rows).2
        ⟨index + 1, rows⟩ := by
  rfl

theorem row_chain (s : BracedSource) (index : Nat) (line : Text) (rows : List Row) :
    (row d s index line rows).chain =
      match furtherCondition? line with
      | some cond =>
        .clause line (Condition.read cond) (Below.program ⟨index + 1, rows⟩ (index + 1))
          (s.bounds index line).stop (s.tail index line rows).1
      | none => .otherwise (Below.program ⟨index + 1, rows⟩ (index + 1))
        (s.bounds index line).stop := by
  show (match furtherCondition? line with
    | some cond =>
      (Chain.clause line (Condition.read cond) (Below.program ⟨index + 1, rows⟩ (index + 1))
        (s.bounds index line).stop (s.tail index line rows).1, (s.tail index line rows).2)
    | none => (Chain.otherwise (Below.program ⟨index + 1, rows⟩ (index + 1))
      (s.bounds index line).stop, _)).1 = _
  cases furtherCondition? line <;> rfl

theorem elseLine?_eq_some {s : BracedSource} {stop opener : Nat}
    (h : s.elseLine? stop = some opener) :
    s.isElse opener ∧ (opener = stop ∨ opener = stop + 1) ∧ (s.braces.get? opener).isSome := by
  obtain ⟨hopener, hclosed⟩ := Option.filter_eq_some_iff.1 h
  split_ifs at hopener with hstop hnext
  · cases hopener
    exact ⟨hstop, Or.inl rfl, hclosed⟩
  · cases hopener
    exact ⟨hnext, Or.inr rfl, hclosed⟩

theorem lt_of_isElse {s : BracedSource} {index : Nat} (h : s.isElse index) :
    index < s.lines.length := by
  unfold isElse at h
  by_contra hlt
  rw [List.getElem?_eq_none (Nat.le_of_not_lt hlt)] at h
  cases h

theorem length_rows (s : BracedSource) : ∀ (lines : List Text) (index : Nat),
    (rows d s index lines).length = lines.length
  | [], _ => rfl
  | _ :: lines, index => congrArg Nat.succ (length_rows s lines (index + 1))

/-- Unless the walk fails to get ahead, the clauses behind a clause obey the discipline. -/
theorem tail_obeys {s : BracedSource} {index : Nat} {line : Text} {rows : List Row}
    (hcond : ∀ t, (Condition.read t).Obeys D)
    (hmoves : D.stop .stalled ∨ ∀ i j, s.Moves i j → i < j)
    (hline : s.lines[index]? = some line) (hlen : index + 1 + rows.length = s.lines.length)
    (hrows : ∀ row ∈ rows, row.Obeys D)
    (hclause : (firstCondition? line).isSome ∨ (furtherCondition? line).isSome) :
    (s.tail index line rows).1.Obeys D := by
  unfold tail
  cases helse : s.elseLine? (s.bounds index line).stop with
  | none => exact trivial
  | some opener =>
    have hlt : opener < s.lines.length := lt_of_isElse (elseLine?_eq_some helse).1
    cases hrow : Below.row? ⟨index + 1, rows⟩ opener with
    | some row =>
      simp only [hrow]
      exact (hrows row (Below.row?_mem hrow)).chain
    | none =>
      simp only [hrow]
      refine ⟨?_, hmoves.resolve_right fun hforward => ?_⟩
      · cases furtherCondition? line with
        | none => exact Condition.obeys_constant false
        | some cond => exact hcond cond
      · have hahead : index < opener := hforward _ _ ⟨line, hline, hclause, helse⟩
        rw [Below.row?, if_neg (Nat.not_lt.2 hahead), List.getElem?_eq_none_iff] at hrow
        dsimp only at hrow
        omega

theorem row_obeys {s : BracedSource} {index : Nat} {line : Text} {rows : List Row}
    (hcond : ∀ t, (Condition.read t).Obeys D)
    (hmoves : D.stop .stalled ∨ ∀ i j, s.Moves i j → i < j)
    (hline : s.lines[index]? = some line) (hlen : index + 1 + rows.length = s.lines.length)
    (hrows : ∀ row ∈ rows, row.Obeys D) (hobeys : d.LineObeys D line (bracedHeader line)) :
    (row d s index line rows).Obeys D where
  program := by
    rw [row_program]
    split_ifs
    · exact Below.program_obeys hrows _
    · exact rowProgram_obeys hcond hobeys hrows fun h =>
        tail_obeys hcond hmoves hline hlen hrows (Or.inl h)
  chain := by
    rw [row_chain]
    cases hfurther : furtherCondition? line with
    | none => exact Below.program_obeys hrows _
    | some cond =>
      exact ⟨hcond cond, Below.program_obeys hrows _,
        tail_obeys hcond hmoves hline hlen hrows (Or.inr (by simp [hfurther]))⟩

theorem rows_obey {s : BracedSource} (hcond : ∀ t, (Condition.read t).Obeys D)
    (hmoves : D.stop .stalled ∨ ∀ i j, s.Moves i j → i < j)
    (hlines : ∀ line ∈ s.lines, d.LineObeys D line (bracedHeader line)) :
    ∀ (lines : List Text) (index : Nat), s.lines.drop index = lines →
      ∀ row ∈ rows d s index lines, row.Obeys D
  | [], _, _, _, hrow => nomatch hrow
  | line :: lines, index, hdrop, row, hrow => by
    have hline : s.lines[index]? = some line := by
      rw [← List.head?_drop, hdrop, List.head?_cons]
    have hrest : s.lines.drop (index + 1) = lines := by
      rw [← List.tail_drop, hdrop, List.tail_cons]
    have hbelow := rows_obey hcond hmoves hlines lines (index + 1) hrest
    rcases List.mem_cons.1 hrow with rfl | hrow
    · have hlen : index + 1 + (rows d s (index + 1) lines).length = s.lines.length := by
        have hlt := (List.getElem?_eq_some_iff.1 hline).1
        rw [length_rows, ← hrest, List.length_drop]
        omega
      exact row_obeys hcond hmoves hline hlen hbelow (hlines line (List.mem_of_getElem? hline))
    · exact hbelow row hrow

end BracedSource

/-- The program of braced lines obeys a discipline if the lines do and the walk over the clauses of
a conditional gets ahead, unless it may fail to. -/
theorem Program.ofBraced_obeys {lines : List Text} (hcond : ∀ t, (Condition.read t).Obeys D)
    (hmoves : D.stop .stalled ∨ ∀ i j, (BracedSource.ofLines lines).Moves i j → i < j)
    (hlines : ∀ line ∈ lines, d.LineObeys D line (bracedHeader line)) :
    (Program.ofBraced d lines).Obeys D :=
  firstProgram_obeys (BracedSource.rows_obey hcond hmoves hlines lines 0 rfl)

end Rows

end StepTrace
