import StepTrace.Proofs.Program.Read

/-!
# The rows of all lines

The rows of a snippet are made from the last line to the first, in both layouts in the same way: the
row of a line is made from the line, the lines below it and their rows (`rowsWith`). So the rows
behind a line are the rows of the lines behind it, and what is looked up among them is given by the
index alone (`programAt`, `Below.program_rowsWith`).

Every program begins on its own line or a later one. So before a stop that is not behind that line
it does nothing (`run_programAt`).
-/

namespace StepTrace

variable {α : Type}

/-- The rows of the lines from an index on, each made from its line and what is below. -/
def rowsWith (make : Nat → α → List α → List Row → Row) : Nat → List α → List Row
  | _, [] => []
  | index, line :: lines =>
    let rows := rowsWith make (index + 1) lines
    make index line lines rows :: rows

theorem indentedRows_eq (d : Dialect) : ∀ (lines : List IndentedLine) (index : Nat),
    indentedRows d index lines = rowsWith (indentedRow d) index lines
  | [], _ => rfl
  | line :: lines, index => by
    rw [indentedRows, rowsWith, indentedRows_eq d lines (index + 1)]

theorem BracedSource.rows_eq (d : Dialect) (s : BracedSource) : ∀ (lines : List Text) (index : Nat),
    rows d s index lines = rowsWith (fun index line _ => row d s index line) index lines
  | [], _ => rfl
  | line :: lines, index => by
    rw [rows, rowsWith, rows_eq d s lines (index + 1)]

section Rows

variable (make : Nat → α → List α → List Row → Row) (lines : List α)

/-- The rows from a line on. -/
def rowsAt (index : Nat) : List Row := rowsWith make index (lines.drop index)

/-- The program from a line on. -/
def programAt (index : Nat) : Program := firstProgram (rowsAt make lines index)

variable {make lines}

theorem rowsAt_of_getElem? {index : Nat} {line : α} (h : lines[index]? = some line) :
    rowsAt make lines index =
      make index line (lines.drop (index + 1)) (rowsAt make lines (index + 1)) ::
        rowsAt make lines (index + 1) := by
  rw [rowsAt, List.drop_eq_getElem?_toList_append, h]
  rfl

theorem programAt_of_getElem? {index : Nat} {line : α} (h : lines[index]? = some line) :
    programAt make lines index =
      (make index line (lines.drop (index + 1)) (rowsAt make lines (index + 1))).program := by
  rw [programAt, rowsAt_of_getElem? h]
  rfl

theorem drop_rowsWith : ∀ (k index : Nat) (lines : List α),
    (rowsWith make index lines).drop k = rowsWith make (index + k) (lines.drop k)
  | 0, _, _ => rfl
  | k + 1, _, [] => by simp [rowsWith]
  | k + 1, index, line :: lines => by
    rw [rowsWith, List.drop_succ_cons, List.drop_succ_cons, drop_rowsWith k,
      Nat.add_right_comm, Nat.add_assoc]

theorem Below.row?_rowsAt {first index : Nat} (h : first ≤ index) :
    Below.row? ⟨first, rowsAt make lines first⟩ index = (rowsAt make lines index).head? := by
  obtain ⟨k, rfl⟩ := Nat.exists_eq_add_of_le h
  rw [Below.row?, if_neg (by simp), ← List.head?_drop]
  show ((rowsAt make lines first).drop (first + k - first)).head? = _
  rw [Nat.add_sub_cancel_left, rowsAt, drop_rowsWith, List.drop_drop]
  rfl

theorem Below.program_rowsAt {first index : Nat} (h : first ≤ index) :
    Below.program ⟨first, rowsAt make lines first⟩ index = programAt make lines index := by
  rw [Below.program, Below.row?_rowsAt h, programAt]
  cases rowsAt make lines index <;> rfl

end Rows

/-! ## The program of a row -/

section RowProgram

variable {d : Dialect} {index : Nat} {line header : Text} {bounds : Bounds} {tail : Chain}
  {after : Nat} {below : Below}

theorem rowProgram_some (cond : Text) :
    rowProgram d index line header (some cond) bounds tail after below =
      .branch index
        (.clause line (Condition.read cond) (below.program (index + 1)) bounds.stop tail)
        (below.program after) := by
  rfl

theorem rowProgram_of_loop {head : Loop} (h : loop? d header = some head) :
    rowProgram d index line header none bounds tail after below =
      .loop index line head (below.program (index + 1)) bounds.stop
        (below.program bounds.next) := by
  simp only [rowProgram, h]

theorem rowProgram_of_no_loop (h : loop? d header = none) :
    rowProgram d index line header none bounds tail after below =
      .plain index line (Statement.read d line) (below.program (index + 1)) := by
  simp only [rowProgram, h]

/-- Before a stop that is not behind its line such a program does nothing. -/
theorem run_rowProgram {conditional : Option Text} {limits : Limits} {stop : Nat}
    (h : stop ≤ index) :
    (rowProgram d index line header conditional bounds tail after below).run limits stop =
      pure () := by
  have hlt : ¬index < stop := Nat.not_lt.2 h
  cases conditional with
  | some cond => rw [rowProgram_some, Program.run, if_neg hlt]
  | none =>
    cases hloop : loop? d header with
    | some head => rw [rowProgram_of_loop hloop, Program.run, if_neg hlt]
    | none => rw [rowProgram_of_no_loop hloop, Program.run, if_neg hlt]

end RowProgram

/-- A program does nothing before a stop that is not behind its first line. -/
theorem run_programAt {make : Nat → α → List α → List Row → Row} {limits : Limits} {stop : Nat}
    (hmake : ∀ index line lines rows, stop ≤ index →
      (firstProgram rows).run limits stop = pure () →
      (make index line lines rows).program.run limits stop = pure ())
    (lines : List α) (index : Nat) (h : stop ≤ index) :
    (programAt make lines index).run limits stop = pure () := by
  unfold programAt rowsAt
  generalize lines.drop index = below
  induction below generalizing index with
  | nil => rfl
  | cons line below ih => exact hmake index line below _ h (ih (index + 1) (by omega))

end StepTrace
