import StepTrace.Program.Basic
import StepTrace.Source.Prepared

/-!
# Reading programs

A program is read from the last line to the first. For each line a row is kept: the program that
begins there, the chain that begins there if the line is taken as a further clause, and the line at
which the run goes on behind that chain. The row of a line refers to rows below it only, so the rows
are made by a recursion on the lines.
-/

namespace StepTrace

open Pattern

/-! ## Loops -/

/-- The variable that the start of a loop binds. -/
def boundVariable : Pattern :=
  all [capture .name name, gap, optional (text ":"), bindSign]

/-- The variable that the update of a loop changes. -/
def updatedVariable : Pattern :=
  all [optional (texts ["++", "--"]), gap, capture .name name]

/-- The variable of a loop with clauses. -/
def counter? (init update : Text) : Option Text :=
  match boundVariable.searchFrom? none init with
  | some f => f.get? .name
  | none => (updatedVariable.match? update).bind (·.get? .name)

/-- The condition of a loop; without one it goes on as long as it may. -/
def loopCondition (t : Text) : Condition :=
  if t.trim.isEmpty then .constant true else Condition.read t

/-- The head of a loop from what its pattern found. -/
def readLoop (d : Dialect) (f : Found) : LoopForm → Loop
  | .range => .range (f.getD .item) ((Text.splitParts [','] (f.getD .args)).map Expr.read)
  | .span =>
    .span (f.getD .item) (Expr.read (f.getD .low)) (Expr.read (f.getD .high))
      (!(f.getD .inclusive).isEmpty)
  | .each => .each (f.getD .item) (f.getD .items)
  | .clauses =>
    let init := (f.getD .init).trim
    let update := (f.getD .update).trim
    .guarded (Statement.readAll d init) (loopCondition (f.getD .cond))
      (Statement.readAll d update) (counter? init update)
  | .condition =>
    .guarded [] ((f.get? .cond).elim (.constant true) Condition.read) [] none

/-- The head of a loop, if the header is one. -/
def loop? (d : Dialect) (header : Text) : Option Loop :=
  (firstMatch? d.loops header).map fun (f, form) => readLoop d f form

/-- The condition of the first clause of a conditional. -/
def ifForm : Pattern := all [text "if", wordEdge, gap, capture .cond filled, textEnd]

/-! ## Rows -/

/-- What is known about the program from a line on. -/
structure Row where
  /-- The program that begins here. -/
  program : Program
  /-- The chain that begins here if the line is a further clause. -/
  chain : Chain
  /-- The line behind that chain. -/
  after : Nat
deriving Inhabited

/-- The rows of the lines behind a line, the first of which has index `first`. -/
structure Below where
  first : Nat
  rows : List Row

namespace Below

/-- The row of a line below. -/
def row? (b : Below) (line : Nat) : Option Row :=
  if line < b.first then none else b.rows[line - b.first]?

/-- The program from a line below on. -/
def program (b : Below) (line : Nat) : Program :=
  match b.row? line with
  | some row => row.program
  | none => .done

end Below

/-- The lines of a block: where its body stops and where the run goes on behind it. The body begins
on the next line. -/
structure Bounds where
  stop : Nat
  next : Nat
deriving DecidableEq, Repr

/-- What a line is, once its bounds and its further clauses are known. -/
def rowProgram (d : Dialect) (index : Nat) (line header : Text) (conditional : Option Text)
    (bounds : Bounds) (tail : Chain) (after : Nat) (below : Below) : Program :=
  let body := below.program (index + 1)
  match conditional with
  | some cond =>
    .branch index (.clause line (Condition.read cond) body bounds.stop tail) (below.program after)
  | none =>
    match loop? d header with
    | some head => .loop index line head body bounds.stop (below.program bounds.next)
    | none => .plain index line (Statement.read d line) (below.program (index + 1))

/-! ## Indented dialects -/

/-- A further clause with a condition. -/
def elifForm : Pattern := all [text "elif", wordEdge, gap, capture .cond filled, textEnd]

/-- The bounds of the block of a line. -/
def indentedBounds (index indent : Nat) (below : List IndentedLine) : Bounds :=
  let stop := index + 1 + bodyLength indent below
  ⟨stop, stop⟩

/-- The row of a line in an indented dialect. -/
def indentedRow (d : Dialect) (index : Nat) (line : IndentedLine) (lines : List IndentedLine)
    (rows : List Row) : Row :=
  let below : Below := ⟨index + 1, rows⟩
  let bounds := indentedBounds index line.indent lines
  let behind := lines.drop (bodyLength line.indent lines)
  let isFurther :=
    isClause elifBeginning line.indent behind || isClause elseBeginning line.indent behind
  let (tail, after) : Chain × Nat :=
    match (if isFurther then below.row? bounds.next else none) with
    | some row => (row.chain, row.after)
    | none => (.finished, bounds.next)
  let header := indentedHeader line.text
  let body := below.program (index + 1)
  let (chain, chainAfter) : Chain × Nat :=
    if line.text.startsWith elifBeginning then
      match (elifForm.match? header).bind (·.get? .cond) with
      | some cond => (.clause line.text (Condition.read cond) body bounds.stop tail, after)
      | none => (.malformed, bounds.next)
    else (.otherwise body bounds.stop, bounds.next)
  { program :=
      rowProgram d index line.text header ((ifForm.match? header).bind (·.get? .cond)) bounds tail
        after below
    chain := chain
    after := chainAfter }

/-- The rows of the lines of an indented snippet. -/
def indentedRows (d : Dialect) : Nat → List IndentedLine → List Row
  | _, [] => []
  | index, line :: lines =>
    let rows := indentedRows d (index + 1) lines
    indentedRow d index line lines rows :: rows

/-! ## Braced dialects -/

/-- The line begins with the word for a further clause. -/
def elseForm : Pattern := all [optional (seq (text "\x7d") gap), text "else", wordEdge]

/-- A further clause with a condition. -/
def elseIfForm : Pattern :=
  all [text "else", blanks, text "if", wordEdge, gap, capture .cond filled, textEnd]

/-- A conditional with its condition between parentheses. -/
def parenIfForm : Pattern :=
  all [optional (seq (text "else") blanks), text "if", gap, text "(", remainder, text ")", textEnd]

/-- The lines of a braced snippet and their matching braces. -/
structure BracedSource where
  lines : List Text
  braces : BraceMap

namespace BracedSource

/-- The lines of a snippet with their braces matched. -/
def ofLines (lines : List Text) : BracedSource := ⟨lines, BraceMap.ofLines lines⟩

/-- The bounds of the block of a line. Without a brace at its end the body is the line behind it. -/
def bounds (s : BracedSource) (index : Nat) (line : Text) : Bounds :=
  let count := s.lines.length
  if line.endsIn '\x7b' then
    let close := s.braces.blockEnd index count
    ⟨close, close + 1⟩
  else ⟨min (index + 2) count, min (index + 2) count⟩

/-- The line is a further clause. -/
def isElse (s : BracedSource) (index : Nat) : Bool :=
  s.lines[index]?.any elseForm.matchesFront

/-- The line with a further clause behind a body: the line on which it stops or the next one, if a
block opened there is closed. -/
def elseLine? (s : BracedSource) (stop : Nat) : Option Nat :=
  let opener :=
    if s.isElse stop then some stop
    else if s.isElse (stop + 1) then some (stop + 1)
    else none
  opener.filter fun line => (s.braces.get? line).isSome

/-- A block can begin on the line. -/
def opensBody (line header : Text) : Bool := line.endsIn '\x7b' || parenIfForm.matchesFront header

/-- The row of a line in a braced dialect. -/
def row (d : Dialect) (s : BracedSource) (index : Nat) (line : Text) (rows : List Row) : Row :=
  let below : Below := ⟨index + 1, rows⟩
  let bounds := s.bounds index line
  let header := bracedHeader line
  let further := (elseIfForm.match? header).bind (·.get? .cond)
  let (tail, after) : Chain × Nat :=
    match s.elseLine? bounds.stop with
    | none => (.finished, bounds.next)
    | some opener =>
      match below.row? opener with
      | some row => (row.chain, row.after)
      | none => (.circular line ((further.map Condition.read).getD (.constant false)), bounds.next)
  let body := below.program (index + 1)
  let (chain, chainAfter) : Chain × Nat :=
    match further with
    | some cond => (.clause line (Condition.read cond) body bounds.stop tail, after)
    | none => (.otherwise body bounds.stop, bounds.next)
  let conditional :=
    if opensBody line header then (ifForm.match? header).bind (·.get? .cond) else none
  let program :=
    if isSkipped d line then below.program (index + 1)
    else rowProgram d index line header conditional bounds tail after below
  { program := program, chain := chain, after := chainAfter }

/-- The rows of the lines from an index on. -/
def rows (d : Dialect) (s : BracedSource) : Nat → List Text → List Row
  | _, [] => []
  | index, line :: lines =>
    let below := rows d s (index + 1) lines
    row d s index line below :: below

end BracedSource

/-! ## Programs -/

/-- The program of the first row. -/
def firstProgram (rows : List Row) : Program :=
  match rows with
  | row :: _ => row.program
  | [] => .done

/-- The program of indented lines. -/
def Program.ofIndented (d : Dialect) (lines : List IndentedLine) : Program :=
  firstProgram (indentedRows d 0 lines)

/-- The program of braced lines. -/
def Program.ofBraced (d : Dialect) (lines : List Text) : Program :=
  firstProgram (BracedSource.rows d (.ofLines lines) 0 lines)

/-- Read a snippet: its program and the number of its lines. -/
def Program.read (d : Dialect) (source : Text) : Program × Nat :=
  match d.layout with
  | .indented =>
    let lines := indentedLines d source
    (.ofIndented d lines, lines.length)
  | .braced =>
    let lines := bracedLines d source
    (.ofBraced d lines, lines.length)

end StepTrace
