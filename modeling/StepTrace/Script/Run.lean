import StepTrace.Script.Basic
import StepTrace.Trace.Basic

/-!
# Running scripts

A script runs on a machine with a program counter, variables, an output and a counter for every loop
that is under way. A step runs one instruction and gives one entry. Lines that are passed over give
none. The run ends behind the last line, or at the limit of entries.

A loop takes its count when it is entered from above. Its end counts down and goes back to the line
behind its start as long as something is left.
-/

namespace StepTrace.Script

/-- The machine between two steps. -/
structure Machine where
  /-- The next line. -/
  next : Nat
  store : Store
  output : Transcript
  /-- What is left of each loop under way, by its first line. -/
  counters : List (Nat × Number)
deriving Repr

/-- A step of a script. -/
structure ScriptEntry where
  step : Nat
  line : Text
  note : Text
  store : Store
deriving Repr

namespace Machine

/-- The machine before the first step. -/
def start : Machine := ⟨0, .empty, .empty, []⟩

/-- Forget the counter of a loop. -/
def dropCounter (m : Machine) (line : Nat) : Machine :=
  { m with counters := m.counters.filter (·.1 ≠ line) }

/-- Set the counter of a loop. -/
def setCounter (m : Machine) (line : Nat) (left : Number) : Machine :=
  { m with counters := (line, left) :: (m.dropCounter line).counters }

/-- Go on at a line. -/
def goto (m : Machine) (line : Nat) : Machine := { m with next := line }

end Machine

/-- Nothing is left. -/
def isUsedUp (left : Number) : Bool := Number.compares .le left .zero

/-- A count that is not above zero counts as zero. -/
def loopCount (n : Number) : Number := if Number.compares .gt n .zero then n else .zero

/-- One less. -/
def oneLess (n : Number) : Number := (Number.combine? .sub n (.int 1)).getD n

/-- Run the instruction on a line: its note, and the machine after it. -/
def Instruction.run (jumps : Jumps) (line : Nat) (m : Machine) : Instruction → Text × Machine
  | set name value =>
    let n := resolve m.store value
    ("set ".toList ++ name ++ " = ".toList ++ n.display,
      { m with store := m.store.insert name (.num n), next := line + 1 })
  | combine command op name value =>
    let n := resolve m.store value
    let result := Number.apply op (m.store.number name) n
    (command ++ [' '] ++ name ++ [' '] ++ n.display,
      { m with store := m.store.insert name (.num result), next := line + 1 })
  | print value =>
    let shown := (resolve m.store value).display
    ("print ".toList ++ shown, { m with output := m.output.push shown, next := line + 1 })
  | enterIf left sign right =>
    if holds m.store left sign right then ("enter if".toList, m.goto (line + 1))
    else ("skip if".toList, m.goto ((jumps.ifEnd? line).getD line + 1))
  | endIf => ("end if".toList, m.goto (line + 1))
  | enterLoop count =>
    let left := (m.counters.lookup line).getD (loopCount (resolve m.store count))
    if isUsedUp left then
      ("skip loop".toList, (m.dropCounter line).goto ((jumps.loopEnd? line).getD line + 1))
    else ("loop x".toList ++ left.display, (m.setCounter line left).goto (line + 1))
  | endLoop =>
    match jumps.loopStart? line with
    | none => ("unmatched end".toList, m.goto (line + 1))
    | some start =>
      let left := oneLess ((m.counters.lookup start).getD .zero)
      if isUsedUp left then ("end loop".toList, (m.dropCounter start).goto (line + 1))
      else
        ("repeat loop (".toList ++ left.display ++ " left)".toList,
          (m.setCounter start left).goto (start + 1))
  | unknown => ("unknown command".toList, m.goto (line + 1))

/-- A script with its jumps. -/
structure Prepared where
  lines : List Text
  jumps : Jumps
deriving Repr

/-- The lines of a script between line feeds. -/
def Prepared.ofText (source : Text) : Prepared :=
  ⟨source.feedLines, Jumps.ofLines source.feedLines⟩

/-- The first line from a place on that is not passed over, trimmed, and its index. -/
def fetchFrom? : Nat → List Text → Option (Nat × Text)
  | _, [] => none
  | index, line :: rest =>
    if isPassed line then fetchFrom? (index + 1) rest else some (index, line.trim)

/-- The line to run next. -/
def Prepared.fetch? (p : Prepared) (m : Machine) : Option (Nat × Text) :=
  fetchFrom? m.next (p.lines.drop m.next)

/-- One step: the line, its note, and the machine after it. At the end there is none. -/
def Prepared.step? (p : Prepared) (m : Machine) : Option (Text × Text × Machine) :=
  (p.fetch? m).map fun (index, line) =>
    let (note, m) := (Instruction.ofWords line.words).run p.jumps index m
    (line, note, m)

/-- At most `left` steps: the entries, numbered from `number` on, and the machine at the end. -/
def Prepared.steps (p : Prepared) : (left number : Nat) → Machine → List ScriptEntry × Machine
  | 0, _, m => ([], m)
  | left + 1, number, m =>
    match p.step? m with
    | none => ([], m)
    | some (line, note, m) =>
      let (entries, last) := p.steps left (number + 1) m
      (⟨number, line, note, m.store⟩ :: entries, last)

/-- What a script printed and its trace. -/
structure Result where
  output : List Text
  trace : List ScriptEntry
deriving Repr

/-- Run a script. -/
def run (limits : Limits) (source : Text) : Result :=
  let (trace, last) := (Prepared.ofText source).steps limits.entries.toNat 1 .start
  ⟨last.output.toList, trace⟩

end StepTrace.Script
