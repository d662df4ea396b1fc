import StepTrace.Condition

/-!
# Scripts

A script is a list of lines with one instruction each. The first word of a line tells the
instruction and the words behind it its operands; missing operands are empty. A word is a literal
or the name of a variable, and anything else is 0.

Conditionals and loops are marked by a line at their start and one at their end. Which lines belong
together is found in one pass with a stack for each of the two, so the two kinds may cross.
-/

namespace StepTrace.Script

/-! ## Instructions -/

/-- An instruction. -/
inductive Instruction where
  | set (name value : Text)
  | combine (command : Text) (op : Operator) (name value : Text)
  | print (value : Text)
  | enterIf (left sign right : Text)
  | endIf
  | enterLoop (count : Text)
  | endLoop
  | unknown
deriving DecidableEq, Repr

/-- The commands of arithmetic. -/
def commands : List (Text × Operator) :=
  [("add".toList, .add), ("sub".toList, .sub), ("mul".toList, .mul), ("div".toList, .div)]

/-- A word by its place; a missing word is empty. -/
def word (ws : List Text) (i : Nat) : Text := ws[i]?.getD []

/-- The instruction of the words of a line. -/
def Instruction.ofWords (ws : List Text) : Instruction :=
  let command := word ws 0
  if command = "set".toList then .set (word ws 1) (word ws 2)
  else if command = "print".toList then .print (word ws 1)
  else if command = "if".toList then .enterIf (word ws 1) (word ws 2) (word ws 3)
  else if command = "endif".toList then .endIf
  else if command = "loop".toList then .enterLoop (word ws 1)
  else if command = "end".toList then .endLoop
  else match commands.lookup command with
    | some op => .combine command op (word ws 1) (word ws 2)
    | none => .unknown

/-- The line is passed over: it is blank or a comment. -/
def isPassed (line : Text) : Bool := line.trim.isEmpty || line.trim.startsWith ['#']

/-! ## Values -/

/-- The value of a word: a literal, or else a variable. -/
def resolve (s : Store) (w : Text) : Number :=
  match Number.ofLiteral? w with
  | some n => n
  | none => if w.isEmpty then .zero else s.number w

/-- Whether a comparison of two words holds. An unknown sign never does. -/
def holds (s : Store) (left sign right : Text) : Bool :=
  Condition.holdsBySign sign (resolve s left) (resolve s right)

/-! ## Jumps -/

/-- Which lines belong together: the start and the end of conditionals, and those of loops. -/
structure Jumps where
  ifs : List (Nat × Nat)
  loops : List (Nat × Nat)
deriving DecidableEq, Repr

/-- The stacks of open lines, innermost first, and what has been matched. -/
structure JumpScan where
  openIfs : List Nat
  openLoops : List Nat
  jumps : Jumps
deriving DecidableEq, Repr

/-- The scan after a line. An end with nothing open is passed over. -/
def JumpScan.step (s : JumpScan) (index : Nat) (line : Text) : JumpScan :=
  let line := line.trim
  if line.startsWith "if ".toList then { s with openIfs := index :: s.openIfs }
  else if line = "endif".toList then
    match s.openIfs with
    | start :: rest =>
      { s with openIfs := rest, jumps := { s.jumps with ifs := (start, index) :: s.jumps.ifs } }
    | [] => s
  else if line.startsWith "loop ".toList then { s with openLoops := index :: s.openLoops }
  else if line = "end".toList then
    match s.openLoops with
    | start :: rest =>
      { s with
        openLoops := rest, jumps := { s.jumps with loops := (start, index) :: s.jumps.loops } }
    | [] => s
  else s

/-- The scan over lines from an index on. -/
def JumpScan.lines : JumpScan → Nat → List Text → JumpScan
  | s, _, [] => s
  | s, index, line :: rest => (s.step index line).lines (index + 1) rest

namespace Jumps

/-- The jumps of the lines of a script. -/
def ofLines (lines : List Text) : Jumps := (JumpScan.lines ⟨[], [], ⟨[], []⟩⟩ 0 lines).jumps

/-- The end of the conditional that starts on a line. -/
def ifEnd? (j : Jumps) (line : Nat) : Option Nat := j.ifs.lookup line

/-- The end of the loop that starts on a line. -/
def loopEnd? (j : Jumps) (line : Nat) : Option Nat := j.loops.lookup line

/-- The start of the loop that ends on a line. -/
def loopStart? (j : Jumps) (line : Nat) : Option Nat :=
  (j.loops.find? (·.2 = line)).map Prod.fst

end Jumps

end StepTrace.Script
