import StepTrace.Source.Code

/-!
# Matching braces

The braces in the code of all lines are matched from left to right and top to bottom, with a stack
of the lines that opened one. A closing brace with nothing open is passed over, and one that is
never closed has no match. A line may open several braces. What counts for it is the one that was
closed last.
-/

namespace StepTrace

/-- The lines on which blocks open and the lines on which they close, the latest match first. -/
abbrev BraceMap := List (Nat × Nat)

/-- The lines with an open brace, innermost first, and the matches so far. -/
structure BraceScan where
  stack : List Nat
  closed : BraceMap
deriving DecidableEq, Repr

namespace BraceScan

/-- The scan after a character of code on a line. -/
def step (line : Nat) (s : BraceScan) (c : Char) : BraceScan :=
  if c = '\x7b' then { s with stack := line :: s.stack }
  else if c = '\x7d' then
    match s.stack with
    | opened :: stack => ⟨stack, (opened, line) :: s.closed⟩
    | [] => s
  else s

/-- The scan after a line. -/
def line (s : BraceScan) (index : Nat) (t : Text) : BraceScan := t.code.foldl (step index) s

/-- The scan after several lines, the first of which has the given index. -/
def lines : BraceScan → Nat → List Text → BraceScan
  | s, _, [] => s
  | s, index, t :: rest => lines (s.line index t) (index + 1) rest

end BraceScan

namespace BraceMap

/-- The matches of a list of lines. -/
def ofLines (ts : List Text) : BraceMap := (BraceScan.lines ⟨[], []⟩ 0 ts).closed

/-- The line that closes the block opened on a line. -/
def get? (m : BraceMap) (line : Nat) : Option Nat := m.lookup line

/-- The line that closes the block opened on a line; without one the block runs to the end. -/
def blockEnd (m : BraceMap) (line count : Nat) : Nat := (m.get? line).getD count

end BraceMap

end StepTrace
