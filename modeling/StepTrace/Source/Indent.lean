import StepTrace.Text.Basic

/-!
# Blocks by indentation

Where indentation gives the structure, a line has a width of blanks in front, and the body of a line
is what follows as long as it is indented deeper. A further clause of a conditional stands at the
indent of its first line, right behind the body before it.
-/

namespace StepTrace

/-- A line that is not blank: as it was written, its trimmed text, and its indent. -/
structure IndentedLine where
  raw : Text
  text : Text
  indent : Nat
deriving DecidableEq, Repr

/-- The number of lines in front that are indented deeper than `parent`. -/
def bodyLength (parent : Int) (lines : List IndentedLine) : Nat :=
  (lines.takeWhile fun line => parent < line.indent).length

/-- The first line of a list is a clause with the given beginning at the given indent. -/
def isClause (beginning : Text) (indent : Int) (lines : List IndentedLine) : Bool :=
  match lines with
  | line :: _ => (line.indent : Int) == indent && line.text.startsWith beginning
  | [] => false

/-- The beginning of a last clause. -/
def elseBeginning : Text := "else".toList

/-- The beginning of a clause with a condition. -/
def elifBeginning : Text := "elif ".toList

end StepTrace
