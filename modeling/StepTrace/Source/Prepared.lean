import StepTrace.Dialect.Basic
import StepTrace.Source.Brace
import StepTrace.Source.Indent
import StepTrace.Source.Statements

/-!
# Prepared lines

Before a snippet is read as a program its comments and blank lines are taken away. In an indented
dialect the lines keep their indents, tabs counted to multiples of four. In a braced dialect every
line is cut into statements, and a brace by itself joins the header before it.
-/

namespace StepTrace

/-- A line without its comments. -/
def withoutComments (markers : List Text) (t : Text) : Text :=
  markers.foldl Text.uncommented t

/-! ## Indented dialects -/

/-- The width of a tab. -/
def tabWidth : Nat := 4

/-- An indented line, unless nothing but blanks and comments is on it. -/
def indentedLine? (markers : List Text) (raw : Text) : Option IndentedLine :=
  let line := withoutComments markers (Text.expandTabs tabWidth raw)
  if line.trim.isEmpty then none else some ⟨raw, line.trim, line.indent⟩

/-- The lines of a snippet in an indented dialect. -/
def indentedLines (d : Dialect) (source : Text) : List IndentedLine :=
  source.lines.filterMap (indentedLine? d.comments)

/-- The header of a line without the colon at its end. -/
def indentedHeader (t : Text) : Text := if t.endsIn ':' then Text.trimRight t.dropLast else t

/-! ## Braced dialects -/

/-- A line that a brace by itself can join. -/
def takesBrace (t : Text) : Bool := !(t.endsIn ';' || t.endsIn '\x7b' || t.endsIn '\x7d')

/-- Join every brace by itself to the header before it. -/
def joinBraces : List Text → List Text
  | [] => []
  | [t] => [t]
  | t :: next :: rest =>
    if next = ['\x7b'] ∧ takesBrace t then (t ++ [' ', '\x7b']) :: joinBraces rest
    else t :: joinBraces (next :: rest)

/-- The statements of a line in a braced dialect. -/
def bracedStatements (markers : List Text) (raw : Text) : List Text :=
  let line := (withoutComments markers raw.uncommentedBlocks).trim
  if line.isEmpty then [] else statements line

/-- The lines of a snippet in a braced dialect: one statement, header or closing brace each. -/
def bracedLines (d : Dialect) (source : Text) : List Text :=
  joinBraces (source.lines.flatMap (bracedStatements d.comments))

/-- The header of a line without the brace that closes the block before it and the one that opens
its own. -/
def bracedHeader (t : Text) : Text :=
  let t := match t with
    | '\x7d' :: rest => Text.trimLeft rest
    | t => t
  if t.endsIn '\x7b' then Text.trimRight t.dropLast else t

/-- A line with nothing but a brace, or one that is scaffolding. -/
def isSkipped (d : Dialect) (t : Text) : Bool :=
  d.layout == .braced &&
    (t == ['\x7b'] || t == ['\x7d'] || t == ['\x7d', ';'] ||
      d.scaffolding.any (·.matchesFront t))

end StepTrace
