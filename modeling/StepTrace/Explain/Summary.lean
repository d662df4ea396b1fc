import StepTrace.Pattern.Basic
import StepTrace.Trace.Build

/-!
# Local explanations

A snippet is explained without help by what can be seen in it: how many lines are not blank, whether
there are words for loops and conditions in them, what the first lines are, and what it prints.
-/

namespace StepTrace.Explain

/-- The lines that are not blank. -/
def activeLines (code : Text) : List Text := code.feedLines.filter (! ·.isEmptyOrBlank)

/-- Words for loops. -/
def loopWords : Pattern := .any [.anyCase "loop", .anyCase "for", .anyCase "while"]

/-- Words for conditions. -/
def conditionWords : Pattern := .any [.anyCase "if", .anyCase "switch", .anyCase "case"]

/-- A paragraph about the snippet: the number of lines, loops and conditions. -/
def summary (l : Locale) (code : Text) : Text :=
  let lines := activeLines code
  let loops := if lines.any loopWords.occursIn then Label.localLoops else .localNoLoops
  let conditions :=
    if lines.any conditionWords.occursIn then Label.localConditions else .localNoConditions
  Text.joined [' ']
    [Label.localActiveLines.write l [("count".toList, Text.ofNat lines.length)],
     loops.write l [], conditions.write l [], Label.localHint.write l []]

/-- The most lines that are listed. -/
def listedLines : Nat := 6

/-- The first lines, numbered from 1. -/
def steps (l : Locale) (code : Text) : List Text :=
  ((activeLines code).take listedLines).mapIdx fun i line =>
    Label.answerStep.write l [("index".toList, Text.ofNat (i + 1)), ("text".toList, line.trim)]

/-- What the snippet prints within the usual limits. -/
def output (l : Locale) (dialect code : Text) : Except Stop Text :=
  match buildTrace Limits.usual dialect code with
  | .trace entries =>
    match finalOutput entries with
    | [] => .ok (Label.noOutput.write l [])
    | lines => .ok (Text.joined ['\n'] lines)
  | .fault cause => .error (.fault cause)
  | .stalled => .error .stalled

end StepTrace.Explain
