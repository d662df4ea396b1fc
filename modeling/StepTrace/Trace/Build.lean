import StepTrace.Language
import StepTrace.Program.Run

/-!
# Building traces

The trace of a snippet under the name of its dialect, cut to the part that is shown, and a guess
whether the snippet is complete.
-/

namespace StepTrace

/-- The same outcome with another trace. -/
def Outcome.mapTrace (f : List Entry → List Entry) : Outcome → Outcome
  | .trace entries => .trace (f entries)
  | .fault cause => .fault cause
  | .stalled => .stalled

/-- The part of a snippet's trace that is shown. A blank snippet has the empty trace. -/
def buildTrace (limits : Limits) (dialect source : Text) : Outcome :=
  if dialect = Verdict.empty.id ∨ source.trim.isEmpty then .trace []
  else ((Dialect.ofId dialect).trace limits source).mapTrace (shownPart limits.shown)

/-! ## Incomplete snippets -/

/-- A header is not followed by a deeper line. -/
def hasOpenHeader : List Text → Bool
  | [] => false
  | line :: rest =>
    let isOpen :=
      match rest.find? (! ·.isEmptyOrBlank) with
      | some following => following.indent ≤ line.indent
      | none => true
    (line.trim.endsIn ':' && isOpen) || hasOpenHeader rest

/-- The braces of these languages are counted. -/
def countsBraces : Language → Bool
  | .java | .c | .cpp | .csharp | .go | .rust => true
  | _ => false

/-- The snippet looks as if it was cut off. -/
def looksIncomplete (source dialect : Text) : Bool :=
  if source.isEmptyOrBlank then true
  else match Language.ofId? dialect with
    | some .python => hasOpenHeader source.feedLines
    | some language =>
      countsBraces language && source.count '\x7b' != source.count '\x7d'
    | none => false

end StepTrace
