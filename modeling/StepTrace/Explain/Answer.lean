import StepTrace.Explain.Failure
import StepTrace.Explain.Summary

/-!
# Answers about a snippet

A question about a snippet is put to a remote model. Whatever comes back, there is a text to show:
an empty answer is replaced by a local one, and a failure is reported in front of a local summary.
If the snippet looks incomplete, the text says so.
-/

namespace StepTrace.Explain

/-- A paragraph break. -/
def paragraph : Text := ['\n', '\n']

/-- A text without the white space around it, or another one for an empty text. -/
def trimmedOr (default t : Text) : Text := if t.trim.isEmpty then default else t.trim

/-- The answer that is given without a remote model. -/
def localAnswer (l : Locale) (incomplete : Bool) (dialect code prompt : Text) :
    Except Stop Text := do
  let question := trimmedOr (Label.noQuestion.write l []) prompt
  let opening := if incomplete then Label.answerIncomplete else .answerBasic
  let output ← output l dialect code
  return Text.joined paragraph
    [opening.write l [("question".toList, question)],
     Label.answerSummary.write l [("summary".toList, summary l code)],
     Text.joined [' '] (steps l code),
     Label.answerOutput.write l [("output".toList, output)]]

/-- Words that say that something is missing. -/
def missingWords : Pattern := .any [.anyCase "incomplet", .anyCase "faltan", .anyCase "missing"]

/-- The notice about an incomplete snippet in front of an answer. -/
def withNotice (l : Locale) (answer : Text) : Text :=
  Label.incompleteNotice.write l [] ++ paragraph ++ answer

/-- The text shown for an answer: the local answer if it is blank, and with a notice if the snippet
looks incomplete and the answer does not say so. -/
def settle (l : Locale) (dialect code prompt answer : Text) : Except Stop Text :=
  let answer := answer.trim
  let incomplete := looksIncomplete code dialect
  if answer.isEmpty then localAnswer l incomplete dialect code prompt
  else if incomplete && !missingWords.occursIn answer then .ok (withNotice l answer)
  else .ok answer

/-- The two parts of a question to a remote model. -/
structure Question where
  system : Text
  user : Text
deriving DecidableEq, Repr

/-- The question about a snippet. -/
def Question.about (l : Locale) (code prompt : Text) : Question where
  system := Label.aiSystemPrompt.write l []
  user := Label.aiUserMessage.write l
    [("prompt".toList, trimmedOr (Label.aiDefaultPrompt.write l []) prompt), ("code".toList, code)]

/-- What comes back from a remote model. -/
inductive Response where
  | answer (value : Option Text)
  | failed (cause : Failure)
deriving Repr

/-- The dialect that is used: the given one, or the detected one if none is given. -/
def dialectOr (given code : Text) : Text := if given.isEmpty then (detect code).id else given

/-- The text shown for what came back. -/
def explanation (l : Locale) (given code prompt : Text) (response : Response) : Except Stop Text :=
  let dialect := dialectOr given code
  match response with
  | .answer value => settle l dialect code prompt (value.getD [])
  | .failed cause => do
    let text ← settle l dialect code prompt (summary l code)
    let shown ← (cause.shown l).mapError Stop.fault
    return Label.aiError.write l [] ++ ['\n'] ++ shown.plain ++ paragraph ++ text

end StepTrace.Explain
