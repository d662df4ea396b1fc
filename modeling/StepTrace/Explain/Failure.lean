import StepTrace.Json.Read
import StepTrace.Message.Label
import StepTrace.Pattern.Basic

/-!
# Failed requests

A failed request has a message and perhaps a status. Two causes, too many requests and an empty
account, have a text of their own. They are told by the status, by the code inside a message that
is a JSON text, or by the words of a plain message. Every other message is shown as it is.
-/

namespace StepTrace

/-- A failed request. -/
structure Failure where
  message : Text
  status : Option Value
deriving Repr

namespace Failure

/-- The causes with a text of their own. -/
inductive Cause where
  | rateLimited
  | noCredits
deriving DecidableEq, Repr

/-- The label of a cause. -/
def Cause.label : Cause → Label
  | .rateLimited => .aiRateLimited
  | .noCredits => .aiInsufficientCredits

/-- The cause with a status number. -/
def Cause.ofStatus? (n : Number) : Option Cause :=
  if n.compares .eq (.int 429) then some .rateLimited
  else if n.compares .eq (.int 402) then some .noCredits
  else none

/-- Words about too many requests. -/
def limitWords : Pattern :=
  .all [.anyCase "rate", .optional (.text "-"), .anyCase "limit"]

/-- Words about an empty account. -/
def creditWords : Pattern :=
  .any [.anyCase "credits", .anyCase "insufficient", .text "402"]

/-- The cause that the words of a plain message tell. -/
def Cause.ofWords? (message : Text) : Option Cause :=
  if limitWords.occursIn message then some .rateLimited
  else if creditWords.occursIn message then some .noCredits
  else none

/-- What is shown for the details of a JSON message, which is shown itself if they say nothing. -/
def showDetails (l : Locale) (message : Text) (details : Json) : Json :=
  let cause := match details.get? "code".toList with
    | some (.num n) => Cause.ofStatus? n
    | _ => none
  match cause with
  | some cause => .ofText (cause.label.write l [])
  | none =>
    match details.get? "message".toList with
    | some v => if v.isPresent then v else .ofText message
    | none => .ofText message

/-- What is shown for a message that looks like an object of JSON. -/
def showObject (l : Locale) (message : Text) : Except Fault Json :=
  match Json.read message with
  | .error (.tooLong digits) => .error (.tooManyDigits digits)
  | .error .malformed => .ok (.ofText message)
  | .ok payload =>
    match payload.get? "error".toList with
    | some (.object fields) => .ok (showDetails l message (.object fields))
    | _ => .ok (.ofText message)

/-- What is shown for a message without a telling status. -/
def showMessage (l : Locale) (message : Text) : Except Fault Json :=
  if message.startsWith ['\x7b'] ∧ message.endsIn '\x7d' then showObject l message
  else
    match Cause.ofWords? message with
    | some cause => .ok (.ofText (cause.label.write l []))
    | none => .ok (.ofText message)

/-- What is shown for a failure: a text, or the message of a JSON text, which may be any value. -/
def shown (l : Locale) (f : Failure) : Except Fault Json :=
  let cause := match f.status with
    | some (.num n) => Cause.ofStatus? n
    | _ => none
  match cause with
  | some cause => .ok (.ofText (cause.label.write l []))
  | none => showMessage l f.message.trim

end Failure

end StepTrace
