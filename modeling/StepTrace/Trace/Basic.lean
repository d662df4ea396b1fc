import StepTrace.Message.Note
import StepTrace.Store

/-!
# Traces

A trace is a row of entries, one for each recorded step. An entry holds the line, a note, the
variables and the output before and after the step, and what the step computed or printed.
-/

namespace StepTrace

/-- The limits of a run. Each may be zero or negative. -/
structure Limits where
  /-- How much of a trace is shown; from the end if negative. -/
  shown : Int
  /-- The rounds of a loop that depends on a condition. -/
  rounds : Int
  /-- The entries a run may record. -/
  entries : Int
deriving DecidableEq, Repr

/-- The usual limits. -/
def Limits.usual : Limits := ⟨15, 100, 10000⟩

/-- The lines printed so far, the latest first. -/
structure Transcript where
  newestFirst : List Text
deriving DecidableEq, Repr

namespace Transcript

/-- Nothing printed. -/
def empty : Transcript := ⟨[]⟩

/-- One more line. -/
def push (o : Transcript) (line : Text) : Transcript := ⟨line :: o.newestFirst⟩

/-- The lines in the order of printing. -/
def toList (o : Transcript) : List Text := o.newestFirst.reverse

@[simp] theorem toList_empty : empty.toList = [] := rfl

@[simp] theorem toList_push (o : Transcript) (line : Text) :
    (o.push line).toList = o.toList ++ [line] := by
  simp [push, toList]

end Transcript

/-- A computation `target = left operator right` and its result. -/
structure Operation where
  left : Text
  operator : Text
  right : Text
  result : Number
  target : Text
deriving Repr

/-- The variables and the output at a moment. -/
structure Snapshot where
  store : Store
  outputs : Transcript
deriving Repr

/-- A recorded step. -/
structure Entry where
  step : Nat
  line : Text
  note : Note
  before : Snapshot
  after : Snapshot
  operation : Option Operation
  output : Option Text
deriving Repr

/-- The lines printed up to the end of a trace. -/
def finalOutput (trace : List Entry) : List Text :=
  match trace.getLast? with
  | some entry => entry.after.outputs.toList
  | none => []

/-- The part of a trace that is shown: the first entries, or all but the last ones. -/
def shownPart (shown : Int) (trace : List Entry) : List Entry :=
  if 0 ≤ shown then trace.take shown.toNat else trace.take (trace.length - (-shown).toNat)

end StepTrace
