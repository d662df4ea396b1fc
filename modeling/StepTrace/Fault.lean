import StepTrace.Number.Decimal
import StepTrace.Text.Quoted

/-!
# Faults

The causes for which a run ends without a trace. Nothing else does: what cannot be understood is
worth 0, false or an entry without effect.
-/

namespace StepTrace

/-- What a whole number has to become a double for. -/
inductive Use where
  /-- To be the index of an element. -/
  | index
  /-- To be written with a set number of places. -/
  | places
  /-- To be added to a double. -/
  | total
deriving DecidableEq, Repr

/-- Why a computation cannot be finished. -/
inductive Fault where
  /-- A whole number has to become a double and is too large for one. -/
  | tooLarge {use : Use}
  /-- The key of a placeholder consists of digit characters and is no number. -/
  | notAnIndex (key : Text)
  /-- A clause of a conditional has no condition. -/
  | noCondition
  /-- A message has a place for an argument that is not given. -/
  | missingArgument (name : Text)
  /-- A range with step zero. -/
  | zeroStep
  /-- A whole number has more digits than can be read. -/
  | tooManyDigits (count : Nat)
deriving DecidableEq, Repr

/-- The text of a fault, for those that have one. -/
def Fault.message? : Fault → Option Text
  | .notAnIndex key =>
    some ("invalid literal for int() with base 10: ".toList ++ Text.quoted key)
  | .tooManyDigits count =>
    some ("Exceeds the limit (4300 digits) for integer string conversion: value has ".toList ++
      Text.ofNat count ++
      " digits; use sys.set_int_max_str_digits() to increase the limit".toList)
  | _ => none

end StepTrace
