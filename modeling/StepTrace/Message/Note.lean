import StepTrace.Message.Label
import StepTrace.Number.Decimal

/-!
# Notes

The note of a trace entry says what the step did. It is kept as data and written out in a language
at the very end, so a run is the same in every language.
-/

namespace StepTrace

/-- What a step did. -/
inductive Note where
  /-- A label without arguments. -/
  | plain (label : Label)
  /-- A condition was evaluated. -/
  | condition (holds : Bool)
  /-- A loop over known values reached the one at a position. -/
  | progress (name value : Text) (position total : Nat)
  /-- A loop with a variable begins a round. -/
  | loopValue (name value : Text)
  /-- A loop without a variable begins a round. -/
  | iteration (position : Nat)
  /-- A note given in words. -/
  | verbatim (text : Text)
deriving DecidableEq, Repr

namespace Note

/-- The label of a truth value. -/
def truth (holds : Bool) : Label := if holds then .yes else .no

/-- A note in a language. -/
def write (l : Locale) : Note → Text
  | plain label => label.write l []
  | condition holds => Label.condition.write l [("result".toList, (truth holds).write l [])]
  | progress name value position total =>
    Label.loopProgress.write l
      [("name".toList, name), ("value".toList, value), ("index".toList, Text.ofNat position),
       ("total".toList, Text.ofNat total)]
  | loopValue name value =>
    Label.loopValue.write l [("name".toList, name), ("value".toList, value)]
  | iteration position => Label.loopIteration.write l [("index".toList, Text.ofNat position)]
  | verbatim text => text

end Note

end StepTrace
