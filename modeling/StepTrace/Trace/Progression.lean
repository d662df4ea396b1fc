import StepTrace.Fault

/-!
# Progressions

A loop over a range of whole numbers runs through `start`, `start + step` and so on, strictly before
`stop` in the direction of the step. The number of values is known in advance and may be far larger
than a run can visit, so only the first ones are listed.
-/

namespace StepTrace.Progression

/-- The number of values before `stop`, for a step that is not zero. -/
def total (start stop step : Int) : Nat :=
  if 0 < step then Int.toNat ((stop - start + step - 1) / step)
  else Int.toNat ((start - stop - step - 1) / -step)

/-- The first `count` values. -/
def values (start step : Int) (count : Nat) : List Int :=
  (List.range count).map fun (k : Nat) => start + (k : Int) * step

/-- All values before `stop`. -/
def range (start stop step : Int) : List Int := values start step (total start stop step)

/-- The first values, at most `limit` of them, and the number of all. The values are those of a
range that stops behind the last of them; a limit below zero puts its stop before the start. -/
def bounded (start stop step limit : Int) : Except Fault (List Int × Nat) :=
  if step = 0 then .error .zeroStep
  else
    let total := total start stop step
    .ok (range start (start + min (total : Int) limit * step) step, total)

end StepTrace.Progression
