import DecimalScript.Loop.Stack
import DecimalScript.Number.Words

/-!
# The turns of a range

A range has a turn for each value of an arithmetic progression that has not passed its end.
It is sound if it raises no concern. All of this is told in unbounded integers, whatever numbers
can hold. The check that a range is sound is done on words of 64 bits, where distances have no
sign, the least number is its own negative, and a limit can be too great to be told in millionths.
-/

namespace DecimalScript

namespace Loop

/-- The value of a turn, counted from zero, in millionths. -/
def turnValue (start step : Number) (turn : Nat) : Int := start.raw + turn * step.raw

/-- Whether a range has a turn: its value is within the end, in the direction of the step. A step
of zero has no direction. -/
def HasTurn (start stop step : Number) (turn : Nat) : Prop :=
  (0 < step.raw ∧ turnValue start step turn ≤ stop.raw) ∨
    (step.raw < 0 ∧ stop.raw ≤ turnValue start step turn)

/-- The number of turns of a range. -/
def turnCount (start stop step : Number) : Nat :=
  if step.isZero then 0 else ((stop.raw - start.raw).fdiv step.raw + 1).toNat

/-- A range that raises no concern where ranges may span so many units: its step is not zero and
does not lead away from its end, and neither its width nor its step is longer than the span. -/
structure SoundRange (span : Nat) (start stop step : Number) : Prop where
  /-- The step is not zero. -/
  step_ne : step.raw ≠ 0
  /-- The end is not farther from the start than the span. -/
  width : (stop.raw - start.raw).natAbs ≤ span * 1000000
  /-- The step is not longer than the span. -/
  length : step.raw.natAbs ≤ span * 1000000
  /-- A step upwards leads to an end that is not below the start. -/
  upwards : 0 < step.raw → start.raw ≤ stop.raw
  /-- A step downwards leads to an end that is not above the start. -/
  downwards : step.raw < 0 → stop.raw ≤ start.raw

/-- The check of a range by steps: the span is told in millionths as far as a word can hold them,
and the first concern decides. -/
def Stack.rangeIsSoundSteps (loops : Stack) (start stop step : Number) : Bool :=
  let span := Number.Word.unsigned.saturated (loops.limits.maxRangeSpan * 1000000)
  if step.isZero then false
  else if span < start.distanceSteps stop then false
  else if span < step.magnitudeSteps then false
  else if (Number.zero < step && stop < start) || (step < Number.zero && start < stop) then false
  else true

end Loop

end DecimalScript
