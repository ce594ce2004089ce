import Formula.Arithmetic
import Formula.Config
import Formula.Decimal.Style
import Formula.Text.Occurrence

/-!
# Ranges of sample points

A range holds the points `start + k · step` that do not pass its end. The end itself is
not missed for a rounding error : a quotient may fall short of a whole number of steps
by one part in `10 ^ 9`. A range that exists is sound (`SampleRange.sound`) : its bounds
are finite and in order, its step is finite and positive, and it has at most `maxPoints`
points.
-/

namespace Formula

/-- How many points a range may have. -/
def maxPoints : Nat := 10000000

/-- Why there is no range. -/
inductive RangeError
  /-- A bound is infinite or undefined. -/
  | nonFiniteBounds (start stop : Float)
  /-- The start is above the end. -/
  | inverted (start stop : Float)
  /-- The step is not a positive finite number. -/
  | invalidStep (step : Float)
  /-- There would be too many points. -/
  | tooManyPoints (count : Float)
  deriving DecidableEq

/-- The text of an error. -/
def RangeError.message : RangeError → String
  | nonFiniteBounds start stop =>
    s!"range bounds must be finite, got {Style.plain.text start}..={Style.plain.text stop}"
  | inverted start stop =>
    s!"range start {Style.plain.text start} is greater than end {Style.plain.text stop}"
  | invalidStep step => s!"step must be finite and positive, got {Style.plain.text step}"
  | tooManyPoints count =>
    s!"range would hold {Style.plain.text count} points, at most {maxPoints} are allowed"

/-- How many points there are from `start` to `stop`, as a number that may be infinite. -/
def pointCount (start stop step : Float) : Float :=
  floor ((stop - start) / step + 1e-9) + 1.0

/-- The first fault of a range. -/
def rangeFault? (start stop step : Float) : Option RangeError :=
  if !start.isFinite || !stop.isFinite then some (.nonFiniteBounds start stop)
  else if stop < start then some (.inverted start stop)
  else if !step.isFinite || step ≤ 0.0 then some (.invalidStep step)
  else if pointCount start stop step ≤ maxPoints.toFloat then none
  else some (.tooManyPoints (pointCount start stop step))

/-- A range of sample points. -/
structure SampleRange where
  start : Float
  stop : Float
  step : Float
  sound : rangeFault? start stop step = none

namespace SampleRange

/-- The range from `start` to `stop`, unless it has a fault. -/
def of (start stop step : Float) : Except RangeError SampleRange :=
  match h : rangeFault? start stop step with
  | none => .ok ⟨start, stop, step, h⟩
  | some error => .error error

/-- How many points a range has. -/
def size (range : SampleRange) : Nat :=
  min (pointCount range.start range.stop range.step).toUInt64.toNat maxPoints

/-- The point with a given index. -/
def point (range : SampleRange) (k : Nat) : Float :=
  range.start + k.toFloat * range.step

/-- The points of a range, in order. -/
def points (range : SampleRange) : List Float :=
  (List.range range.size).map range.point

/-! ## The range of a formula -/

/-- Whether a typed text mentions the sine, the cosine or the tangent, also as a part of
another name, in letters of either case. The capital letters that count are the ASCII
ones : no other capital has one of these letters as its small form, save a dotted `İ`,
whose small form ends in a combining dot and so never runs on into the next letter. -/
def mentionsTrig (raw : String) : Bool :=
  let lowered := raw.toList.map Char.toLower
  [['s', 'i', 'n'], ['c', 'o', 's'], ['t', 'a', 'n']].any fun name => occursIn name lowered

/-- The range over which a typed text is sampled : the configured one, with the step for
trigonometric formulas if the text mentions one. -/
def forText (raw : String) (config : Config) : Except RangeError SampleRange :=
  of config.xMin config.xMax (if mentionsTrig raw then config.trigStep else config.step)

end SampleRange

end Formula
