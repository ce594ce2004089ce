import Formula.Evaluation
import Formula.Logged
import Formula.SampleRange

/-!
# Sampling

To sample a formula is to evaluate it at every point of a range, with one variable bound
to the point. A `Sampling` names the formula, the variable, the range, and the
environment that holds the other variables.

`Sampling.run` goes through the points in order and binds the variable again and again in
one environment, so that the last point is still bound at the end. `Sampling.runPieces`
cuts the indices into pieces, each with an environment of its own, as workers that share
nothing would. `Sampling.sampleAt` is the sample at one index by itself, for a caller who
wants a few samples of a long range.
-/

namespace Formula

/-- A point and the value of a formula at it. -/
structure Sample where
  x : Float
  y : Float
  deriving DecidableEq

/-- A formula to sample over a variable. -/
structure Sampling where
  tree : Expr
  variableName : String
  range : SampleRange
  env : Environment

/-- The samples so far, and the environment as it is now. -/
structure Walk where
  samples : Array Sample
  env : Environment

namespace Sampling

/-- Go on to the point with index `k`. -/
def visit (s : Sampling) (w : Walk) (k : Nat) : Walk :=
  let x := s.range.point k
  let env := w.env.insert s.variableName x
  ⟨w.samples.push ⟨x, s.tree.evaluate env⟩, env⟩

/-- Go through `count` points from the index `first` on. -/
def walk (s : Sampling) (first count : Nat) : Walk :=
  count.fold (fun i _ w => s.visit w (first + i)) ⟨#[], s.env⟩

/-- Report that all points are sampled. -/
def announce (s : Sampling) : Logged Unit :=
  Logged.report (.sampled s.range.size s.variableName)

/-- Go through all points. -/
def run (s : Sampling) : Logged Walk := do
  s.announce
  return s.walk 0 s.range.size

/-! ## In pieces -/

/-- Go through pieces of the given sizes, one after the other from the index `first` on,
each in the environment of the sampling. -/
def walkPieces (s : Sampling) (first : Nat) : List Nat → Array Sample
  | [] => #[]
  | size :: sizes => (s.walk first size).samples ++ s.walkPieces (first + size) sizes

/-- The sizes of the pieces that `count` points are cut into. -/
def pieceSizes (count : Nat) : List Nat :=
  List.replicate (count / 1024) 1024 ++ [count % 1024]

/-- Report that all points are sampled in pieces. -/
def announcePieces (s : Sampling) : Logged Unit :=
  Logged.report (.sampledInParallel s.range.size s.variableName)

/-- Go through all points in pieces. -/
def runPieces (s : Sampling) : Logged (Array Sample) := do
  s.announcePieces
  return s.walkPieces 0 (pieceSizes s.range.size)

/-! ## One sample by itself -/

/-- The sample at an index. -/
def sampleAt (s : Sampling) (k : Nat) : Sample :=
  ⟨s.range.point k, s.tree.evaluate (s.env.insert s.variableName (s.range.point k))⟩

/-- The sample at an index, if the range has it. -/
def sampleAt? (s : Sampling) (k : Nat) : Option Sample :=
  if k < s.range.size then some (s.sampleAt k) else none

/-- The environment after all points : the last one stays bound. -/
def envAfter (s : Sampling) : Environment :=
  if s.range.size = 0 then s.env
  else s.env.insert s.variableName (s.range.point (s.range.size - 1))

end Sampling

end Formula
