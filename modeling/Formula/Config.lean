/-!
# Configuration

What a calculator can be set up with. The cache has room for at least one tree.
-/

namespace Formula

/-- The settings of a calculator. -/
structure Config where
  /-- How many trees the cache holds. -/
  cacheCapacity : Nat := 64
  /-- The variable that a graph is drawn over. -/
  variableName : String := "x"
  /-- The first point of a graph. -/
  xMin : Float := -100.0
  /-- The end of a graph. -/
  xMax : Float := 100.0
  /-- The distance of the points of a graph. -/
  step : Float := 0.1
  /-- The distance of the points of a trigonometric graph : ten degrees. -/
  trigStep : Float := 3.141592653589793 / 18.0
  capacity_pos : 0 < cacheCapacity := by decide

/-- The settings of a calculator that nobody has set up. -/
def Config.standard : Config :=
  {}

end Formula
