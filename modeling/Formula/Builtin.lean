import Formula.Arithmetic

/-!
# Builtin functions

The functions of one argument that a formula can name. A builtin is undefined on an
undefined argument.
-/

namespace Formula

/-- A builtin function. -/
inductive Builtin
  | sin
  | cos
  | tan
  | asin
  | acos
  | atan
  | sec
  | csc
  | cot
  | sqrt
  | log
  | exp
  deriving Repr, DecidableEq

namespace Builtin

/-- Every builtin, in the order in which they are listed to a user. -/
def all : List Builtin :=
  [sin, cos, tan, asin, acos, atan, sec, csc, cot, sqrt, log, exp]

/-- The name a builtin is called by. -/
def name : Builtin → String
  | sin => "sin"
  | cos => "cos"
  | tan => "tan"
  | asin => "asin"
  | acos => "acos"
  | atan => "atan"
  | sec => "sec"
  | csc => "csc"
  | cot => "cot"
  | sqrt => "sqrt"
  | log => "log"
  | exp => "exp"

/-- The builtin with a name. Case counts. -/
def ofName? (name : String) : Option Builtin :=
  all.find? fun f => f.name = name

/-- The value of a builtin at a number other than an undefined one. Angles are in
radians, and the logarithm is the natural one. -/
def value : Builtin → Float → Float
  | sin, x => x.sin
  | cos, x => x.cos
  | tan, x => x.tan
  | asin, x => x.asin
  | acos, x => x.acos
  | atan, x => x.atan
  | sec, x => 1.0 / x.cos
  | csc, x => 1.0 / x.sin
  | cot, x => 1.0 / x.tan
  | sqrt, x => x.sqrt
  | log, x => x.log
  | exp, x => x.exp

/-- The value of a builtin. -/
def apply (f : Builtin) (x : Float) : Float :=
  if x.isNaN then undefined else f.value x

/-- The form in which messages show a builtin. -/
def description (f : Builtin) : String :=
  "Builtin(\"" ++ f.name ++ "\")"

theorem mem_all (f : Builtin) : f ∈ all := by
  cases f <;> decide

@[simp] theorem ofName?_name (f : Builtin) : ofName? f.name = some f := by
  cases f <;> rfl

theorem ofName?_eq_some_iff {name : String} {f : Builtin} :
    ofName? name = some f ↔ f.name = name := by
  constructor
  · intro h
    simpa using List.find?_some h
  · rintro rfl
    simp

end Builtin

end Formula
