import Formula.Environment
import Formula.Expr

/-!
# Evaluation

Evaluation never fails. Division by zero, an argument outside the domain of a function
and a variable that is not bound all give an undefined or infinite number, which
`Outcome` shows as undefined.
-/

namespace Formula

namespace Expr

/-- The value of a tree. A variable that is not bound is undefined. -/
def evaluate (env : Environment) : Expr → Float
  | constant value => value
  | var name => (env.get? name).getD undefined
  | negate inner => -1.0 * inner.evaluate env
  | call function argument => function.apply (argument.evaluate env)
  | binary operator left right => operator.apply (left.evaluate env) (right.evaluate env)

/-- The value of a tree with no bindings. -/
def compute (e : Expr) : Float :=
  e.evaluate .empty

end Expr

/-- What a calculator shows for a formula. -/
inductive Outcome
  | value (x : Float)
  | undefined
  | error
  deriving DecidableEq

namespace Outcome

/-- A finite number is shown, any other is undefined. -/
def ofValue (x : Float) : Outcome :=
  if x.isFinite then .value x else .undefined

/-- The text of an outcome. -/
def text : Outcome → String
  | value x => Style.value.text x
  | undefined => "Undefined"
  | error => "Error"

end Outcome

end Formula
