import Formula.Builtin
import Formula.Decimal.Style
import Formula.Operator
import Formula.Text.Quoted

/-!
# Expression trees

The tree of a formula holds no values of variables, so one tree serves every
environment. Equality of trees by `==` compares constants as numbers : zero equals
negative zero, and an undefined constant differs from itself. Equality by `=` is the
finer, logical one.

`Expr.varNames` lists the names a tree reads, in ascending order and each once.
-/

namespace Formula

/-- An expression tree. -/
inductive Expr
  | constant (value : Float)
  | var (name : String)
  | negate (inner : Expr)
  | call (function : Builtin) (argument : Expr)
  | binary (operator : Operator) (left right : Expr)
  deriving BEq, DecidableEq

/-- Insert a name into an ascending list, unless it is there. -/
def insertName (name : String) : List String → List String
  | [] => [name]
  | n :: names =>
    if name < n then name :: n :: names
    else if name = n then n :: names
    else n :: insertName name names

theorem mem_insertName {a name : String} {names : List String} :
    a ∈ insertName name names ↔ a = name ∨ a ∈ names := by
  induction names with
  | nil => simp [insertName]
  | cons n names ih =>
    unfold insertName
    split
    · simp
    · split
      · simp_all
      · simp only [List.mem_cons, ih]
        exact or_left_comm

namespace Expr

/-- The number of nodes on the longest path from the root to a leaf. -/
def height : Expr → Nat
  | constant _ => 1
  | var _ => 1
  | negate inner => inner.height + 1
  | call _ argument => argument.height + 1
  | binary _ left right => max left.height right.height + 1

/-- Insert the names that a tree reads into an ascending list. -/
def addVarNames : Expr → List String → List String
  | constant _, names => names
  | var name, names => insertName name names
  | negate inner, names => inner.addVarNames names
  | call _ argument, names => argument.addVarNames names
  | binary _ left right, names => right.addVarNames (left.addVarNames names)

/-- The names that a tree reads, in ascending order. -/
def varNames (e : Expr) : List String :=
  e.addVarNames []

/-- The form in which messages show a tree : each node with the names of its parts. -/
def description : Expr → String
  | constant value => "Constant(" ++ Style.value.text value ++ ")"
  | var name => "Variable(" ++ quoted name ++ ")"
  | negate inner => "Negate(" ++ inner.description ++ ")"
  | call function argument =>
    "FunctionCall \x7b function: " ++ function.description ++ ", argument: " ++
      argument.description ++ " \x7d"
  | binary operator left right =>
    "BinaryOperation \x7b left: " ++ left.description ++ ", operator: " ++ operator.name ++
      ", right: " ++ right.description ++ " \x7d"

end Expr

end Formula
