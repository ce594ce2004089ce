import Formula.Arithmetic

/-!
# Binary operators

The seven operators in three tiers. A formula is a sum of products of powers of terms :
an operator of the `power` tier binds tightest, one of the `sum` tier loosest.
-/

namespace Formula

/-- How tightly an operator binds. -/
inductive Tier
  | sum
  | product
  | power
  deriving Repr, DecidableEq

/-- A binary operator. -/
inductive Operator
  | add
  | subtract
  | multiply
  | divide
  | modulo
  | power
  | nthRoot
  deriving Repr, DecidableEq

namespace Operator

/-- Every operator. -/
def all : List Operator :=
  [add, subtract, multiply, divide, modulo, power, nthRoot]

/-- The character an operator is written with. -/
def symbol : Operator → Char
  | add => '+'
  | subtract => '-'
  | multiply => '*'
  | divide => '/'
  | modulo => '%'
  | power => '^'
  | nthRoot => '@'

/-- The operator written with a character. -/
def ofSymbol? (c : Char) : Option Operator :=
  all.find? fun op => op.symbol = c

/-- The name an operator has in messages. -/
def name : Operator → String
  | add => "Add"
  | subtract => "Subtract"
  | multiply => "Multiply"
  | divide => "Divide"
  | modulo => "Modulo"
  | power => "Power"
  | nthRoot => "NthRoot"

/-- The tier an operator belongs to. -/
def tier : Operator → Tier
  | add | subtract => .sum
  | multiply | divide | modulo => .product
  | power | nthRoot => .power

/-- The value of an operator. The remainder has the sign of the dividend, and the root
of degree `r` is the power with exponent `1 / r`. -/
def apply : Operator → Float → Float → Float
  | add, l, r => l + r
  | subtract, l, r => l - r
  | multiply, l, r => l * r
  | divide, l, r => l / r
  | modulo, l, r => remainder l r
  | power, l, r => raise l r
  | nthRoot, l, r => raise l (1.0 / r)

theorem mem_all (op : Operator) : op ∈ all := by
  cases op <;> decide

@[simp] theorem ofSymbol?_symbol (op : Operator) : ofSymbol? op.symbol = some op := by
  cases op <;> rfl

theorem symbol_injective {a b : Operator} (h : a.symbol = b.symbol) : a = b := by
  have hab : ofSymbol? a.symbol = ofSymbol? b.symbol := congrArg ofSymbol? h
  simpa using hab

theorem ofSymbol?_eq_some_iff {c : Char} {op : Operator} :
    ofSymbol? c = some op ↔ op.symbol = c := by
  constructor
  · intro h
    simpa using List.find?_some h
  · rintro rfl
    simp

end Operator

end Formula
