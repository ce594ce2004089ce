import Formula.Proofs.LiteralValues
import Formula.Proofs.Origins
import Formula.Proofs.VariableNames

/-!
# Equality of trees that were read

`==` compares trees node by node, constants as numbers and builtins by their names. For trees
that are built by hand this is no equality of what the trees stand for : a tree with an undefined
constant differs from itself, and trees that equal each other may have different values, since
zero equals negative zero. The constants of a tree that is read are the values of literals, and
among such trees `==` is identity (`Expr.IsUnsigned.eq_of_beq`). So equal trees read the same
names and have the same value in every environment.
-/

namespace Formula

/-- Builtins are compared by their names. -/
theorem Builtin.beq_eq_name_beq (f g : Builtin) : (f == g) = (f.name == g.name) := by
  refine Bool.eq_iff_iff.mpr ?_
  rw [beq_iff_eq, beq_iff_eq]
  refine ⟨fun h => h ▸ rfl, fun h => ?_⟩
  have hsome : ofName? f.name = ofName? g.name := congrArg ofName? h
  simpa using hsome

namespace Expr

/-- No constant of the tree is undefined or has the negative sign. -/
def IsUnsigned (e : Expr) : Prop :=
  ∀ value, .constant value ∈ e.items → Formula.IsUnsigned value

theorem isUnsigned_of_parse {raw : String} {e : Expr} (h : parse raw = .ok e) : e.IsUnsigned := by
  intro value hvalue
  obtain ⟨position, literal, -, hliteral⟩ := exists_writtenAt h hvalue
  exact isUnsigned_of_readLiteral? hliteral

theorem IsUnsigned.argument {f : Builtin} {argument : Expr} (h : (call f argument).IsUnsigned) :
    argument.IsUnsigned :=
  fun value hvalue => h value (List.mem_cons_of_mem _ hvalue)

theorem IsUnsigned.left {op : Operator} {left right : Expr}
    (h : (binary op left right).IsUnsigned) : left.IsUnsigned :=
  fun value hvalue => h value (List.mem_append_left _ hvalue)

theorem IsUnsigned.right {op : Operator} {left right : Expr}
    (h : (binary op left right).IsUnsigned) : right.IsUnsigned :=
  fun value hvalue => h value (List.mem_append_right _ hvalue)

/-- A tree without undefined constants equals itself. -/
theorem IsUnsigned.beq_self {e : Expr} (h : e.IsUnsigned) : (e == e) = true := by
  induction e with
  | constant value => exact (h value List.mem_cons_self).beq_self
  | var name => exact beq_self_eq_true name
  | negate inner ih => exact ih h
  | call f argument ih =>
    change (f == f && argument == argument) = true
    rw [beq_self_eq_true, ih h.argument]
    rfl
  | binary op left right ihl ihr =>
    change (op == op && (left == left && right == right)) = true
    rw [beq_self_eq_true, ihl h.left, ihr h.right]
    rfl

/-- Trees without signed constants that equal each other are the same. -/
theorem IsUnsigned.eq_of_beq {a : Expr} (ha : a.IsUnsigned) :
    ∀ {b : Expr}, b.IsUnsigned → (a == b) = true → a = b := by
  induction a with
  | constant value =>
    intro b hb h
    cases b with
    | constant value' =>
      exact congrArg constant
        ((ha value List.mem_cons_self).eq_of_beq (hb value' List.mem_cons_self) h)
    | var | negate | call | binary => cases h
  | var name =>
    intro b hb h
    cases b with
    | var name' => exact congrArg var (beq_iff_eq.mp h)
    | constant | negate | call | binary => cases h
  | negate inner ih =>
    intro b hb h
    cases b with
    | negate inner' => exact congrArg negate (ih ha hb h)
    | constant | var | call | binary => cases h
  | call f argument ih =>
    intro b hb h
    cases b with
    | call g argument' =>
      obtain ⟨hfunction, hargument⟩ := Bool.and_eq_true_iff.mp h
      rw [beq_iff_eq.mp hfunction, ih ha.argument hb.argument hargument]
    | constant | var | negate | binary => cases h
  | binary op left right ihl ihr =>
    intro b hb h
    cases b with
    | binary op' left' right' =>
      obtain ⟨hop, hparts⟩ := Bool.and_eq_true_iff.mp h
      obtain ⟨hleft, hright⟩ := Bool.and_eq_true_iff.mp hparts
      rw [beq_iff_eq.mp hop, ihl ha.left hb.left hleft, ihr ha.right hb.right hright]
    | constant | var | negate | call => cases h

/-- The sign matters : the two zeros equal each other, and are not the same. -/
example : (constant 0.0 == constant (-0.0)) = true ∧ constant 0.0 ≠ constant (-0.0) := by
  decide +kernel

end Expr

/-- A tree that is read equals itself. Trees that are read and equal each other read the same
names, and they have the same value in every environment. -/
theorem beq_of_parsed {raw raw' : String} {a b : Expr} (ha : parse raw = .ok a)
    (hb : parse raw' = .ok b) :
    (a == a) = true ∧
    ((a == b) = true → a.varNames = b.varNames ∧ ∀ env, a.evaluate env = b.evaluate env) := by
  refine ⟨(Expr.isUnsigned_of_parse ha).beq_self, fun h => ?_⟩
  obtain rfl := (Expr.isUnsigned_of_parse ha).eq_of_beq (Expr.isUnsigned_of_parse hb) h
  exact ⟨rfl, fun _ => rfl⟩

/-- Two spellings of one formula. The literals differ, and so do the ways in which the trees
write one half. -/
theorem beq_of_parsed_spellings :
    parse "√(x) + 0.50" =
      .ok (.binary .add (.call .sqrt (.var "x")) (.constant (Float.ofScientific 50 true 2))) ∧
    parse "sqrt(x)+.5" =
      .ok (.binary .add (.call .sqrt (.var "x")) (.constant (Float.ofScientific 5 true 1))) ∧
    ∀ env,
      (Expr.binary .add (.call .sqrt (.var "x"))
        (.constant (Float.ofScientific 50 true 2))).evaluate env =
      (Expr.binary .add (.call .sqrt (.var "x"))
        (.constant (Float.ofScientific 5 true 1))).evaluate env := by
  have ha : parse "√(x) + 0.50" =
      .ok (.binary .add (.call .sqrt (.var "x")) (.constant (Float.ofScientific 50 true 2))) := by
    decide +kernel
  have hb : parse "sqrt(x)+.5" =
      .ok (.binary .add (.call .sqrt (.var "x")) (.constant (Float.ofScientific 5 true 1))) := by
    decide +kernel
  have hequal : (Expr.binary .add (.call .sqrt (.var "x"))
      (.constant (Float.ofScientific 50 true 2)) ==
        .binary .add (.call .sqrt (.var "x")) (.constant (Float.ofScientific 5 true 1))) = true := by
    decide +kernel
  exact ⟨ha, hb, ((beq_of_parsed ha hb).2 hequal).2⟩

end Formula
