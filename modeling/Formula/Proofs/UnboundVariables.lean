import Formula.Proofs.Undefined
import Formula.Proofs.UncachedAnswers
import Formula.Proofs.VariableNames

/-!
# Variables that are not bound

A variable that is not bound is undefined, and what is computed from it is undefined, too. The
one exception is a power that has the value one by its other operand. `Expr.NeedsUnbound` goes
from the root to the variables and leaves out the operands that are ignored in this way. There
are two cases. A tree that needs a variable which is not bound is undefined
(`Expr.isNaN_of_needsUnbound`). To any other tree it makes no difference what such a variable
would be bound to (`Expr.evaluate_of_not_needsUnbound`).

So a tree with an unbound name is undefined unless a power in it ignores an operand that reads
one (`Expr.evaluate_unbound`). A calculator binds no variable, and shows a tree with a variable
as undefined with the same exception. The exception is real : `x^0` is shown as one
(`Calculator.outcomeAfter_zeroth_power`).
-/

namespace Formula

/-- The first environment has all bindings of the second one. -/
def Environment.Extends (env' env : Environment) : Prop :=
  ∀ name value, env.get? name = some value → env'.get? name = some value

namespace Expr

variable {e : Expr} {env env' : Environment}

/-- A name that the tree reads is not bound. -/
def ReadsUnbound (env : Environment) (e : Expr) : Prop :=
  ∃ name ∈ e.varNames, env.get? name = none

/-- The value of the tree depends on a variable that is not bound : one that stands in no
operand which the value of the other operand makes irrelevant. -/
def NeedsUnbound (env : Environment) : Expr → Prop
  | constant _ => False
  | var name => env.get? name = none
  | negate inner => inner.NeedsUnbound env
  | call _ argument => argument.NeedsUnbound env
  | binary operator left right =>
    (left.NeedsUnbound env ∧ ¬operator.IgnoresLeft (right.evaluate env)) ∨
      (right.NeedsUnbound env ∧ ¬operator.IgnoresRight (left.evaluate env))

/-- In the tree an operator ignores an operand that reads a name which is not bound. -/
def IgnoresUnbound (env : Environment) (e : Expr) : Prop :=
  ∃ operator left right, binary operator left right ∈ e.subtrees ∧
    ((left.ReadsUnbound env ∧ operator.IgnoresLeft (right.evaluate env)) ∨
      (right.ReadsUnbound env ∧ operator.IgnoresRight (left.evaluate env)))

/-! ## The two cases -/

/-- A tree that needs an unbound variable is undefined. -/
theorem isNaN_of_needsUnbound (h : e.NeedsUnbound env) : (e.evaluate env).isNaN = true := by
  induction e with
  | constant value => exact h.elim
  | var name =>
    have hunbound : env.get? name = none := h
    rw [evaluate, hunbound]
    exact isNaN_undefined
  | negate inner ih => exact isNaN_mul (.inr (ih h))
  | call function argument ih => exact function.isNaN_apply (ih h)
  | binary op left right ihl ihr =>
    obtain ⟨hleft, hright⟩ | ⟨hright, hleft⟩ := h
    · exact Operator.isNaN_apply_left (ihl hleft) hright
    · exact Operator.isNaN_apply_right (ihr hright) hleft

/-- To a tree that needs no unbound variable it makes no difference what the unbound variables
would be bound to. -/
theorem evaluate_of_not_needsUnbound (h : ¬e.NeedsUnbound env) (hext : env'.Extends env) :
    e.evaluate env' = e.evaluate env := by
  induction e with
  | constant value => rfl
  | var name =>
    obtain ⟨value, hvalue⟩ := Option.ne_none_iff_exists'.mp h
    rw [evaluate, evaluate, hvalue, hext name value hvalue]
  | negate inner ih => rw [evaluate, evaluate, ih h]
  | call function argument ih => rw [evaluate, evaluate, ih h]
  | binary op left right ihl ihr =>
    obtain ⟨hleft, hright⟩ := not_or.mp h
    rw [evaluate, evaluate]
    -- An operand that is needed is ignored, and then the other one is not needed : the operator
    -- gives one before and after.
    by_cases hl : left.NeedsUnbound env
    · have hignores : op.IgnoresLeft (right.evaluate env) := not_not.mp (not_and.mp hleft hl)
      have hr : ¬right.NeedsUnbound env := fun hr =>
        Operator.not_ignoresLeft_of_isNaN (isNaN_of_needsUnbound hr) hignores
      rw [ihr hr, Operator.apply_of_ignoresLeft hignores, Operator.apply_of_ignoresLeft hignores]
    by_cases hr : right.NeedsUnbound env
    · have hignores : op.IgnoresRight (left.evaluate env) := not_not.mp (not_and.mp hright hr)
      rw [ihl hl, Operator.apply_of_ignoresRight hignores, Operator.apply_of_ignoresRight hignores]
    · rw [ihl hl, ihr hr]

/-! ## What hides an unbound variable -/

theorem IgnoresUnbound.of_subtrees {part : Expr} (h : part.IgnoresUnbound env)
    (hsub : part.subtrees ⊆ e.subtrees) : e.IgnoresUnbound env := by
  obtain ⟨op, left, right, hmem, hignores⟩ := h
  exact ⟨op, left, right, hsub hmem, hignores⟩

theorem readsUnbound_iff : e.ReadsUnbound env ↔ ∃ name, e.Reads name ∧ env.get? name = none := by
  simp only [ReadsUnbound, mem_varNames_iff]

theorem readsUnbound_binary_iff {op : Operator} {left right : Expr} :
    (binary op left right).ReadsUnbound env ↔
      left.ReadsUnbound env ∨ right.ReadsUnbound env := by
  simp only [readsUnbound_iff, Reads, or_and_right, exists_or]

/-- A tree that reads an unbound name and does not need it ignores it. -/
theorem ignoresUnbound_of_not_needsUnbound (hreads : e.ReadsUnbound env)
    (h : ¬e.NeedsUnbound env) : e.IgnoresUnbound env := by
  induction e with
  | constant value =>
    obtain ⟨name, hname, -⟩ := hreads
    exact absurd hname List.not_mem_nil
  | var name =>
    obtain ⟨other, rfl, hunbound⟩ := readsUnbound_iff.mp hreads
    exact absurd hunbound h
  | negate inner ih => exact (ih hreads h).of_subtrees (List.subset_cons_self _ _)
  | call function argument ih => exact (ih hreads h).of_subtrees (List.subset_cons_self _ _)
  | binary op left right ihl ihr =>
    obtain ⟨hleft, hright⟩ := not_or.mp h
    obtain hreads | hreads := readsUnbound_binary_iff.mp hreads
    · by_cases hneeds : left.NeedsUnbound env
      · exact ⟨op, left, right, List.mem_cons_self,
          .inl ⟨hreads, not_not.mp (not_and.mp hleft hneeds)⟩⟩
      · exact (ihl hreads hneeds).of_subtrees
          (List.subset_cons_of_subset _ (List.subset_append_left _ _))
    · by_cases hneeds : right.NeedsUnbound env
      · exact ⟨op, left, right, List.mem_cons_self,
          .inr ⟨hreads, not_not.mp (not_and.mp hright hneeds)⟩⟩
      · exact (ihr hreads hneeds).of_subtrees
          (List.subset_cons_of_subset _ (List.subset_append_right _ _))

/-- A tree with an unbound name is undefined, or the name is ignored and it makes no difference
what the unbound names would be bound to. -/
theorem isNaN_or_ignoresUnbound (h : e.ReadsUnbound env) :
    (e.evaluate env).isNaN = true ∨ (e.IgnoresUnbound env ∧
      ∀ env' : Environment, env'.Extends env → e.evaluate env' = e.evaluate env) := by
  by_cases hneeds : e.NeedsUnbound env
  · exact .inl (isNaN_of_needsUnbound hneeds)
  · exact .inr ⟨ignoresUnbound_of_not_needsUnbound h hneeds,
      fun _ => evaluate_of_not_needsUnbound hneeds⟩

end Expr

/-! ## What is shown -/

theorem Outcome.ofValue_of_isNaN {x : Float} (h : x.isNaN = true) :
    Outcome.ofValue x = .undefined := by
  simp [ofValue, isFinite_of_isNaN h]

theorem Expr.readsUnbound_empty {e : Expr} (h : e.varNames ≠ []) : e.ReadsUnbound .empty := by
  obtain ⟨name, hname⟩ := List.exists_mem_of_ne_nil _ h
  exact ⟨name, hname, Environment.get?_empty name⟩

namespace Calculator

/-- The outcome of a typed text after some calls to the same calculator. -/
def outcomeAfter (config : Config) (calls : List Call) (raw : String) : Outcome :=
  (((new config).after calls).compute raw).value.1

theorem outcomeAfter_eq (config : Config) (calls : List Call) (raw : String) :
    outcomeAfter config calls raw = directOutcome (parse raw) := by
  rw [outcomeAfter, compute_value_fst, ((sound_new config).after calls).compile_value_fst]

end Calculator

/-- A tree with a name that is not bound is undefined, unless an operator in it ignores an
operand that reads such a name. Then it makes no difference what the unbound names would be
bound to. So after every session a text for a tree with a variable is shown as undefined, with
the same exception. -/
theorem Expr.evaluate_unbound (e : Expr) :
    (∀ env : Environment, e.ReadsUnbound env →
      ((e.evaluate env).isNaN = true ∧ (e.evaluate env).isFinite = false) ∨
        (e.IgnoresUnbound env ∧
          ∀ env' : Environment, env'.Extends env → e.evaluate env' = e.evaluate env)) ∧
    ∀ (config : Config) (calls : List Call) (raw : String),
      parse raw = .ok e → e.varNames ≠ [] →
        Calculator.outcomeAfter config calls raw = .undefined ∨
          (e.IgnoresUnbound .empty ∧ ∀ env : Environment, e.evaluate env = e.compute) := by
  refine ⟨fun env h => ?_, fun config calls raw hparse hnames => ?_⟩
  · exact (isNaN_or_ignoresUnbound h).imp_left fun hnan => ⟨hnan, isFinite_of_isNaN hnan⟩
  · rw [Calculator.outcomeAfter_eq, hparse, directOutcome]
    refine (isNaN_or_ignoresUnbound (readsUnbound_empty hnames)).imp Outcome.ofValue_of_isNaN
      fun ⟨hignores, hsame⟩ => ⟨hignores, fun env => hsame env fun name value hvalue => ?_⟩
    rw [Environment.get?_empty] at hvalue
    cases hvalue

/-- In `1+2^x` no operand is ignored, so the variable shows. -/
theorem Expr.evaluate_unbound_exponent :
    parse "1+2^x" = .ok (.binary .add (.constant (Float.ofScientific 1 true 0))
      (.binary .power (.constant (Float.ofScientific 2 true 0)) (.var "x"))) ∧
    Calculator.outcomeAfter .standard [.compute "1+2^x"] "1+2^x" = .undefined := by
  have h : parse "1+2^x" = .ok (.binary .add (.constant (Float.ofScientific 1 true 0))
      (.binary .power (.constant (Float.ofScientific 2 true 0)) (.var "x"))) := by decide +kernel
  have hshown := (Expr.evaluate_unbound _).2 .standard [.compute "1+2^x"] _ h (by decide)
  refine ⟨h, hshown.resolve_right fun ⟨_, hsame⟩ => ?_⟩
  -- Bound to zero the variable makes the tree two.
  exact absurd (hsame (Environment.empty.insert "x" 0.0)) (by decide +kernel)

/-- A power with the exponent zero is one, though its base is not bound. -/
theorem Calculator.outcomeAfter_zeroth_power :
    ∃ tree, parse "x^0" = .ok tree ∧ tree.ReadsUnbound .empty ∧
      (tree.evaluate .empty).isFinite = true ∧ outcomeAfter .standard [] "x^0" = .value 1.0 := by
  have h : parse "x^0" =
      .ok (.binary .power (.var "x") (.constant (Float.ofScientific 0 true 0))) := by
    decide +kernel
  refine ⟨_, h, Expr.readsUnbound_empty (by decide), by decide +kernel, ?_⟩
  rw [outcomeAfter_eq, h]
  decide +kernel

end Formula
