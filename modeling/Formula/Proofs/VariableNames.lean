import Formula.Evaluation
import Mathlib.Tactic.Common

/-!
# The names that a tree reads

The listed names of a tree are just those of its variables (`Expr.mem_varNames_iff`,
`Expr.reads_iff_mem_subtrees`), in ascending order (`Expr.pairwise_varNames`). They are all that
evaluation asks an environment for, so environments that agree on them give the same value
(`Expr.evaluate_congr`).
-/

namespace Formula

/-- A name is inserted where it keeps the list ascending. -/
theorem pairwise_insertName {name : String} {names : List String}
    (h : names.Pairwise (· < ·)) : (insertName name names).Pairwise (· < ·) := by
  induction names with
  | nil => exact List.pairwise_singleton _ _
  | cons n names ih =>
    obtain ⟨hfirst, hrest⟩ := List.pairwise_cons.mp h
    unfold insertName
    split_ifs with hlt heq
    · refine List.pairwise_cons.mpr ⟨List.forall_mem_cons.mpr ⟨hlt, fun other hother => ?_⟩, h⟩
      exact String.lt_trans hlt (hfirst other hother)
    · exact h
    · have hafter : n < name := by
        by_contra hle
        exact heq (String.le_antisymm (String.not_lt.mp hle) (String.not_lt.mp hlt))
      refine List.pairwise_cons.mpr ⟨fun other hother => ?_, ih hrest⟩
      obtain rfl | hother := mem_insertName.mp hother
      · exact hafter
      · exact hfirst other hother

namespace Expr

/-- The tree and the trees of its parts, one for each node. -/
def subtrees : Expr → List Expr
  | constant value => [constant value]
  | var name => [var name]
  | negate inner => negate inner :: inner.subtrees
  | call function argument => call function argument :: argument.subtrees
  | binary operator left right =>
    binary operator left right :: (left.subtrees ++ right.subtrees)

/-- A variable of the tree has the name. -/
def Reads (name : String) : Expr → Prop
  | constant _ => False
  | var other => name = other
  | negate inner => inner.Reads name
  | call _ argument => argument.Reads name
  | binary _ left right => left.Reads name ∨ right.Reads name

variable {name : String}

/-- The names that a tree reads are those of its variables. -/
theorem reads_iff_mem_subtrees (e : Expr) : e.Reads name ↔ var name ∈ e.subtrees := by
  induction e with
  | constant value => simp [Reads, subtrees]
  | var other => simp [Reads, subtrees]
  | negate inner ih => simp [Reads, subtrees, ih]
  | call function argument ih => simp [Reads, subtrees, ih]
  | binary op left right ihl ihr => simp [Reads, subtrees, ihl, ihr]

theorem mem_addVarNames_iff (e : Expr) {names : List String} :
    name ∈ e.addVarNames names ↔ e.Reads name ∨ name ∈ names := by
  induction e generalizing names with
  | constant value => simp [addVarNames, Reads]
  | var other => exact mem_insertName
  | negate inner ih => exact ih
  | call function argument ih => exact ih
  | binary op left right ihl ihr =>
    rw [addVarNames, ihr, ihl, Reads, or_assoc, or_left_comm]

/-- The names that are listed for a tree are those that it reads. -/
theorem mem_varNames_iff (e : Expr) : name ∈ e.varNames ↔ e.Reads name := by
  rw [varNames, mem_addVarNames_iff]
  exact or_iff_left List.not_mem_nil

theorem pairwise_addVarNames (e : Expr) {names : List String} (h : names.Pairwise (· < ·)) :
    (e.addVarNames names).Pairwise (· < ·) := by
  induction e generalizing names with
  | constant value => exact h
  | var name => exact pairwise_insertName h
  | negate inner ih => exact ih h
  | call function argument ih => exact ih h
  | binary op left right ihl ihr => exact ihr (ihl h)

/-- The names are listed in ascending order, each once. -/
theorem pairwise_varNames (e : Expr) : e.varNames.Pairwise (· < ·) :=
  e.pairwise_addVarNames List.Pairwise.nil

theorem evaluate_congr_of_reads (e : Expr) {env env' : Environment}
    (h : ∀ name, e.Reads name → env.get? name = env'.get? name) :
    e.evaluate env = e.evaluate env' := by
  induction e with
  | constant value => rfl
  | var name => rw [evaluate, evaluate, h name rfl]
  | negate inner ih => rw [evaluate, evaluate, ih h]
  | call function argument ih => rw [evaluate, evaluate, ih h]
  | binary op left right ihl ihr =>
    rw [evaluate, evaluate, ihl fun name hname => h name (.inl hname),
      ihr fun name hname => h name (.inr hname)]

/-- Evaluation depends on the names that are listed for a tree only. -/
theorem evaluate_congr (e : Expr) {env env' : Environment}
    (h : ∀ name ∈ e.varNames, env.get? name = env'.get? name) :
    e.evaluate env = e.evaluate env' :=
  e.evaluate_congr_of_reads fun name hname => h name (e.mem_varNames_iff.mpr hname)

end Expr

end Formula
