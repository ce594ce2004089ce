import Formula.Proofs.Pointwise
import Formula.Proofs.VariableNames

/-!
# Names that a tree does not read

Evaluation of a tree sees of an environment just what it binds the listed names of the tree
to. Whatever is done to another name leaves the value as it is : the name may be bound, bound
anew or removed (`Expr.evaluate_insert_of_not_mem`, `Expr.evaluate_erase_of_not_mem`), and a
formula may be sampled over it, which binds it to point after point
(`Sampling.evaluate_envAfter`, `Sampling.sampleAt_of_not_mem`).

`Expr.evaluate_reads_varNames` puts this together with what the listed names are.
-/

namespace Formula

namespace Expr

variable {e : Expr} {name : String}

/-- Binding a name that a tree does not read leaves its value as it is. -/
theorem evaluate_insert_of_not_mem (h : name ∉ e.varNames) (env : Environment) (value : Float) :
    e.evaluate (env.insert name value) = e.evaluate env := by
  refine e.evaluate_congr fun other hother => ?_
  have hne : other ≠ name := fun heq => h (heq ▸ hother)
  rw [Environment.get?_insert, if_neg hne]

/-- Removing a name that a tree does not read leaves its value as it is. -/
theorem evaluate_erase_of_not_mem (h : name ∉ e.varNames) (env : Environment) :
    e.evaluate (env.erase name) = e.evaluate env := by
  refine e.evaluate_congr fun other hother => ?_
  have hne : other ≠ name := fun heq => h (heq ▸ hother)
  rw [Environment.get?_erase, if_neg hne]

/-- A tree has the value that it has with no bindings, if none of its names is bound. -/
theorem compute_eq_evaluate {env : Environment} (h : ∀ name ∈ e.varNames, env.get? name = none) :
    e.compute = e.evaluate env :=
  e.evaluate_congr fun name hname => by rw [h name hname, Environment.get?_empty]

end Expr

namespace Sampling

variable {s : Sampling}

/-- What a pass through a range leaves bound makes no difference to a tree that does not read
the sampled name. -/
theorem evaluate_envAfter {e : Expr} (h : s.variableName ∉ e.varNames) :
    e.evaluate s.envAfter = e.evaluate s.env := by
  unfold envAfter
  split
  · rfl
  · exact Expr.evaluate_insert_of_not_mem h _ _

/-- A formula that does not read the sampled name has one value at all points. -/
theorem sampleAt_of_not_mem (h : s.variableName ∉ s.tree.varNames) (k : Nat) :
    s.sampleAt k = ⟨s.range.point k, s.tree.evaluate s.env⟩ := by
  rw [sampleAt, Expr.evaluate_insert_of_not_mem h]

/-- A sample of a pass, in one go or in pieces, is the sample at some index by itself. -/
theorem exists_sampleAt_of_mem {sample : Sample}
    (h : sample ∈ s.run.value.samples ∨ sample ∈ s.runPieces.value) :
    ∃ k, s.sampleAt k = sample := by
  have hpieces : s.runPieces.value = s.walkPieces 0 (pieceSizes s.range.size) := rfl
  rw [hpieces, walkPieces_eq, value_run] at h
  obtain h | h := h
  · obtain ⟨k, -, hk⟩ := List.mem_map.mp (List.mem_toArray.mp h)
    exact ⟨k, hk⟩
  · obtain ⟨k, -, hk⟩ := List.mem_map.mp (List.mem_toArray.mp h)
    exact ⟨k, hk⟩

end Sampling

/-- The listed names of a tree are in ascending order, and they are the names of its variables.
Environments that agree on them give the tree the same value. So its value stays as it is when
another name is bound or removed, and when a formula is sampled over another name, at every
point and afterwards. With none of its names bound it has the value that it has with no
bindings at all. -/
theorem Expr.evaluate_reads_varNames (e : Expr) :
    e.varNames.Pairwise (· < ·) ∧ (∀ name, name ∈ e.varNames ↔ .var name ∈ e.subtrees) ∧
    (∀ env env' : Environment, (∀ name ∈ e.varNames, env.get? name = env'.get? name) →
      e.evaluate env = e.evaluate env') ∧
    (∀ (env : Environment) (name : String), name ∉ e.varNames →
      (∀ value, e.evaluate (env.insert name value) = e.evaluate env) ∧
      e.evaluate (env.erase name) = e.evaluate env) ∧
    (∀ s : Sampling, s.variableName ∉ e.varNames →
      e.evaluate s.run.value.env = e.evaluate s.env ∧
      (s.tree = e → ∀ sample, sample ∈ s.run.value.samples ∨ sample ∈ s.runPieces.value →
        sample.y = e.evaluate s.env)) ∧
    ∀ env : Environment, (∀ name ∈ e.varNames, env.get? name = none) →
      e.compute = e.evaluate env := by
  refine ⟨e.pairwise_varNames, fun name => e.mem_varNames_iff.trans e.reads_iff_mem_subtrees,
    fun env env' => e.evaluate_congr, fun env name hname => ⟨fun value => ?_, ?_⟩,
    fun s hname => ⟨?_, ?_⟩, fun env => compute_eq_evaluate⟩
  · exact evaluate_insert_of_not_mem hname env value
  · exact evaluate_erase_of_not_mem hname env
  · rw [Sampling.value_run]
    exact Sampling.evaluate_envAfter hname
  · rintro rfl sample hsample
    obtain ⟨k, rfl⟩ := Sampling.exists_sampleAt_of_mem hsample
    rw [Sampling.sampleAt_of_not_mem hname]

end Formula
