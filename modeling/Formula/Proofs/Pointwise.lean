import Formula.Sampling
import Mathlib

/-!
# Samples depend on their own point only

A walk binds the variable again and again in one environment. What it was bound to before
is lost each time (`Environment.insert_insert`), so a walk that has come to an environment
which differs from the first one at the variable only goes on as a fresh one would
(`visit_eq`). The walk over any run of indices is therefore the list of the samples at
these indices by themselves (`walk_eq`), wherever the indices are cut into pieces
(`walkPieces_eq`).

`run_pointwise` puts this together : what one pass through a range returns and leaves
behind, and that every way of cutting the range into pieces returns the same.
-/

namespace Formula

namespace Environment

theorem erase_insert_self (env : Environment) (name : String) (value : Float) :
    (env.insert name value).erase name = env.erase name := by
  simp [insert, erase]

/-- Binding a name replaces what it was bound to. -/
theorem insert_insert (env : Environment) (name : String) (old new : Float) :
    (env.insert name old).insert name new = env.insert name new := by
  rw [insert, erase_insert_self, insert]

end Environment

namespace Sampling

variable (s : Sampling)

/-! ## One walk -/

/-- The environment of a walk over `count` points from the index `first` on : the last
point stays bound, if there is one. -/
def envOver (first count : Nat) : Environment :=
  if count = 0 then s.env else s.env.insert s.variableName (s.range.point (first + count - 1))

/-- A visit is not influenced by the points before it. -/
theorem insert_envOver (first count : Nat) (x : Float) :
    (s.envOver first count).insert s.variableName x = s.env.insert s.variableName x := by
  unfold envOver
  split
  · rfl
  · exact s.env.insert_insert s.variableName _ x

/-- To visit a point binds the variable to it and adds one sample. -/
theorem visit_eq (samples : Array Sample) (first count : Nat) :
    s.visit ⟨samples, s.envOver first count⟩ (first + count) =
      ⟨samples.push (s.sampleAt (first + count)), s.envOver first (count + 1)⟩ := by
  simp only [visit, insert_envOver]
  rfl

/-- A walk gives the samples at its indices, each by itself. -/
theorem walk_eq (first count : Nat) :
    s.walk first count =
      ⟨((List.range' first count).map s.sampleAt).toArray, s.envOver first count⟩ := by
  induction count with
  | zero => rfl
  | succ count ih =>
    have hstep : s.walk first (count + 1) = s.visit (s.walk first count) (first + count) :=
      Nat.fold_succ count (fun i _ w => s.visit w (first + i)) _
    rw [hstep, ih, visit_eq, List.range'_1_concat, List.map_append]
    simp

/-! ## Pieces -/

/-- Pieces give the samples at the indices of all of them. -/
theorem walkPieces_eq (first : Nat) (sizes : List Nat) :
    s.walkPieces first sizes = ((List.range' first sizes.sum).map s.sampleAt).toArray := by
  induction sizes generalizing first with
  | nil => rfl
  | cons size sizes ih =>
    rw [walkPieces, ih, walk_eq, List.sum_cons, ← List.range'_append_1, List.map_append]
    simp

/-- No point is left out or visited twice by the pieces. -/
theorem sum_pieceSizes (count : Nat) : (pieceSizes count).sum = count := by
  rw [pieceSizes, List.sum_append, List.sum_replicate_nat, List.sum_singleton]
  exact Nat.div_add_mod' count 1024

/-! ## The whole range -/

theorem envOver_size : s.envOver 0 s.range.size = s.envAfter := by
  rw [envOver, envAfter, Nat.zero_add]

theorem value_run : s.run.value =
    ⟨((List.range s.range.size).map s.sampleAt).toArray, s.envAfter⟩ := by
  rw [List.range_eq_range', ← envOver_size, ← s.walk_eq 0 s.range.size]
  rfl

/-- A sample of the whole range is the one at its index by itself. -/
theorem getElem?_samples_run (k : Nat) : s.run.value.samples[k]? = s.sampleAt? k := by
  rw [value_run, sampleAt?]
  split
  next hk => simp [hk]
  next hk => simp [Nat.not_lt.mp hk]

/-- Behind a pass the variable has the last point, and every other name what it had. -/
theorem get?_envAfter (name : String) :
    s.envAfter.get? name =
      if name = s.variableName ∧ 0 < s.range.size then some (s.range.point (s.range.size - 1))
      else s.env.get? name := by
  unfold envAfter
  split
  next hsize => simp [hsize]
  next hsize =>
    have hpos : 0 < s.range.size := Nat.pos_of_ne_zero hsize
    rw [Environment.get?_insert]
    simp only [hpos, and_true]

/-- One pass through a range gives as many samples as the range has points, each at its
point and with the value of the formula where the variable is bound to the point and all
else is as before the pass. Afterwards only the variable is bound anew, to the last point if
there is one. However the range is cut into pieces, each with a copy of the environment to
begin with, the samples are the same. -/
theorem run_pointwise :
    s.run.value.samples.size = s.range.size ∧
    (∀ k < s.range.size, ∃ x,
      x = s.range.start + k.toFloat * s.range.step ∧ s.range.points[k]? = some x ∧
      s.run.value.samples[k]? = some ⟨x, s.tree.evaluate (s.env.insert s.variableName x)⟩) ∧
    (∀ name, s.run.value.env.get? name =
      if name = s.variableName ∧ 0 < s.range.size then some (s.range.point (s.range.size - 1))
      else s.env.get? name) ∧
    (∀ sizes, sizes.sum = s.range.size → s.walkPieces 0 sizes = s.run.value.samples) ∧
    s.runPieces.value = s.run.value.samples := by
  have hpieces (sizes : List Nat) (hsum : sizes.sum = s.range.size) :
      s.walkPieces 0 sizes = s.run.value.samples := by
    rw [walkPieces_eq, hsum, value_run, List.range_eq_range']
  refine ⟨by simp [value_run], fun k hk => ?_, ?_, hpieces, hpieces _ (sum_pieceSizes _)⟩
  · refine ⟨s.range.point k, rfl, ?_, ?_⟩
    · simp [SampleRange.points, hk]
    · rw [getElem?_samples_run, sampleAt?, if_pos hk, sampleAt]
  · rw [value_run]
    exact s.get?_envAfter

/-- `k · x` at `0`, `1` and `2`, for a caller who has bound `x` already. -/
def shadowing : Sampling :=
  ⟨.binary .multiply (.var "k") (.var "x"), "x", ⟨0.0, 2.0, 1.0, by decide +kernel⟩,
    .ofList [("x", 7.0), ("k", 2.0)]⟩

theorem run_pointwise_shadowing : [1, 2].sum = shadowing.range.size ∧
    shadowing.walkPieces 0 [1, 2] = shadowing.run.value.samples ∧
    shadowing.run.value.env.get? "x" = some (shadowing.range.point 2) := by
  obtain ⟨-, -, henv, hpieces, -⟩ := shadowing.run_pointwise
  have hsize : [1, 2].sum = shadowing.range.size := by decide +kernel
  refine ⟨hsize, hpieces _ hsize, ?_⟩
  rw [henv, ← hsize]
  rfl

end Sampling

end Formula
