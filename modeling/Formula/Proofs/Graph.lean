import Formula.Proofs.Pointwise
import Formula.Proofs.UncachedAnswers
import Formula.Proofs.VariableNames

/-!
# Graphs of typed texts

What comes before a call leaves no trace in a graph (`graphAfter_eq`), so a graph is settled
by the text and the configuration. An error of reading comes before a fault of the range.
Else the samples are those of `Sampling.ofGraph`, each by itself, in an environment that
binds the variable of the graph only : the single variable of the tree, or the configured
one if the tree has none or several.

`graph_after_session` puts this together, and says what follows for the name in the
configuration. It makes no difference to a tree with at most one variable, since a tree
without variables has the same value in every environment. In a tree with several all others
are unbound.
-/

namespace Formula

/-! ## The range -/

theorem SampleRange.of_eq_ok_iff {start stop step : Float} {range : SampleRange} :
    of start stop step = .ok range ↔
      range.start = start ∧ range.stop = stop ∧ range.step = step := by
  obtain ⟨start', stop', step', hsound⟩ := range
  unfold of
  split
  next h =>
    simp only [Except.ok.injEq, SampleRange.mk.injEq]
    exact ⟨fun ⟨h1, h2, h3⟩ => ⟨h1.symm, h2.symm, h3.symm⟩,
      fun ⟨h1, h2, h3⟩ => ⟨h1.symm, h2.symm, h3.symm⟩⟩
  next error h =>
    refine ⟨(nomatch ·), ?_⟩
    rintro ⟨rfl, rfl, rfl⟩
    rw [hsound] at h
    cases h

/-- A graph starts at the configured bound. -/
theorem SampleRange.start_of_forText {raw : String} {config : Config} {range : SampleRange}
    (h : forText raw config = .ok range) : range.start = config.xMin :=
  (of_eq_ok_iff.mp h).1

/-! ## The variable -/

/-- How a tree is sampled for its graph. -/
def Sampling.ofGraph (config : Config) (tree : Expr) (range : SampleRange) : Sampling :=
  ⟨tree, (Calculator.graphVariable config tree).value, range, .empty⟩

namespace Calculator

variable {config : Config} {tree : Expr} {raw : String} {range : SampleRange}

/-- The only variable of a tree is the one that its graph is drawn over. -/
theorem graphVariable_of_single {only : String} (h : tree.varNames = [only]) :
    (graphVariable config tree).value = only := by
  simp only [graphVariable, h]
  split <;> rfl

/-- Without a variable and with several the configured one is taken. -/
theorem graphVariable_of_length_ne_one (h : tree.varNames.length ≠ 1) :
    (graphVariable config tree).value = config.variableName := by
  unfold graphVariable
  split
  next only honly =>
    rw [honly] at h
    exact absurd rfl h
  · rfl

/-- A sample of a graph : the tree where the variable alone is bound. -/
theorem sampleAt_ofGraph (k : Nat) :
    (Sampling.ofGraph config tree range).sampleAt k =
      ⟨range.point k, tree.evaluate
        (Environment.empty.insert (graphVariable config tree).value (range.point k))⟩ :=
  rfl

/-- The configured name makes no difference to a tree with at most one variable. -/
theorem sampleAt_ofGraph_of_length_le_one (h : tree.varNames.length ≤ 1) (other : String) :
    (Sampling.ofGraph { config with variableName := other } tree range).sampleAt =
      (Sampling.ofGraph config tree range).sampleAt := by
  funext k
  rw [sampleAt_ofGraph, sampleAt_ofGraph]
  match hnames : tree.varNames, h with
  | [], _ =>
    congr 1
    exact tree.evaluate_congr fun name hname => by
      rw [hnames] at hname
      cases hname
  | [only], _ => rw [graphVariable_of_single hnames, graphVariable_of_single hnames]

/-! ## The answer -/

/-- The graph of a typed text after some calls to the same calculator. -/
def graphAfter (config : Config) (calls : List Call) (raw : String) :
    Except GraphError (Array Sample) :=
  (((new config).after calls).graph raw).value.1

/-- The calls before a graph leave no trace in it. -/
theorem graphAfter_eq (config : Config) (calls : List Call) (raw : String) :
    graphAfter config calls raw = directSamples config raw (parse raw) := by
  have sound := (sound_new config).after calls
  rw [graphAfter, graph_value_fst, sound.compile_value_fst, config_after]
  rfl

theorem directSamples_eq_parse_error_iff {result : Except ParseError Expr} {error : ParseError} :
    directSamples config raw result = .error (.parse error) ↔ result = .error error := by
  cases result with
  | error error' => simp [directSamples]
  | ok tree => cases hrange : SampleRange.forText raw config <;> simp [directSamples, hrange]

theorem directSamples_eq_range_error_iff {error : RangeError} :
    directSamples config raw (.ok tree) = .error (.range error) ↔
      SampleRange.forText raw config = .error error := by
  cases hrange : SampleRange.forText raw config <;> simp [directSamples, hrange]

theorem directSamples_of_range (hrange : SampleRange.forText raw config = .ok range) :
    directSamples config raw (.ok tree) =
      .ok ((List.range range.size).map (Sampling.ofGraph config tree range).sampleAt).toArray := by
  simp only [directSamples, hrange, Sampling.value_run]
  rfl

/-- The configured name makes no difference to the graph of a tree with at most one variable. -/
theorem directSamples_of_length_le_one (h : tree.varNames.length ≤ 1) (other : String) :
    directSamples { config with variableName := other } raw (.ok tree) =
      directSamples config raw (.ok tree) := by
  have hsame : SampleRange.forText raw { config with variableName := other } =
      SampleRange.forText raw config := rfl
  cases hrange : SampleRange.forText raw config with
  | error error =>
    rw [directSamples_eq_range_error_iff.mpr hrange,
      directSamples_eq_range_error_iff.mpr (hsame.trans hrange)]
  | ok range =>
    rw [directSamples_of_range hrange, directSamples_of_range (hsame.trans hrange),
      sampleAt_ofGraph_of_length_le_one h]

/-- After every session the graph of a text is the error of reading it, whatever its range.
Else it is the fault of the range, if there is one. Else it has a sample for each point of
the range, with the value of the tree where nothing but one variable is bound, to the point :
the variable of the tree if it has just one, and the configured one if not. So the
configured name makes no difference to a tree with at most one variable, and in a tree with
more every other variable is unbound. -/
theorem graph_after_session (config : Config) (calls : List Call) (raw : String) :
    (∀ error, graphAfter config calls raw = .error (.parse error) ↔
      parse raw = .error error) ∧
    ∀ tree, parse raw = .ok tree →
      (∀ error, graphAfter config calls raw = .error (.range error) ↔
        SampleRange.forText raw config = .error error) ∧
      (∀ range, SampleRange.forText raw config = .ok range →
        ∃ samples name, graphAfter config calls raw = .ok samples ∧
          samples.size = range.size ∧
          (∀ only, tree.varNames = [only] → name = only) ∧
          (tree.varNames.length ≠ 1 → name = config.variableName) ∧
          ∀ k < range.size, ∃ x, x = config.xMin + k.toFloat * range.step ∧
            samples[k]? = some ⟨x, tree.evaluate (Environment.empty.insert name x)⟩) ∧
      (tree.varNames.length ≤ 1 → ∀ other calls',
        graphAfter { config with variableName := other } calls' raw =
          graphAfter config calls raw) ∧
      (2 ≤ tree.varNames.length → ∀ samples, graphAfter config calls raw = .ok samples →
        ∀ sample ∈ samples, ∃ env : Environment, sample.y = tree.evaluate env ∧
          env.get? config.variableName = some sample.x ∧
          ∀ name ≠ config.variableName, env.get? name = none) := by
  rw [graphAfter_eq]
  refine ⟨fun error => directSamples_eq_parse_error_iff, fun tree hparse => ?_⟩
  rw [hparse]
  refine ⟨fun error => directSamples_eq_range_error_iff, fun range hrange => ?_,
    fun hfew other calls' => ?_, fun hmany samples hsamples sample hsample => ?_⟩
  · have hstart := SampleRange.start_of_forText hrange
    refine ⟨_, (graphVariable config tree).value, directSamples_of_range hrange, by simp,
      fun only => graphVariable_of_single, graphVariable_of_length_ne_one,
      fun k hk => ⟨range.point k, ?_, ?_⟩⟩
    · rw [SampleRange.point, hstart]
    · simp [hk, sampleAt_ofGraph]
  · rw [graphAfter_eq, hparse, directSamples_of_length_le_one hfew]
  · cases hrange : SampleRange.forText raw config with
    | error error =>
      rw [directSamples_eq_range_error_iff.mpr hrange] at hsamples
      cases hsamples
    | ok range =>
      rw [directSamples_of_range hrange, Except.ok.injEq] at hsamples
      subst hsamples
      obtain ⟨k, -, rfl⟩ : ∃ k < range.size,
          (Sampling.ofGraph config tree range).sampleAt k = sample := by
        simpa using hsample
      have hname : (graphVariable config tree).value = config.variableName :=
        graphVariable_of_length_ne_one (Nat.ne_of_gt hmany)
      rw [sampleAt_ofGraph, hname]
      exact ⟨_, rfl, by simp, fun name hne => by simp [hne]⟩

end Calculator

end Formula
