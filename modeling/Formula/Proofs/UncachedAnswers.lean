import Formula.Proofs.Session

/-!
# Answers without a cache

`Call.direct` is the answer to a call by itself : the text is read anew, and nothing is kept
from the calls before. A calculator gives just these answers, in every session
(`answers_eq_map_direct`), since the entries of its cache are what fresh readings give and
no call does anything else with the cache than ask for the tree of its text.
-/

namespace Formula

/-- The outcome of what was read. -/
def directOutcome : Except ParseError Expr → Outcome
  | .ok tree => .ofValue tree.compute
  | .error _ => .error

/-- The graph of what was read from a typed text. A text with an error of reading has no
other error. -/
def directSamples (config : Config) (raw : String) :
    Except ParseError Expr → Except GraphError (Array Sample)
  | .error error => .error (.parse error)
  | .ok tree =>
    match SampleRange.forText raw config with
    | .error error => .error (.range error)
    | .ok range =>
      let name := (Calculator.graphVariable config tree).value
      .ok (Sampling.run ⟨tree, name, range, .empty⟩).value.samples

/-- The answer to a call without a cache. -/
def Call.direct (config : Config) : Call → Answer
  | compile raw => .tree (parse raw)
  | compute raw => .outcome (directOutcome (parse raw))
  | graph raw => .samples (directSamples config raw (parse raw))

namespace Calculator

theorem compute_value_fst (calculator : Calculator) (raw : String) :
    (calculator.compute raw).value.1 =
      directOutcome ((calculator.compile raw).value.1.map Compiled.tree) := by
  rw [compute, Logged.value_bind]
  rcases (calculator.compile raw).value with ⟨error | compiled, next⟩ <;> rfl

theorem graph_value_fst (calculator : Calculator) (raw : String) :
    (calculator.graph raw).value.1 =
      directSamples calculator.config raw
        ((calculator.compile raw).value.1.map Compiled.tree) := by
  rw [← calculator.config_use raw, use, graph, plan, Logged.value_bind, Logged.value_bind]
  rcases (calculator.compile raw).value with ⟨error | compiled, next⟩
  · rfl
  · cases hrange : SampleRange.forText raw next.config <;>
      simp only [Except.map, directSamples, hrange] <;> rfl

/-- A sound calculator answers a call as it would without a cache. -/
theorem Sound.call_value_fst {calculator : Calculator} (sound : calculator.Sound)
    (call : Call) : (calculator.call call).value.1 = call.direct calculator.config := by
  have htree := sound.compile_value_fst call.raw
  cases call with
  | compile raw =>
    have hanswer : (calculator.call (.compile raw)).value.1 =
        .tree ((calculator.compile raw).value.1.map Compiled.tree) := rfl
    rw [hanswer, Call.direct]
    exact congrArg Answer.tree htree
  | compute raw =>
    have hanswer : (calculator.call (.compute raw)).value.1 =
        .outcome (calculator.compute raw).value.1 := rfl
    rw [hanswer, compute_value_fst, Call.direct]
    exact congrArg (fun result => Answer.outcome (directOutcome result)) htree
  | graph raw =>
    have hanswer : (calculator.call (.graph raw)).value.1 =
        .samples (calculator.graph raw).value.1 := rfl
    rw [hanswer, graph_value_fst, Call.direct]
    exact congrArg (fun result => Answer.samples (directSamples _ raw result)) htree

theorem Sound.answers_eq {calculator : Calculator} (sound : calculator.Sound)
    (calls : List Call) :
    calculator.answers calls = calls.map (Call.direct calculator.config) := by
  induction calls generalizing calculator with
  | nil => rw [answers_nil, List.map_nil]
  | cons call calls ih =>
    rw [answers_cons, ih (sound.use call.raw), sound.call_value_fst, config_use, List.map_cons]

/-- In every session the answers are those without a cache, and every entry of the cache
that the session leaves behind is what a fresh reading of its key gives. -/
theorem answers_eq_map_direct (config : Config) (calls : List Call) :
    (new config).answers calls = calls.map (Call.direct config) ∧
      ∀ entry ∈ ((new config).after calls).cache.entries,
        parse entry.1 = .ok entry.2.tree :=
  ⟨(sound_new config).answers_eq calls, ((sound_new config).after calls).parse_eq⟩

end Calculator

end Formula
