import Formula.Cache
import Formula.Reading
import Formula.Sampling

/-!
# The calculator

A calculator computes and graphs typed texts, and keeps the trees of the last texts in a
cache. Every call returns its answer together with the calculator as it is afterwards.

A text that is not a formula leaves the cache as it was. Each tree that is read gets the
next serial number, by which a tree from the cache can be told from one that was read
anew.
-/

namespace Formula

/-- A tree and the number of trees that were read before it. -/
structure Compiled where
  serial : Nat
  tree : Expr

/-- Why there is no graph. -/
inductive GraphError
  | parse (error : ParseError)
  | range (error : RangeError)
  deriving DecidableEq

/-- The text of an error. -/
def GraphError.message : GraphError → String
  | parse error => error.message
  | range error => error.message

/-- A calculator with its cache. -/
structure Calculator where
  config : Config
  cache : Cache Compiled
  /-- How many trees were read. -/
  treesRead : Nat

namespace Calculator

/-- A calculator with an empty cache. -/
def new (config : Config) : Calculator :=
  ⟨config, .empty config.cacheCapacity, 0⟩

/-- The tree of a typed text, from the cache or read anew. -/
def compile (calculator : Calculator) (raw : String) :
    Logged (Except ParseError Compiled × Calculator) := do
  match calculator.cache.look raw with
  | some (compiled, cache) =>
    Logged.report (.cacheHit raw)
    return (.ok compiled, { calculator with cache := cache })
  | none =>
    Logged.report (.cacheMiss raw)
    match ← (Reading.typed raw).run with
    | .error error => return (.error error, calculator)
    | .ok tree =>
      let compiled : Compiled := ⟨calculator.treesRead, tree⟩
      return (.ok compiled,
        { calculator with
          cache := calculator.cache.insert raw compiled
          treesRead := calculator.treesRead + 1 })

/-- The outcome of a typed text, with no variable bound. -/
def compute (calculator : Calculator) (raw : String) : Logged (Outcome × Calculator) := do
  let (result, calculator) ← calculator.compile raw
  match result with
  | .ok compiled => return (.ofValue compiled.tree.compute, calculator)
  | .error error =>
    Logged.report (.failedParse raw error)
    return (.error, calculator)

/-- The variable that a tree is graphed over : its only one if it has just one, and else
the configured one. -/
def graphVariable (config : Config) (tree : Expr) : Logged String :=
  match tree.varNames with
  | [only] => do
    if only ≠ config.variableName then
      Logged.report (.graphingOver only config.variableName)
    return only
  | _ => return config.variableName

/-- How a typed text is to be sampled for its graph. -/
def plan (calculator : Calculator) (raw : String) :
    Logged (Except GraphError Sampling × Calculator) := do
  let (result, calculator) ← calculator.compile raw
  match result with
  | .error error => return (.error (.parse error), calculator)
  | .ok compiled =>
    match SampleRange.forText raw calculator.config with
    | .error error => return (.error (.range error), calculator)
    | .ok range =>
      let name ← graphVariable calculator.config compiled.tree
      return (.ok ⟨compiled.tree, name, range, .empty⟩, calculator)

/-- The graph of a typed text. -/
def graph (calculator : Calculator) (raw : String) :
    Logged (Except GraphError (Array Sample) × Calculator) := do
  let (result, calculator) ← calculator.plan raw
  match result with
  | .error error => return (.error error, calculator)
  | .ok sampling =>
    let walk ← sampling.run
    return (.ok walk.samples, calculator)

end Calculator

end Formula
