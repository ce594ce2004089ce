import Formula.Calculator
import Formula.Proofs.CacheLaws

/-!
# Sessions

A session is a sequence of calls to one calculator, of the three kinds that there are. The
calls differ in their answers, but each changes the calculator as `compile` does on its text
(`call_value_snd`), so `Calculator.use` is the one step that a proof about the state needs.

Such a step finds the text in the cache, or reads it in vain and changes nothing, or reads
it and inserts its tree under the next serial number (`compile_value`). From this follows
the invariant `Calculator.Sound` : the cache is valid and has room, every entry is what a
fresh reading of its key gives, and every serial number was given out. Of the cache itself the
proofs use just the laws for a valid cache with room.
-/

namespace Formula

/-- A call to a calculator. -/
inductive Call
  | compile (raw : String)
  | compute (raw : String)
  | graph (raw : String)

/-- The typed text of a call. -/
def Call.raw : Call → String
  | compile raw => raw
  | compute raw => raw
  | graph raw => raw

/-- What a call returns. -/
inductive Answer
  | tree (result : Except ParseError Expr)
  | outcome (outcome : Outcome)
  | samples (result : Except GraphError (Array Sample))

namespace Calculator

/-- Make a call. -/
def call (calculator : Calculator) : Call → Logged (Answer × Calculator)
  | .compile raw => do
    let (result, calculator) ← calculator.compile raw
    return (.tree (result.map Compiled.tree), calculator)
  | .compute raw => do
    let (outcome, calculator) ← calculator.compute raw
    return (.outcome outcome, calculator)
  | .graph raw => do
    let (result, calculator) ← calculator.graph raw
    return (.samples result, calculator)

/-- Make calls one after the other. -/
def run (calculator : Calculator) : List Call → Logged (List Answer × Calculator)
  | [] => return ([], calculator)
  | call :: calls => do
    let (answer, calculator) ← calculator.call call
    let (answers, calculator) ← calculator.run calls
    return (answer :: answers, calculator)

/-- The answers to calls, in order. -/
def answers (calculator : Calculator) (calls : List Call) : List Answer :=
  (calculator.run calls).value.1

/-- The calculator as it is after calls. -/
def after (calculator : Calculator) (calls : List Call) : Calculator :=
  (calculator.run calls).value.2

/-- The calculator as it is after its tree of a text was asked for. -/
def use (calculator : Calculator) (raw : String) : Calculator :=
  (calculator.compile raw).value.2

/-! ## One call -/

/-- What asking for a tree gives : an entry of the cache, or an error and the calculator as
it was, or a new tree that is now an entry. -/
theorem compile_value (calculator : Calculator) (raw : String) :
    (∃ compiled, calculator.cache.get? raw = some compiled ∧
      (calculator.compile raw).value = (.ok compiled,
        { calculator with cache := calculator.cache.insert raw compiled })) ∨
    (∃ error, calculator.cache.get? raw = none ∧ parse raw = .error error ∧
      (calculator.compile raw).value = (.error error, calculator)) ∨
    (∃ tree, calculator.cache.get? raw = none ∧ parse raw = .ok tree ∧
      (calculator.compile raw).value = (.ok ⟨calculator.treesRead, tree⟩,
        { calculator with
          cache := calculator.cache.insert raw ⟨calculator.treesRead, tree⟩
          treesRead := calculator.treesRead + 1 })) := by
  cases hget : calculator.cache.get? raw with
  | some compiled =>
    refine Or.inl ⟨compiled, rfl, ?_⟩
    rw [compile, Cache.look_of_get? hget]
    rfl
  | none =>
    have hlook : calculator.cache.look raw = none :=
      Cache.look_eq_none_iff.mpr (Cache.get?_eq_none_iff.mp hget)
    have hrun : (Reading.typed raw).run.value = parse raw := rfl
    cases hparse : parse raw with
    | error error =>
      refine Or.inr (Or.inl ⟨error, rfl, rfl, ?_⟩)
      rw [compile, hlook, Logged.value_bind, Logged.value_bind, hrun, hparse]
      rfl
    | ok tree =>
      refine Or.inr (Or.inr ⟨tree, rfl, rfl, ?_⟩)
      rw [compile, hlook, Logged.value_bind, Logged.value_bind, hrun, hparse]
      rfl

/-- The first event tells whether the text is in the cache. -/
theorem compile_events (calculator : Calculator) (raw : String) :
    ∃ later, (calculator.compile raw).events =
      (if raw ∈ calculator.cache.keys then .cacheHit raw else .cacheMiss raw) :: later := by
  by_cases hkey : raw ∈ calculator.cache.keys
  · obtain ⟨compiled, hget⟩ := Cache.mem_keys_iff.mp hkey
    rw [compile, Cache.look_of_get? hget, if_pos hkey]
    exact ⟨_, rfl⟩
  · rw [compile, Cache.look_eq_none_iff.mpr hkey, if_neg hkey]
    exact ⟨_, rfl⟩

/-- Every call changes the calculator as asking for its tree does. -/
theorem call_value_snd (calculator : Calculator) (call : Call) :
    (calculator.call call).value.2 = calculator.use call.raw := by
  have hplan : ∀ raw, (calculator.plan raw).value.2 = calculator.use raw := by
    intro raw
    rw [plan, Logged.value_bind, use]
    rcases (calculator.compile raw).value with ⟨error | compiled, next⟩
    · rfl
    · cases hrange : SampleRange.forText raw next.config <;> simp only [hrange] <;> rfl
  cases call with
  | compile raw => rfl
  | compute raw =>
    rw [Calculator.call, compute, Logged.value_bind, Logged.value_bind, Call.raw, use]
    rcases (calculator.compile raw).value with ⟨error | compiled, next⟩ <;> rfl
  | graph raw =>
    rw [Calculator.call, graph, Logged.value_bind, Logged.value_bind, Call.raw, ← hplan]
    rcases (calculator.plan raw).value with ⟨error | sampling, next⟩ <;> rfl

/-- Every call begins with the events of asking for its tree. -/
theorem call_events (calculator : Calculator) (call : Call) :
    ∃ later, (calculator.call call).events =
      (calculator.compile call.raw).events ++ later := by
  cases call with
  | compile raw => exact ⟨_, rfl⟩
  | compute raw =>
    rw [Calculator.call, compute, Logged.events_bind, Logged.events_bind, List.append_assoc]
    exact ⟨_, rfl⟩
  | graph raw =>
    rw [Calculator.call, graph, plan, Logged.events_bind, Logged.events_bind,
      Logged.events_bind, List.append_assoc, List.append_assoc]
    exact ⟨_, rfl⟩

/-! ## Many calls -/

@[simp] theorem answers_nil (calculator : Calculator) : calculator.answers [] = [] :=
  rfl

@[simp] theorem answers_cons (calculator : Calculator) (call : Call) (calls : List Call) :
    calculator.answers (call :: calls) =
      (calculator.call call).value.1 :: (calculator.use call.raw).answers calls := by
  rw [← call_value_snd]
  rfl

@[simp] theorem after_nil (calculator : Calculator) : calculator.after [] = calculator :=
  rfl

@[simp] theorem after_cons (calculator : Calculator) (call : Call) (calls : List Call) :
    calculator.after (call :: calls) = (calculator.use call.raw).after calls := by
  rw [← call_value_snd]
  rfl

theorem after_append (calculator : Calculator) (first second : List Call) :
    calculator.after (first ++ second) = (calculator.after first).after second := by
  induction first generalizing calculator with
  | nil => rfl
  | cons call first ih => rw [List.cons_append, after_cons, after_cons, ih]

/-! ## What calls preserve -/

@[simp] theorem config_use (calculator : Calculator) (raw : String) :
    (calculator.use raw).config = calculator.config := by
  rw [use]
  rcases calculator.compile_value raw with ⟨_, -, h⟩ | ⟨_, -, -, h⟩ | ⟨_, -, -, h⟩ <;> rw [h]

/-- The cache has the room that was asked for, each entry is what a fresh reading of its key
gives, and each serial number was given out. -/
structure Sound (calculator : Calculator) : Prop where
  valid : calculator.cache.Valid
  capacity_eq : calculator.cache.capacity = calculator.config.cacheCapacity
  parse_eq : ∀ entry ∈ calculator.cache.entries, parse entry.1 = .ok entry.2.tree
  serial_lt : ∀ entry ∈ calculator.cache.entries, entry.2.serial < calculator.treesRead

theorem sound_new (config : Config) : (new config).Sound :=
  ⟨Cache.valid_empty _, rfl, by simp [new, Cache.empty], by simp [new, Cache.empty]⟩

/-- There is room for at least one tree. -/
theorem Sound.room {calculator : Calculator} (sound : calculator.Sound) :
    0 < calculator.cache.capacity := by
  rw [sound.capacity_eq]
  exact calculator.config.capacity_pos

/-- An entry that is right may be put first. -/
theorem Sound.insert {calculator : Calculator} (sound : calculator.Sound) {raw : String}
    {compiled : Compiled} {count : Nat} (hparse : parse raw = .ok compiled.tree)
    (hserial : compiled.serial < count) (hcount : calculator.treesRead ≤ count) :
    Sound { calculator with
      cache := calculator.cache.insert raw compiled
      treesRead := count } := by
  refine ⟨sound.valid.insert sound.room _ _, sound.capacity_eq, fun entry hentry => ?_,
    fun entry hentry => ?_⟩
  · rcases sound.valid.mem_entries_insert sound.room hentry with rfl | hold
    · exact hparse
    · exact sound.parse_eq _ hold
  · rcases sound.valid.mem_entries_insert sound.room hentry with rfl | hold
    · exact hserial
    · exact Nat.lt_of_lt_of_le (sound.serial_lt _ hold) hcount

theorem Sound.use {calculator : Calculator} (sound : calculator.Sound) (raw : String) :
    (calculator.use raw).Sound := by
  rw [Calculator.use]
  rcases calculator.compile_value raw with ⟨compiled, hget, h⟩ | ⟨error, -, -, h⟩ |
    ⟨tree, -, hparse, h⟩ <;> rw [h]
  · have hmem := Cache.mem_entries_of_get? hget
    exact sound.insert (sound.parse_eq (raw, compiled) hmem)
      (sound.serial_lt (raw, compiled) hmem) (Nat.le_refl _)
  · exact sound
  · exact sound.insert hparse (Nat.lt_succ_self _) (Nat.le_succ _)

theorem Sound.after {calculator : Calculator} (sound : calculator.Sound)
    (calls : List Call) : (calculator.after calls).Sound := by
  induction calls generalizing calculator with
  | nil => exact sound
  | cons call calls ih =>
    rw [after_cons]
    exact ih (sound.use call.raw)

@[simp] theorem config_after (calculator : Calculator) (calls : List Call) :
    (calculator.after calls).config = calculator.config := by
  induction calls generalizing calculator with
  | nil => rfl
  | cons call calls ih => rw [after_cons, ih, config_use]

/-! ## Texts that parse and texts that do not -/

/-- A text that does not parse changes nothing. -/
theorem Sound.use_of_error {calculator : Calculator} (sound : calculator.Sound) {raw : String}
    {error : ParseError} (hparse : parse raw = .error error) :
    calculator.use raw = calculator := by
  rw [Calculator.use]
  rcases calculator.compile_value raw with ⟨compiled, hget, -⟩ | ⟨_, -, -, h⟩ |
    ⟨tree, -, hok, -⟩
  · have hok := sound.parse_eq _ (Cache.mem_entries_of_get? hget)
    rw [hparse] at hok
    nomatch hok
  · rw [h]
  · rw [hparse] at hok
    nomatch hok

/-- A text that parses is put first, with the tree that it has in the cache or else with a
new one. -/
theorem compile_of_ok (calculator : Calculator) {raw : String} {tree : Expr}
    (hparse : parse raw = .ok tree) :
    (calculator.compile raw).value.1 =
        .ok ((calculator.cache.get? raw).getD ⟨calculator.treesRead, tree⟩) ∧
      (calculator.use raw).cache = calculator.cache.insert raw
        ((calculator.cache.get? raw).getD ⟨calculator.treesRead, tree⟩) := by
  rw [use]
  rcases calculator.compile_value raw with ⟨compiled, hget, h⟩ | ⟨error, -, herror, -⟩ |
    ⟨_, hget, hok, h⟩
  · rw [h, hget]
    exact ⟨rfl, rfl⟩
  · rw [hparse] at herror
    nomatch herror
  · rw [hparse] at hok
    obtain rfl := Except.ok.inj hok
    rw [h, hget]
    exact ⟨rfl, rfl⟩

/-- The tree that was asked for is in the cache. -/
theorem Sound.get?_use_self {calculator : Calculator} (sound : calculator.Sound)
    {raw : String} {tree : Expr} (hparse : parse raw = .ok tree) :
    (calculator.use raw).cache.get? raw =
      some ((calculator.cache.get? raw).getD ⟨calculator.treesRead, tree⟩) := by
  rw [(calculator.compile_of_ok hparse).2, sound.valid.get?_insert_self sound.room]

/-- The tree that a sound calculator gives is what a fresh reading gives. -/
theorem Sound.compile_value_fst {calculator : Calculator} (sound : calculator.Sound)
    (raw : String) : (calculator.compile raw).value.1.map Compiled.tree = parse raw := by
  rcases calculator.compile_value raw with ⟨compiled, hget, h⟩ | ⟨error, -, hparse, h⟩ |
    ⟨tree, -, hparse, h⟩
  · rw [h, sound.parse_eq _ (Cache.mem_entries_of_get? hget)]
    rfl
  · rw [h, hparse]
    rfl
  · rw [h, hparse]
    rfl

end Calculator

end Formula
