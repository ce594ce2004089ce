import Formula.Proofs.Recency
import Formula.Proofs.Session

/-!
# What the cache remembers

The cache after a session depends on the history of the session, the texts of its calls that
parse, in order. Its keys are the most recent distinct texts of the history, as many as
there is room for (`Remembers.after`). A tree stays in the cache for as long as its text is
among them, and a text that comes back later is read anew (`holds_after_iff`). So it is known
for any two calls on one text whether they give the same tree (`cache_after_session`).
-/

namespace Formula

/-- The texts of the calls that parse. -/
def history (calls : List Call) : List String :=
  (calls.map Call.raw).filter fun raw => (parse raw).isOk

@[simp] theorem history_nil : history [] = [] :=
  rfl

theorem history_append (first second : List Call) :
    history (first ++ second) = history first ++ history second := by
  rw [history, List.map_append, List.filter_append]
  rfl

theorem history_of_error {call : Call} {error : ParseError}
    (hparse : parse call.raw = .error error) : history [call] = [] := by
  simp [history, hparse, Except.isOk, Except.toBool]

theorem history_of_ok {call : Call} {tree : Expr} (hparse : parse call.raw = .ok tree) :
    history [call] = [call.raw] := by
  simp [history, hparse, Except.isOk, Except.toBool]

/-- Two calls gave the same tree, not just equal ones. -/
def SameTree (first second : Except ParseError Compiled) : Prop :=
  ∃ one other, first = .ok one ∧ second = .ok other ∧ one.serial = other.serial

namespace Calculator

/-! ## The keys -/

/-- The keys are the most recent distinct texts of a history. -/
def Remembers (calculator : Calculator) (texts : List String) : Prop :=
  calculator.cache.keys = texts.reverse.eraseDups.take calculator.config.cacheCapacity

theorem remembers_new (config : Config) : (new config).Remembers [] := by
  rw [Remembers, List.reverse_nil, List.eraseDups_nil, List.take_nil]
  rfl

/-- A text that parses becomes the most recent one. -/
theorem Remembers.use {calculator : Calculator} {texts : List String} {raw : String}
    {tree : Expr} (remembers : calculator.Remembers texts) (sound : calculator.Sound)
    (hparse : parse raw = .ok tree) :
    (calculator.use raw).Remembers (texts ++ [raw]) := by
  obtain ⟨-, hcache⟩ := calculator.compile_of_ok hparse
  rw [Remembers] at remembers
  rw [Remembers, hcache, config_use, sound.valid.keys_insert sound.room, sound.capacity_eq,
    remembers, recent_concat, take_cons_filter_take (nodup_eraseDups _)]

/-- One call adds its text to the history, if it parses. -/
theorem Remembers.call {calculator : Calculator} {texts : List String}
    (remembers : calculator.Remembers texts) (sound : calculator.Sound) (call : Call) :
    (calculator.use call.raw).Remembers (texts ++ history [call]) := by
  cases hparse : parse call.raw with
  | error error =>
    rw [sound.use_of_error hparse, history_of_error hparse, List.append_nil]
    exact remembers
  | ok tree =>
    rw [history_of_ok hparse]
    exact remembers.use sound hparse

/-- By induction on the calls, the keys follow the history. -/
theorem Remembers.after {calculator : Calculator} {texts : List String}
    (remembers : calculator.Remembers texts) (sound : calculator.Sound)
    (calls : List Call) :
    (calculator.after calls).Remembers (texts ++ history calls) := by
  induction calls generalizing calculator texts with
  | nil => rwa [history_nil, List.append_nil, after_nil]
  | cons call calls ih =>
    rw [after_cons, ← List.singleton_append, history_append, ← List.append_assoc]
    exact ih (remembers.call sound call) (sound.use call.raw)

/-! ## The trees -/

/-- The tree with a serial number is in the cache, under a key. -/
def Holds (calculator : Calculator) (key : String) (serial : Nat) : Prop :=
  ∃ compiled, calculator.cache.get? key = some compiled ∧ compiled.serial = serial

theorem treesRead_le_use (calculator : Calculator) (raw : String) :
    calculator.treesRead ≤ (calculator.use raw).treesRead := by
  rw [use]
  rcases calculator.compile_value raw with ⟨_, -, h⟩ | ⟨_, -, -, h⟩ | ⟨_, -, -, h⟩ <;> rw [h]
  exact Nat.le_succ _

/-- No call takes back a serial number. -/
theorem treesRead_le_after (calculator : Calculator) (calls : List Call) :
    calculator.treesRead ≤ (calculator.after calls).treesRead := by
  induction calls generalizing calculator with
  | nil => exact Nat.le_refl _
  | cons call calls ih =>
    rw [after_cons]
    exact Nat.le_trans (calculator.treesRead_le_use call.raw) (ih _)

/-- A call gives the tree with an old serial number exactly if the tree is in the cache. -/
theorem compile_serial_iff {calculator : Calculator} {key : String} {tree : Expr}
    {serial : Nat} (hparse : parse key = .ok tree) (hserial : serial < calculator.treesRead) :
    (∃ compiled, (calculator.compile key).value.1 = .ok compiled ∧
      compiled.serial = serial) ↔ calculator.Holds key serial := by
  obtain ⟨hvalue, -⟩ := calculator.compile_of_ok hparse
  rw [hvalue, Holds]
  cases calculator.cache.get? key with
  | some compiled => simp
  | none =>
    refine ⟨fun ⟨compiled, hcompiled, heq⟩ => ?_, fun ⟨_, hget, _⟩ => nomatch hget⟩
    obtain rfl := Except.ok.inj hcompiled
    exact absurd heq (Nat.ne_of_gt hserial)

/-- A tree stays in the cache if its key does. -/
theorem holds_use_iff {calculator : Calculator} (sound : calculator.Sound) {key raw : String}
    {tree : Expr} {serial : Nat} (hparse : parse raw = .ok tree)
    (hserial : serial < calculator.treesRead) :
    (calculator.use raw).Holds key serial ↔
      calculator.Holds key serial ∧ key ∈ (calculator.use raw).cache.keys := by
  obtain ⟨hvalue, hcache⟩ := calculator.compile_of_ok hparse
  rcases eq_or_ne key raw with rfl | hkey
  · -- the tree that is put first is that of the cache, or has a new serial number
    have hget := sound.get?_use_self hparse
    have hmem : key ∈ (calculator.use key).cache.keys := Cache.mem_keys_iff.mpr ⟨_, hget⟩
    rw [and_iff_left hmem, ← compile_serial_iff hparse hserial, hvalue, Holds, hget]
    simp
  · refine ⟨fun ⟨compiled, hget, hcompiled⟩ => ?_,
      fun ⟨⟨compiled, hget, hcompiled⟩, hmem⟩ => ?_⟩
    · have hmem := Cache.mem_keys_iff.mpr ⟨_, hget⟩
      refine ⟨⟨compiled, ?_, hcompiled⟩, hmem⟩
      rw [hcache] at hget hmem
      rwa [sound.valid.get?_insert_of_ne sound.room hkey _ hmem] at hget
    · refine ⟨compiled, ?_, hcompiled⟩
      rw [hcache] at hmem ⊢
      rw [sound.valid.get?_insert_of_ne sound.room hkey _ hmem, hget]

/-- A tree that is in the cache under a key that was just used is there after more calls
exactly if the key was among the most recent at every moment between. -/
theorem holds_after_iff {calculator : Calculator} (sound : calculator.Sound)
    {texts : List String} (remembers : calculator.Remembers texts) {key : String}
    {serial : Nat} (hserial : serial < calculator.treesRead)
    (holds : calculator.Holds key serial) (calls : List Call) :
    (calculator.after calls).Holds key serial ↔
      ∀ part, part <+: history calls →
        key ∈ (texts ++ part).reverse.eraseDups.take calculator.config.cacheCapacity := by
  induction calls using List.reverseRecOn with
  | nil =>
    have hkey : key ∈ calculator.cache.keys :=
      Cache.mem_keys_iff.mpr (holds.imp fun _ h => h.1)
    rw [remembers] at hkey
    simpa [holds] using hkey
  | append_singleton calls call ih =>
    have soundAfter := sound.after calls
    have hstep := (remembers.after sound calls).call soundAfter call
    rw [after_append, after_cons, after_nil, history_append]
    cases hparse : parse call.raw with
    | error error =>
      rw [soundAfter.use_of_error hparse, history_of_error hparse, List.append_nil, ih]
    | ok tree =>
      have hold := Nat.lt_of_lt_of_le hserial (calculator.treesRead_le_after calls)
      rw [Remembers, config_use, config_after] at hstep
      rw [holds_use_iff soundAfter hparse hold, hstep, ih, history_of_ok hparse,
        List.append_assoc]
      refine ⟨fun ⟨hall, hlast⟩ part hpart => ?_, fun hall => ⟨fun part hpart => ?_, ?_⟩⟩
      · rcases List.prefix_concat_iff.mp hpart with rfl | hpart
        · exact hlast
        · exact hall part hpart
      · exact hall part (hpart.trans (List.prefix_append _ _))
      · exact hall _ (List.prefix_refl _)

/-- Two calls for the tree of one text give the same tree exactly if the text parses and
always came back in time. -/
theorem sameTree_iff {calculator : Calculator} (sound : calculator.Sound)
    {texts : List String} (remembers : calculator.Remembers texts) (key : String)
    (calls : List Call) :
    SameTree (calculator.compile key).value.1
        (((calculator.use key).after calls).compile key).value.1 ↔
      (∃ tree, parse key = .ok tree) ∧
        ReturnsWithin calculator.config.cacheCapacity key (key :: (history calls ++ [key])) := by
  cases hparse : parse key with
  | error error =>
    have hfirst := sound.compile_value_fst key
    rw [hparse] at hfirst
    refine ⟨fun ⟨compiled, _, hcompiled, _⟩ => ?_, fun ⟨⟨_, htree⟩, _⟩ => nomatch htree⟩
    rw [hcompiled] at hfirst
    nomatch hfirst
  | ok tree =>
    obtain ⟨hvalue, -⟩ := calculator.compile_of_ok hparse
    have soundUse := sound.use key
    have hget := sound.get?_use_self hparse
    have hserial := soundUse.serial_lt _ (Cache.mem_entries_of_get? hget)
    have hold := Nat.lt_of_lt_of_le hserial ((calculator.use key).treesRead_le_after calls)
    have hafter := holds_after_iff soundUse (remembers.use sound hparse) hserial
      ⟨_, hget, rfl⟩ calls
    simp only [config_use, List.append_assoc, List.singleton_append] at hafter
    rw [forall_mem_take_recent_iff, ← compile_serial_iff hparse hold] at hafter
    rw [and_iff_right ⟨tree, rfl⟩, ← hafter, hvalue]
    refine ⟨fun ⟨one, other, hone, hother, heq⟩ => ⟨other, hother, ?_⟩,
      fun ⟨other, hother, heq⟩ => ⟨_, other, rfl, hother, heq.symm⟩⟩
    rw [Except.ok.inj hone, heq]

/-- The next call begins with the event of a hit exactly if its text is a key. -/
theorem hit_iff (calculator : Calculator) (call : Call) :
    (calculator.call call).events.head? = some (.cacheHit call.raw) ↔
      call.raw ∈ calculator.cache.keys := by
  obtain ⟨later, hcall⟩ := calculator.call_events call
  obtain ⟨rest, hcompile⟩ := calculator.compile_events call.raw
  rw [hcall, hcompile, List.cons_append, List.head?_cons]
  split_ifs with hkey <;> simp [hkey]

/-- After every session each key is there once, and the keys are the most recent distinct
texts of the history, as many as there is room for. The next call finds its text exactly if
it is one of them, and changes nothing if its text does not parse. Two calls for the tree of
one text give the same tree exactly if the text parses and fewer distinct others than there
is room for were used between any two of its uses that follow each other, from the first
call to the second. -/
theorem cache_after_session (config : Config) (calls : List Call) :
    ((new config).after calls).cache.keys.Nodup ∧
    ((new config).after calls).cache.keys = (history calls).reverse.eraseDups.take
      (min config.cacheCapacity (history calls).toFinset.card) ∧
    (∀ call, (((new config).after calls).call call).events.head? = some (.cacheHit call.raw) ↔
      call.raw ∈ ((new config).after calls).cache.keys) ∧
    (∀ call error, parse call.raw = .error error →
      (((new config).after calls).call call).value.2 = (new config).after calls) ∧
    ∀ key between,
      SameTree (((new config).after calls).compile key).value.1
          (((new config).after (calls ++ .compile key :: between)).compile key).value.1 ↔
        (∃ tree, parse key = .ok tree) ∧
          ReturnsWithin config.cacheCapacity key (key :: (history between ++ [key])) := by
  have sound := (sound_new config).after calls
  have remembers := (remembers_new config).after (sound_new config) calls
  rw [List.nil_append] at remembers
  have hconfig := (new config).config_after calls
  refine ⟨sound.valid.nodup, ?_, hit_iff _, fun call error hparse => ?_, fun key between => ?_⟩
  · have hlength : (history calls).reverse.eraseDups.length =
        (history calls).toFinset.card := by
      rw [length_eraseDups, List.toFinset_reverse]
    rw [remembers, hconfig, ← hlength, List.take_eq_take_min]
    rfl
  · rw [call_value_snd, sound.use_of_error hparse]
  · have hsame := sameTree_iff sound remembers key between
    rw [hconfig] at hsame
    rw [after_append, after_cons]
    exact hsame

end Calculator

end Formula
