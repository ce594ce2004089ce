/-!
# A cache of the most recent entries

A cache holds a value for each of a few keys, the most recently used key first. Looking a
key up puts it first. Inserting a key drops the last entry if there is no more room.
-/

namespace Formula

/-- Keys with their values, the most recently used first. -/
structure Cache (α : Type) where
  capacity : Nat
  entries : List (String × α)

namespace Cache

variable {α : Type}

/-- A cache with nothing in it. -/
def empty (capacity : Nat) : Cache α :=
  ⟨capacity, []⟩

/-- The keys, the most recently used first. -/
def keys (cache : Cache α) : List String :=
  cache.entries.map Prod.fst

/-- The value of a key. -/
def get? (cache : Cache α) (key : String) : Option α :=
  cache.entries.lookup key

/-- Give a key a value and put it first. -/
def insert (cache : Cache α) (key : String) (value : α) : Cache α :=
  let others := cache.entries.filter fun entry => entry.1 ≠ key
  { cache with entries := ((key, value) :: others).take cache.capacity }

/-- Look a key up. A key that is there is put first. -/
def look (cache : Cache α) (key : String) : Option (α × Cache α) :=
  (cache.get? key).map fun value => (value, cache.insert key value)

end Cache

end Formula
