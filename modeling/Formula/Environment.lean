/-!
# Environments

The values of variables, as a list of names with their values. A name is bound at most
once : binding it again replaces its value. What an environment holds is read through
`Environment.get?`.
-/

namespace Formula

/-- Names with their values. -/
structure Environment where
  entries : List (String × Float)
  deriving DecidableEq

namespace Environment

/-- The environment with no bindings. -/
def empty : Environment :=
  ⟨[]⟩

/-- The value of a name. -/
def get? (env : Environment) (name : String) : Option Float :=
  env.entries.lookup name

/-- Remove a name. -/
def erase (env : Environment) (name : String) : Environment :=
  ⟨env.entries.filter fun entry => entry.1 ≠ name⟩

/-- Bind a name to a value, in place of what it was bound to. -/
def insert (env : Environment) (name : String) (value : Float) : Environment :=
  ⟨(name, value) :: (env.erase name).entries⟩

/-- The environment with the given bindings, of which a later one replaces an earlier
one of the same name. -/
def ofList (entries : List (String × Float)) : Environment :=
  entries.foldl (fun env entry => env.insert entry.1 entry.2) empty

@[simp] theorem get?_empty (name : String) : empty.get? name = none :=
  rfl

theorem get?_erase (env : Environment) (name other : String) :
    (env.erase name).get? other = if other = name then none else env.get? other := by
  obtain ⟨entries⟩ := env
  simp only [get?, erase]
  induction entries with
  | nil => simp
  | cons entry entries ih =>
    obtain ⟨n, v⟩ := entry
    by_cases hn : n = name
    · rw [List.filter_cons_of_neg (by simp [hn]), ih]
      by_cases ho : other = name
      · simp [ho]
      · have : (other == n) = false := by simp [hn, ho]
        simp [ho, List.lookup_cons, this]
    · rw [List.filter_cons_of_pos (by simp [hn])]
      by_cases ho : other = n
      · simp [ho, hn]
      · have : (other == n) = false := by simp [ho]
        simp only [List.lookup_cons, this, ih]

@[simp] theorem get?_insert (env : Environment) (name other : String) (value : Float) :
    (env.insert name value).get? other = if other = name then some value else env.get? other := by
  by_cases h : other = name
  · simp [get?, insert, h]
  · have : (other == name) = false := by simp [h]
    have herase := env.get?_erase name other
    simp only [get?, h, if_false] at herase ⊢
    simp [insert, List.lookup_cons, this, herase]

end Environment

end Formula
