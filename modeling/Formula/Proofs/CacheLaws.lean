import Formula.Cache
import Mathlib.Data.List.Nodup

/-!
# What a cache keeps

A cache that `insert` has made holds each key once and no more keys than there is room for
(`Cache.Valid`). Of such a cache two laws are known. A key that is there goes to the front, and
no entry is lost (`Valid.entries_insert_of_mem`). A key that is not there goes to the front, and
the last entry is dropped if there was no more room (`Valid.entries_insert_of_notMem`).

All else that sessions need follows from the two laws. The cache stays valid (`Valid.insert`),
its keys are the new key and the others, as many as there is room for (`Valid.keys_insert`), and
a key has the value that it was last given, for as long as it is among the keys
(`Valid.get?_insert_self`, `Valid.get?_insert_of_ne`).
-/

namespace Formula

namespace Cache

variable {α : Type}

/-! ## Looking a key up -/

/-- A key without a value is none of the cache. -/
theorem get?_eq_none_iff {cache : Cache α} {key : String} :
    cache.get? key = none ↔ key ∉ cache.keys := by
  rw [get?, List.lookup_eq_none_iff, keys, List.mem_map]
  refine ⟨fun absent hkey => ?_, fun absent entry hentry => ?_⟩
  · obtain ⟨entry, hentry, rfl⟩ := hkey
    exact bne_iff_ne.mp (absent entry hentry) rfl
  · exact bne_iff_ne.mpr fun hkey => absent ⟨entry, hentry, hkey.symm⟩

/-- The keys are what a value can be looked up for. -/
theorem mem_keys_iff {cache : Cache α} {key : String} :
    key ∈ cache.keys ↔ ∃ value, cache.get? key = some value := by
  rw [← Option.isSome_iff_exists, ← Option.ne_none_iff_isSome, ne_eq, get?_eq_none_iff,
    not_not]

theorem mem_entries_of_get? {cache : Cache α} {key : String} {value : α}
    (hget : cache.get? key = some value) : (key, value) ∈ cache.entries := by
  rw [get?, List.lookup_eq_some_iff] at hget
  obtain ⟨before, after, hentries, -⟩ := hget
  rw [hentries]
  simp

theorem look_eq_none_iff {cache : Cache α} {key : String} :
    cache.look key = none ↔ key ∉ cache.keys := by
  rw [look, Option.map_eq_none_iff, get?_eq_none_iff]

theorem look_of_get? {cache : Cache α} {key : String} {value : α}
    (hget : cache.get? key = some value) :
    cache.look key = some (value, cache.insert key value) := by
  rw [look, hget, Option.map_some]

/-! ## The two laws -/

/-- Each key is there once, and there is room for all of them. -/
structure Valid (cache : Cache α) : Prop where
  nodup : cache.keys.Nodup
  length_le : cache.entries.length ≤ cache.capacity

theorem valid_empty (capacity : Nat) : (empty capacity : Cache α).Valid :=
  ⟨List.nodup_nil, Nat.zero_le _⟩

variable {cache : Cache α} {key other : String}

/-! The definition of `insert` is opened for the two laws only. -/

/-- Without a key that is there the entries are fewer. -/
theorem length_filter_lt_of_mem (hkey : key ∈ cache.keys) :
    (cache.entries.filter fun entry => entry.1 ≠ key).length < cache.entries.length := by
  obtain ⟨entry, hentry, rfl⟩ := List.mem_map.mp hkey
  rw [List.length_filter_lt_length_iff_exists]
  exact ⟨entry, hentry, by simp⟩

theorem filter_entries_of_notMem (hkey : key ∉ cache.keys) :
    (cache.entries.filter fun entry => entry.1 ≠ key) = cache.entries := by
  refine List.filter_eq_self.mpr fun entry hentry => ?_
  have hne : entry.1 ≠ key := fun heq => hkey (List.mem_map.mpr ⟨entry, hentry, heq⟩)
  simpa using hne

/-- A key that is there goes to the front, and no entry is lost. -/
theorem Valid.entries_insert_of_mem (valid : cache.Valid) (hkey : key ∈ cache.keys) (value : α) :
    (cache.insert key value).entries =
      (key, value) :: cache.entries.filter fun entry => entry.1 ≠ key :=
  List.take_of_length_le
    (Nat.le_trans (Nat.succ_le_of_lt (length_filter_lt_of_mem hkey)) valid.length_le)

/-- A key that is not there goes to the front, and the last entry is dropped if there was
no more room. -/
theorem Valid.entries_insert_of_notMem (valid : cache.Valid) (room : 0 < cache.capacity)
    (hkey : key ∉ cache.keys) (value : α) :
    (cache.insert key value).entries =
      (key, value) :: if cache.entries.length < cache.capacity then cache.entries
        else cache.entries.dropLast := by
  obtain ⟨capacity, hcapacity⟩ := Nat.exists_eq_add_of_lt room
  rw [Nat.zero_add] at hcapacity
  have hle := valid.length_le
  rw [Cache.insert, filter_entries_of_notMem hkey, hcapacity, List.take_succ_cons]
  split_ifs with hlt
  · rw [List.take_of_length_le (Nat.le_of_lt_succ hlt)]
  · rw [List.dropLast_eq_take, show cache.entries.length - 1 = capacity by omega]

/-! ## What follows from the laws -/

/-- The new entry is at the front, and behind it are the first ones of the others. -/
theorem Valid.exists_entries_insert (valid : cache.Valid) (room : 0 < cache.capacity)
    (key : String) (value : α) :
    ∃ kept, (cache.insert key value).entries = (key, value) :: kept ∧
      kept <+: (cache.entries.filter fun entry => entry.1 ≠ key) ∧
        kept.length < cache.capacity := by
  have hle := valid.length_le
  by_cases hkey : key ∈ cache.keys
  · exact ⟨_, valid.entries_insert_of_mem hkey value, List.prefix_rfl,
      Nat.lt_of_lt_of_le (length_filter_lt_of_mem hkey) hle⟩
  · refine ⟨_, valid.entries_insert_of_notMem room hkey value, ?_⟩
    rw [filter_entries_of_notMem hkey]
    split_ifs with hlt
    · exact ⟨List.prefix_rfl, hlt⟩
    · rw [List.length_dropLast]
      exact ⟨List.dropLast_prefix _, by omega⟩

theorem Valid.mem_entries_insert (valid : cache.Valid) (room : 0 < cache.capacity) {value : α}
    {entry : String × α} (hentry : entry ∈ (cache.insert key value).entries) :
    entry = (key, value) ∨ entry ∈ cache.entries := by
  obtain ⟨kept, hentries, hkept, -⟩ := valid.exists_entries_insert room key value
  rw [hentries] at hentry
  rcases List.mem_cons.mp hentry with hnew | hold
  · exact Or.inl hnew
  · exact Or.inr (List.mem_filter.mp (hkept.subset hold)).1

/-- A cache stays valid. -/
theorem Valid.insert (valid : cache.Valid) (room : 0 < cache.capacity) (key : String)
    (value : α) : (cache.insert key value).Valid := by
  obtain ⟨kept, hentries, hkept, hlength⟩ := valid.exists_entries_insert room key value
  have hothers : ∀ entry ∈ kept, entry.1 ≠ key := fun entry hentry => by
    simpa using (List.mem_filter.mp (hkept.subset hentry)).2
  have hnodup : (kept.map Prod.fst).Nodup :=
    valid.nodup.sublist ((hkept.sublist.trans List.filter_sublist).map Prod.fst)
  refine ⟨?_, ?_⟩
  · rw [keys, hentries]
    exact List.nodup_cons.mpr ⟨by simpa using fun value hentry => hothers _ hentry rfl, hnodup⟩
  · rw [hentries]
    exact hlength

/-- The keys are the new one and the others, as many as there is room for. -/
theorem Valid.keys_insert (valid : cache.Valid) (room : 0 < cache.capacity) (key : String)
    (value : α) : (cache.insert key value).keys =
      (key :: cache.keys.filter (· ≠ key)).take cache.capacity := by
  have hkeys : (cache.entries.filter fun entry => entry.1 ≠ key).map Prod.fst =
      cache.keys.filter (· ≠ key) := by
    rw [keys, List.filter_map]
    rfl
  by_cases hkey : key ∈ cache.keys
  · have hle : (key :: cache.keys.filter (· ≠ key)).length ≤ cache.capacity := by
      rw [← hkeys, List.length_cons, List.length_map]
      exact Nat.lt_of_lt_of_le (length_filter_lt_of_mem hkey) valid.length_le
    rw [keys, valid.entries_insert_of_mem hkey, List.map_cons, hkeys, List.take_of_length_le hle]
  · have hlength : cache.keys.length = cache.entries.length := List.length_map _
    have hle := valid.length_le
    obtain ⟨capacity, hcapacity⟩ := Nat.exists_eq_add_of_lt room
    rw [Nat.zero_add] at hcapacity
    rw [← hkeys, filter_entries_of_notMem hkey, keys, valid.entries_insert_of_notMem room hkey,
      List.map_cons, ← keys, hcapacity, List.take_succ_cons]
    split_ifs with hlt
    · rw [← keys, List.take_of_length_le (by omega)]
    · rw [List.map_dropLast, ← keys, List.dropLast_eq_take, hlength,
        show cache.entries.length - 1 = capacity by omega]

/-- A key has the value that it was given. -/
theorem Valid.get?_insert_self (valid : cache.Valid) (room : 0 < cache.capacity) (key : String)
    (value : α) : (cache.insert key value).get? key = some value := by
  obtain ⟨kept, hentries, -, -⟩ := valid.exists_entries_insert room key value
  rw [get?, hentries, List.lookup_cons_self]

/-- To look up another key, the entries of a key may be left out. -/
theorem lookup_filter_ne (hne : other ≠ key) (entries : List (String × α)) :
    (entries.filter fun entry => entry.1 ≠ key).lookup other = entries.lookup other := by
  induction entries with
  | nil => rfl
  | cons entry entries ih =>
    by_cases hkey : entry.1 = key
    · have hother : (other == entry.1) = false := beq_eq_false_iff_ne.mpr (hkey ▸ hne)
      rw [List.filter_cons_of_neg (by simpa using hkey), ih, List.lookup_cons, hother]
    · rw [List.filter_cons_of_pos (by simpa using hkey), List.lookup_cons, List.lookup_cons,
        ih]

/-- The other keys that remain have the values that they had. -/
theorem Valid.get?_insert_of_ne (valid : cache.Valid) (room : 0 < cache.capacity)
    (hne : other ≠ key) (value : α) (hother : other ∈ (cache.insert key value).keys) :
    (cache.insert key value).get? other = cache.get? other := by
  obtain ⟨kept, hentries, ⟨dropped, hothers⟩, -⟩ := valid.exists_entries_insert room key value
  have hinsert : (cache.insert key value).get? other = kept.lookup other := by
    rw [get?, hentries, List.lookup_cons, beq_eq_false_iff_ne.mpr hne]
  obtain ⟨found, hfound⟩ := mem_keys_iff.mp hother
  rw [hinsert] at hfound ⊢
  have hlookup := lookup_filter_ne hne cache.entries
  rw [← hothers, List.lookup_append, hfound] at hlookup
  exact hfound.trans hlookup

end Cache

end Formula
