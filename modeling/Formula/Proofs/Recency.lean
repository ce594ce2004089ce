import Mathlib.Data.Finset.Card
import Mathlib.Data.List.Infix

/-!
# Recency

The distinct texts of a history, the most recent first, are `history.reverse.eraseDups`. To
use a text puts it first and takes it out of the rest (`recent_concat`), and it is enough to
know the first `count` of them to know the first `count` after the use
(`take_cons_filter_take`). A text is among the first `count` exactly if fewer than `count`
distinct texts were used after it (`mem_take_recent_iff`).

`ReturnsWithin` says of all the uses of one text that each comes back before `count` others
were used. It holds exactly if the text is among the first `count` all the way
(`forall_mem_take_recent_iff`).
-/

namespace Formula

/-! ## Distinct texts -/

/-- It makes no difference whether texts are sorted out before or after their repetitions. -/
theorem eraseDups_filter (p : String → Bool) (texts : List String) :
    (texts.filter p).eraseDups = texts.eraseDups.filter p := by
  match texts with
  | [] => rfl
  | text :: texts =>
    have hlen := List.length_filter_le (fun other => !other == text) texts
    have ih := eraseDups_filter p (texts.filter fun other => !other == text)
    cases hp : p text with
    | true =>
      rw [List.filter_cons_of_pos hp, List.eraseDups_cons, List.eraseDups_cons,
        List.filter_cons_of_pos hp, ← ih, List.filter_comm]
    | false =>
      have hne : ∀ other ∈ texts.eraseDups, (p other && !other == text) = p other := by
        intro other _
        by_cases hother : other = text
        · rw [hother, hp, Bool.false_and]
        · rw [beq_false_of_ne hother, Bool.not_false, Bool.and_true]
      rw [List.filter_cons_of_neg (by simp [hp]), List.eraseDups_cons,
        List.filter_cons_of_neg (by simp [hp]), eraseDups_filter p texts,
        eraseDups_filter _ texts, List.filter_filter, List.filter_congr hne]
termination_by texts.length
decreasing_by all_goals (simp only [List.length_cons]; omega)

/-- A first text stays, and later on it is a repetition. -/
theorem eraseDups_cons_eq (text : String) (texts : List String) :
    (text :: texts).eraseDups = text :: texts.eraseDups.filter (· ≠ text) := by
  rw [List.eraseDups_cons, eraseDups_filter]
  congr 2
  funext other
  rw [beq_eq_decide, decide_not]

theorem nodup_eraseDups (texts : List String) : texts.eraseDups.Nodup := by
  induction texts with
  | nil => exact List.nodup_nil
  | cons text texts ih =>
    rw [eraseDups_cons_eq]
    exact List.nodup_cons.mpr ⟨by simp, ih.filter _⟩

/-- There are as many distinct texts as the set of the texts has elements. -/
theorem length_eraseDups (texts : List String) :
    texts.eraseDups.length = texts.toFinset.card := by
  rw [← List.toFinset_card_of_nodup (nodup_eraseDups texts)]
  congr 1
  ext text
  rw [List.mem_toFinset, List.mem_toFinset, List.mem_eraseDups]

/-! ## One use -/

theorem recent_concat (history : List String) (text : String) :
    (history ++ [text]).reverse.eraseDups =
      text :: history.reverse.eraseDups.filter (· ≠ text) := by
  rw [List.reverse_concat, eraseDups_cons_eq]

example : ["1", "2", "1", "3"].reverse.eraseDups = ["3", "1", "2"] := by
  decide

/-- The first `count` texts but one are known from the first `count + 1`. -/
theorem take_filter_take {texts : List String} (nodup : texts.Nodup) (text : String)
    (count : Nat) :
    ((texts.take (count + 1)).filter (· ≠ text)).take count =
      (texts.filter (· ≠ text)).take count := by
  induction texts generalizing count with
  | nil => rfl
  | cons first texts ih =>
    obtain ⟨hfirst, hrest⟩ := List.nodup_cons.mp nodup
    by_cases heq : first = text
    · -- only the first text is taken out
      have hall : ∀ {part : List String}, part ⊆ texts → part.filter (· ≠ text) = part := by
        intro part hpart
        refine List.filter_eq_self.mpr fun other hother => ?_
        have hne : other ≠ text := fun h => hfirst (heq ▸ h ▸ hpart hother)
        simpa using hne
      have hdrop : ∀ part : List String,
          (first :: part).filter (· ≠ text) = part.filter (· ≠ text) :=
        fun part => List.filter_cons_of_neg (by simpa using heq)
      rw [List.take_succ_cons, hdrop, hdrop, hall (List.take_subset _ _),
        hall (List.Subset.refl _), List.take_take, Nat.min_self]
    · have hkeep : ∀ part : List String,
          (first :: part).filter (· ≠ text) = first :: part.filter (· ≠ text) :=
        fun part => List.filter_cons_of_pos (by simpa using heq)
      rw [List.take_succ_cons, hkeep, hkeep]
      cases count with
      | zero => rfl
      | succ count => rw [List.take_succ_cons, List.take_succ_cons, ih hrest]

/-- What is first after a use depends on what was first before it. -/
theorem take_cons_filter_take {texts : List String} (nodup : texts.Nodup) (text : String)
    (count : Nat) :
    (text :: (texts.take count).filter (· ≠ text)).take count =
      (text :: texts.filter (· ≠ text)).take count := by
  cases count with
  | zero => rfl
  | succ count => rw [List.take_succ_cons, List.take_succ_cons, take_filter_take nodup]

/-! ## How long a text stays -/

/-- A text is among the first if not too many are before it. -/
theorem mem_take_append_cons_iff {before later : List String} {text : String}
    (hbefore : text ∉ before) (count : Nat) :
    text ∈ (before ++ text :: later).take count ↔ before.length < count := by
  rw [List.take_append]
  refine ⟨fun hmem => ?_, fun hlt => ?_⟩
  · by_contra hle
    rw [Nat.sub_eq_zero_of_le (Nat.le_of_not_lt hle), List.take_zero, List.append_nil] at hmem
    exact hbefore (List.mem_of_mem_take hmem)
  · obtain ⟨room, hroom⟩ := Nat.exists_eq_add_of_lt hlt
    rw [hroom, show before.length + room + 1 - before.length = room + 1 by omega,
      List.take_succ_cons]
    simp

/-- A text is among the most recent exactly if not too many others were used after it. -/
theorem mem_take_recent_iff (history : List String) {later : List String} {text : String}
    (hlater : text ∉ later) (count : Nat) :
    text ∈ (history ++ text :: later).reverse.eraseDups.take count ↔
      later.toFinset.card < count := by
  have hreverse : text ∉ later.reverse := by rwa [List.mem_reverse]
  have hdistinct : text ∉ later.reverse.eraseDups := by rwa [List.mem_eraseDups]
  have hremove : (text :: history.reverse).removeAll later.reverse =
      text :: history.reverse.removeAll later.reverse := by
    simp [List.removeAll, hlater]
  rw [List.reverse_append, List.reverse_cons, List.append_assoc, List.singleton_append,
    List.eraseDups_append, hremove, eraseDups_cons_eq, mem_take_append_cons_iff hdistinct,
    length_eraseDups, List.toFinset_reverse]

/-- Between two uses of a text that follow each other fewer than `count` others are used. -/
def ReturnsWithin (count : Nat) (text : String) (uses : List String) : Prop :=
  ∀ before between later, uses = before ++ text :: (between ++ text :: later) →
    text ∉ between → between.toFinset.card < count

/-- A text that is used, then others or itself, and then once more, always comes back in
time exactly if it is among the most recent at every moment between. -/
theorem forall_mem_take_recent_iff (history : List String) (text : String)
    (uses : List String) (count : Nat) :
    (∀ part, part <+: uses →
      text ∈ (history ++ text :: part).reverse.eraseDups.take count) ↔
      ReturnsWithin count text (text :: (uses ++ [text])) := by
  refine ⟨fun hall before between later huses hbetween => ?_, fun hreturns part hpart => ?_⟩
  · have hprefix : before ++ text :: between <+: text :: uses := by
      have hlong : before ++ text :: between <+: (text :: uses) ++ [text] :=
        ⟨text :: later, by rw [List.cons_append, huses]; simp⟩
      rcases List.prefix_concat_iff.mp hlong with heq | hshort
      · have hlength := congrArg List.length huses
        rw [← List.cons_append, ← heq] at hlength
        simp at hlength
      · exact hshort
    rcases List.prefix_cons_iff.mp hprefix with hnil | ⟨part, hpart, hpartPrefix⟩
    · simp at hnil
    · have hmem := hall part hpartPrefix
      rw [← hpart, ← List.append_assoc, mem_take_recent_iff _ hbetween] at hmem
      exact hmem
  · obtain ⟨rest, rfl⟩ := hpart
    -- the last use up to here, and the next one from here on
    have hlast : text ∈ (text :: part).reverse := by simp
    obtain ⟨later, before, hsplit, hlater⟩ := List.eq_append_cons_of_mem hlast
    have hpart : text :: part = before.reverse ++ text :: later.reverse := by
      rw [← List.reverse_reverse (text :: part), hsplit]
      simp
    have hnext : text ∈ rest ++ [text] := by simp
    obtain ⟨soon, after, hrest, hsoon⟩ := List.eq_append_cons_of_mem hnext
    have huses : text :: (part ++ rest ++ [text]) =
        before.reverse ++ text :: ((later.reverse ++ soon) ++ text :: after) := by
      rw [List.append_assoc, hrest, ← List.cons_append, hpart]
      simp
    have hcount := hreturns _ _ _ huses (by simp [hlater, hsoon])
    have hle : later.reverse.toFinset.card ≤ (later.reverse ++ soon).toFinset.card := by
      rw [List.toFinset_append]
      exact Finset.card_le_card Finset.subset_union_left
    rw [hpart, ← List.append_assoc, mem_take_recent_iff _ (by simpa using hlater)]
    omega

end Formula
