import Formula.Proofs.ReadingFailures

/-!
# The two limits

A phrase of the grammar is `Within` the limits if there is room for its levels of terms and
no tree that is built for it is too high. Reading of a phrase that is not comes to a place
where it is too deep (`Phrase.blocked_of_not_within`) : to a term or an empty slot with no
level left, or behind the first node that is too high (`Phrase.blocked_of_part` for a term with
one part). So nothing else can go wrong with a text of the grammar, and it is read just if it
is within the limits (`Phrase.Fits.result_of_within`, `Phrase.Fits.result_of_not_within`).
-/

namespace Formula

/-- With no level left every phrase is blocked at once. -/
theorem blocked_of_no_room {rank position : Nat} {optional : Bool} {text : List Char} :
    Blocked ⟨rank, 0, optional⟩ position text (.tooDeep position) :=
  .here .deep rfl

namespace Phrase

/-- There is room for the levels of terms that the phrase needs, and every tree that is built
for it is within the limit. -/
structure Within (p : Phrase) (room : Nat) : Prop where
  depth_le : p.depth ≤ room
  peak_le : p.peak ≤ maxDepth

theorem Within.stands {p : Phrase} {rank room : Nat} {next : Option Char} (h : p.Within room)
    (hrank : rank ≤ p.rank) (hfits : p.Fits next) : p.Stands rank room next :=
  ⟨hrank, hfits, h.depth_le, h.peak_le⟩

section Part

variable {p part : Phrase} {f : Frame} {rank rank' room position : Nat} {optional optional' : Bool}
  {text : List Char}

/-- A term with one part leaves the limits where there is no level for it, where its part leaves
them one level below, or at the node above the part. -/
theorem blocked_of_part (hlimits : ¬p.Within room) (hdepth : p.depth = part.depth + 1)
    (hopens : ∀ room, Opens ⟨rank, room + 1, optional⟩ f ⟨rank', room, optional'⟩ text.head?)
    (hpart : ∀ room, ¬part.Within room →
      ∃ place, Blocked ⟨rank', room, optional'⟩ (position + f.text.length) text (.tooDeep place))
    (hnode : ∀ room, part.Within room → ¬p.peak ≤ maxDepth →
      ∃ place, Blocked ⟨rank, room + 1, optional⟩ position (f.text ++ text) (.tooDeep place)) :
    ∃ place, Blocked ⟨rank, room, optional⟩ position (f.text ++ text) (.tooDeep place) := by
  cases room with
  | zero => exact ⟨_, blocked_of_no_room⟩
  | succ room =>
    by_cases hwithin : part.Within room
    · have hroom : p.depth ≤ room + 1 := hdepth ▸ Nat.succ_le_succ hwithin.depth_le
      exact hnode room hwithin fun hpeak => hlimits ⟨hroom, hpeak⟩
    · obtain ⟨place, hblocked⟩ := hpart room hwithin
      exact ⟨place, .step (hopens room) hblocked⟩

/-- The same for a term that makes no node above its part. -/
theorem blocked_of_wrapped (hlimits : ¬p.Within room) (hdepth : p.depth = part.depth + 1)
    (hpeak : p.peak = part.peak)
    (hopens : ∀ room, Opens ⟨rank, room + 1, optional⟩ f ⟨rank', room, optional'⟩ text.head?)
    (hpart : ∀ room, ¬part.Within room →
      ∃ place, Blocked ⟨rank', room, optional'⟩ (position + f.text.length) text (.tooDeep place)) :
    ∃ place, Blocked ⟨rank, room, optional⟩ position (f.text ++ text) (.tooDeep place) :=
  blocked_of_part hlimits hdepth hopens hpart fun _ hwithin hhigh =>
    absurd (hpeak ▸ hwithin.peak_le) hhigh

end Part

/-- A chain leaves the limits where one of its parts does, or at the node above them. -/
theorem blocked_of_binary {op : Operator} {left right : Phrase} {rank room position : Nat}
    {optional : Bool} {rest : List Char} (hrank : rank ≤ op.rank)
    (hfits : (binary op left right).Fits rest.head?)
    (hlimits : ¬(binary op left right).Within room)
    (hleft : ¬left.Within room → ∃ place,
      Blocked ⟨rank, room, optional⟩ position (left.text ++ op.symbol :: (right.text ++ rest))
        (.tooDeep place))
    (hright : ¬right.Within room → ∃ place,
      Blocked ⟨op.rank + 1, room, false⟩ (position + left.text.length + 1) (right.text ++ rest)
        (.tooDeep place)) :
    ∃ place, Blocked ⟨rank, room, optional⟩ position
      (left.text ++ op.symbol :: (right.text ++ rest)) (.tooDeep place) := by
  obtain ⟨hrankLeft, hfitsLeft, hrankRight, hfitsRight, hstops⟩ := hfits
  by_cases hl : left.Within room
  · have hstands : left.Stands op.rank room (some op.symbol) := hl.stands hrankLeft hfitsLeft
    by_cases hr : right.Within room
    · have hheight := Nat.lt_of_not_le fun hle => hlimits
        ⟨Nat.max_le.mpr ⟨hl.depth_le, hr.depth_le⟩,
          Nat.max_le.mpr ⟨Nat.max_le.mpr ⟨hl.peak_le, hr.peak_le⟩, hle⟩⟩
      exact ⟨_, .binary hrank hstands (hr.stands hrankRight hfitsRight) hstops hheight⟩
    · obtain ⟨place, hblocked⟩ := hright hr
      exact ⟨place, .operand hrank hstands hblocked⟩
  · exact hleft hl

/-- A phrase that is not within the limits is blocked where it leaves them. -/
theorem blocked_of_not_within (p : Phrase) : ∀ {rank room position : Nat} {optional : Bool}
    {rest : List Char}, rank ≤ p.rank → p.Fits rest.head? → ¬p.Within room →
      ∃ place, Blocked ⟨rank, room, optional⟩ position (p.text ++ rest) (.tooDeep place) := by
  induction p with
  | number literal value =>
    intro rank room position optional rest hrank hfits hlimits
    cases room with
    | zero => exact ⟨_, blocked_of_no_room⟩
    | succ room => exact absurd ⟨Nat.succ_pos _, Nat.succ_pos _⟩ hlimits
  | name letters =>
    -- The empty slot needs a level of its own.
    intro rank room position optional rest hrank hfits hlimits
    match room with
    | 0 => exact ⟨_, blocked_of_no_room⟩
    | 1 => exact ⟨_, .step (.slot hrank hfits.1) blocked_of_no_room⟩
    | room + 2 => exact absurd ⟨Nat.le_add_left 2 room, Nat.succ_pos _⟩ hlimits
  | nameBefore letters dropped ih =>
    intro rank room position optional rest hrank hfits hlimits
    obtain ⟨⟨hrun, hname⟩, hterm, hfits⟩ := hfits
    rw [← head?_text_append hfits rest] at hrun
    rw [text, List.append_assoc]
    exact blocked_of_wrapped hlimits rfl rfl (fun _ => .slot hrank ⟨hrun, hname⟩)
      fun _ => ih (Nat.le_of_eq hterm.symm) hfits
  | call function argument ih =>
    intro rank room position optional rest hrank hfits hlimits
    obtain ⟨hrun, hterm, hfits⟩ := hfits
    rw [← head?_text_append hfits rest] at hrun
    rw [text, List.append_assoc]
    refine blocked_of_part hlimits rfl (fun _ => .call hrank hrun)
      (fun _ => ih (Nat.le_of_eq hterm.symm) hfits) fun room hargument hpeak => ?_
    have hheight := Nat.lt_of_not_le fun hle => hpeak (Nat.max_le.mpr ⟨hargument.peak_le, hle⟩)
    exact ⟨_, .call hrank hrun (hargument.stands (Nat.le_of_eq hterm.symm) hfits) hheight⟩
  | plus inner ih =>
    intro rank room position optional rest hrank hfits hlimits
    exact blocked_of_wrapped hlimits rfl rfl (fun _ => .plus hrank)
      fun _ => ih (Nat.le_of_eq hfits.1.symm) hfits.2
  | minus inner ih =>
    intro rank room position optional rest hrank hfits hlimits
    obtain ⟨hterm, hfits⟩ := hfits
    refine blocked_of_part hlimits rfl (fun _ => .minus hrank)
      (fun _ => ih (Nat.le_of_eq hterm.symm) hfits) fun room hinner hpeak => ?_
    have hheight := Nat.lt_of_not_le fun hle => hpeak (Nat.max_le.mpr ⟨hinner.peak_le, hle⟩)
    exact ⟨_, .minus hrank (hinner.stands (Nat.le_of_eq hterm.symm) hfits) hheight⟩
  | group inner closed ih =>
    intro rank room position optional rest hrank hfits hlimits
    cases closed with
    | true =>
      have hfits : inner.Fits (List.head? (')' :: rest)) := hfits
      rw [text, List.cons_append, List.append_assoc]
      exact blocked_of_wrapped hlimits rfl rfl (fun _ => .group hrank)
        fun _ => ih (Nat.zero_le _) hfits
    | false =>
      exact blocked_of_wrapped hlimits rfl rfl (fun _ => .group hrank)
        fun _ => ih (Nat.zero_le _) hfits.2.2
  | binary op left right ihl ihr =>
    intro rank room position optional rest hrank hfits hlimits
    rw [text_binary_append]
    exact blocked_of_binary hrank hfits hlimits
      (ihl (Nat.le_trans hrank hfits.1) hfits.2.1) (ihr hfits.2.2.1 hfits.2.2.2.1)

/-- A text of the grammar is read if it is within the limits. -/
theorem Fits.result_of_within {p : Phrase} (h : p.Fits none) (hlimits : p.Within maxDepth) :
    (Reading.formula p.text).result = .ok p.tree :=
  Reading.result_formula_eq_ok_iff.mpr ⟨p, rfl, rfl, h, hlimits.depth_le, hlimits.peak_le⟩

/-- A text of the grammar is too deep if it is not within the limits. -/
theorem Fits.result_of_not_within {p : Phrase} (h : p.Fits none) (hlimits : ¬p.Within maxDepth) :
    ∃ place, (Reading.formula p.text).result = .error (.tooDeep place) := by
  have hfits : p.Fits (List.head? []) := h
  obtain ⟨place, hblocked⟩ := p.blocked_of_not_within (Nat.zero_le _) hfits hlimits
  rw [List.append_nil] at hblocked
  exact ⟨place, Reading.result_formula_eq_error_iff.mpr (.inl hblocked)⟩

/-- A text of the grammar that is read is within the limits, and read as its tree. -/
theorem Fits.within_of_result {p : Phrase} {tree : Expr} (h : p.Fits none)
    (hread : (Reading.formula p.text).result = .ok tree) : p.Within maxDepth ∧ tree = p.tree := by
  by_cases hlimits : p.Within maxDepth
  · exact ⟨hlimits, Except.ok.inj (hread.symm.trans (h.result_of_within hlimits))⟩
  · obtain ⟨place, hfails⟩ := h.result_of_not_within hlimits
    cases hread.symm.trans hfails

end Phrase

end Formula
