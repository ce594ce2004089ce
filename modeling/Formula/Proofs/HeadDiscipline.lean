import Formula.Proofs.HeadRoutines
import Mathlib.Data.List.Chain

/-!
# How the reader treats its head

What the contract of the routines says of one parse. A text has just one parse, and it gives back
what `Reading.formula` does. Every call that is made in it is `Visit.Disciplined`, one that fails
too : the levels that it opens are closed again and never more than `maxDepth`, the head goes only
forward and stays in the text, a tree takes characters, and where nothing is given back the head
has not moved. A round of a chain and the scan of a term make their calls with less of the text
left, which is why the parse ends on every text though nothing counts down.
-/

namespace Formula

variable {text : List Char} {h h' : Head} {path : List Head}

/-! ## Moves -/

namespace Head

theorem Step.position_le (hstep : h.Step text h') : h.position ≤ h'.position := by
  obtain ⟨step, hproper, rfl⟩ := hstep
  cases step with
  | advance =>
    rw [after_advance hproper]
    exact Nat.le_succ _
  | enter | leave => exact Nat.le_refl _

/-- The head is in the text, and not too deep. -/
structure Within (text : List Char) (h : Head) : Prop where
  le_length : h.position ≤ text.length
  depth_le : h.depth ≤ maxDepth

/-- A proper move keeps the head in the text and not too deep. -/
theorem Step.within (hstep : h.Step text h') (hwithin : h.Within text) : h'.Within text := by
  obtain ⟨step, hproper, rfl⟩ := hstep
  obtain ⟨hlength, hdepth⟩ := hwithin
  cases step with
  | advance =>
    rw [after_advance hproper]
    exact ⟨hproper, hdepth⟩
  | enter => exact ⟨hlength, hproper⟩
  | leave => exact ⟨hlength, Nat.le_trans (Nat.sub_le _ _) hdepth⟩

/-- Proper moves keep the head in the text and not too deep. -/
theorem within_of_isChain (hwithin : h.Within text)
    (hchain : List.IsChain (Step text) (h :: path)) : ∀ place ∈ h :: path, place.Within text := by
  induction path generalizing h with
  | nil =>
    rintro place (_ | ⟨_, ⟨⟩⟩)
    exact hwithin
  | cons place path ih =>
    obtain ⟨hstep, hchain⟩ := List.isChain_cons_cons.mp hchain
    rintro place' (_ | ⟨_, hplace⟩)
    · exact hwithin
    · exact ih (hstep.within hwithin) hchain place' hplace

/-- Proper moves never go back. -/
theorem pairwise_of_isChain (hchain : List.IsChain (Step text) path) :
    (path.map position).Pairwise (· ≤ ·) := by
  have hpositions : List.IsChain (· ≤ ·) (path.map position) :=
    (List.isChain_map position).mpr (hchain.imp fun _ _ hstep => hstep.position_le)
  exact hpositions.pairwise

end Head

/-! ## Calls -/

/-- How a call treats the head, whatever it gives back. -/
structure Visit.Disciplined (text : List Char) (v : Visit) : Prop where
  /-- The levels that were opened are closed again. -/
  depth_exit : v.exit.depth = v.entry.depth
  /-- On the way there are never more than `maxDepth` levels open. -/
  depth_le : ∀ place ∈ v.entry :: v.path, place.depth ≤ maxDepth
  /-- Every move is proper : no level is left that was not entered. -/
  moves : List.IsChain (Head.Step text) (v.entry :: v.path)
  /-- The head never goes back. -/
  forward : ((v.entry :: v.path).map Head.position).Pairwise (· ≤ ·)
  /-- The head never passes the end of the text. -/
  le_length : ∀ place ∈ v.entry :: v.path, place.position ≤ text.length
  /-- A tree takes characters. The rounds of a chain come with a tree. -/
  takes : (∀ tier left, v.routine ≠ .rest tier left) →
    ∀ e, v.reply = .ok (some e) → v.entry.position < v.exit.position
  /-- Nothing is given back only for a term, with the head where it was and in front of the end, a
  closing parenthesis or an operator that is no sign. -/
  nothing : v.reply = .ok none → (v.routine = .optional ∨ v.routine = .scan) ∧
    v.exit.position = v.entry.position ∧ EmptySlot (v.exit.current text)
  /-- No operator stands behind a sum. -/
  stops : v.routine = .chain .sum →
    ∀ e, v.reply = .ok (some e) → ∀ op : Operator, v.exit.current text ≠ some op.symbol
  /-- A round of a chain and the scan of a term make their calls with less of the text left. -/
  shortens : ((∃ tier left, v.routine = .rest tier left) ∨ v.routine = .scan) →
    ∀ w ∈ v.calls, w.entry.remaining text < v.entry.remaining text
  /-- Any call is made with less of the text left, or is of a routine of a lower rank at the same
  place. -/
  descends : ∀ w ∈ v.calls, v.routine.Descends text v.entry w.routine w.entry

theorem Routine.leastTaken_pos {r : Routine} (h : ∀ tier left, r ≠ .rest tier left) :
    0 < r.leastTaken := by
  cases r with
  | rest tier left => exact absurd rfl (h tier left)
  | formula | chain | term | optional | scan => exact Nat.one_pos

/-- The contract of the reader says all that discipline asks for. -/
theorem Visit.Keeps.disciplined {v : Visit} (hv : v.Keeps text (.reader text)) :
    v.Disciplined text := by
  obtain ⟨⟨hlength, hdepth, -, -⟩, ⟨⟨hbalanced, htakes, hstops, hnothing⟩, -⟩, hmoves, hdescends⟩ :=
    hv
  have hwithin := Head.within_of_isChain ⟨hlength, hdepth⟩ hmoves
  refine ⟨hbalanced.depth_eq, fun place hplace => (hwithin place hplace).depth_le, hmoves,
    Head.pairwise_of_isChain hmoves, fun place hplace => (hwithin place hplace).le_length, ?_, ?_,
    ?_, ?_, hdescends⟩
  · intro hroutine e he
    have hleast := Routine.leastTaken_pos hroutine
    exact Nat.lt_of_lt_of_le (Nat.lt_add_of_pos_right hleast) (htakes e he)
  · intro hnone
    obtain ⟨hroutine, hexit, hslot⟩ := hnothing hnone
    exact ⟨hroutine, congrArg Head.position hexit, hexit ▸ hslot⟩
  · intro hsum e he op hcurrent
    have hlt := hstops e he
    rw [hsum, hcurrent] at hlt
    exact absurd (stops_symbol_iff.mp hlt) (Nat.not_lt_zero _)
  · intro hroutine w hw
    have hrank : v.routine.rank = 0 := by
      obtain ⟨tier, left, hroutine⟩ | hroutine := hroutine <;> rw [hroutine] <;> rfl
    obtain hshorter | ⟨-, hlower⟩ := hdescends w hw
    · exact hshorter
    · rw [hrank] at hlower
      exact absurd hlower (Nat.not_lt_zero _)

/-- A text has just one parse, and it gives back what reading the text does. Every call in it is
disciplined, and gives back what the reader of tokens does at the same place. -/
theorem exists_disciplined_parse (text : List Char) :
    ∃ v : Visit, (v.IsParse text ∧ ∀ v' : Visit, v'.IsParse text → v' = v) ∧
      v.reply = (Reading.formula text).result.map some ∧
        ∀ w, v.Makes w → w.Disciplined text ∧ w.routine.Reads text w.entry w.exit w.reply := by
  have hholds := Contract.reader_holds text
  have hstarts : Routine.formula.Starts text ⟨0, 0⟩ :=
    ⟨Nat.zero_le _, Nat.zero_le _, fun _ => rfl, nofun⟩
  obtain ⟨path, reply, calls, hrun⟩ := hholds.exists_runs .formula ⟨0, 0⟩ hstarts
  have hv : Visit.Happens text ⟨.formula, ⟨0, 0⟩, path, reply, calls⟩ := hrun
  refine ⟨⟨.formula, ⟨0, 0⟩, path, reply, calls⟩, ⟨⟨hv, rfl, rfl⟩, ?_⟩, ?_, ?_⟩
  · rintro ⟨_, _, path', reply', calls'⟩ ⟨hrun', rfl, rfl⟩
    obtain ⟨rfl, rfl, rfl⟩ := hrun.unique hrun'
    rfl
  · exact (hv.keeps hholds hstarts (.self _)).ensures.2
  · intro w hw
    have hkeeps := hv.keeps hholds hstarts hw
    exact ⟨hkeeps.disciplined, hkeeps.ensures.2⟩

end Formula
