import Formula.Proofs.Limits
import Formula.Proofs.PlainText

/-!
# How deep a formula may nest

A formula may nest `maxDepth` levels of terms and stand for a tree of that height, but two
kinds of formula within these bounds are too deep all the same. The reader opens a level for
the slot after a variable before it sees whether a term is there, so a variable on the last
level fails where a number would not (`Phrase.SlotsWithin`). And it bounds every tree that it
builds, those in a dropped term too (`Phrase.DroppedWithin`).

These are all exceptions (`parse_of_nesting_le`) : the levels that a phrase needs are those of
its terms and of its empty slots (`Phrase.depth_le_iff`), and the trees that are built for it
are parts of its own tree or of a dropped one (`Phrase.peak_le_iff`).
-/

namespace Formula

namespace Phrase

/-- How many levels of terms stand in a phrase. -/
def nesting : Phrase → Nat
  | number _ _ => 1
  | name _ => 1
  | nameBefore _ dropped => dropped.nesting + 1
  | call _ argument => argument.nesting + 1
  | plus inner => inner.nesting + 1
  | minus inner => inner.nesting + 1
  | group inner _ => inner.nesting + 1
  | binary _ left right => max left.nesting right.nesting

/-- Every empty slot of a phrase is on one of the first `room` levels : a term in its place
would be, too. -/
def SlotsWithin : Phrase → (room : Nat) → Prop
  | number _ _, _ => True
  | name _, room => 2 ≤ room
  | nameBefore _ dropped, room => dropped.SlotsWithin (room - 1)
  | call _ argument, room => argument.SlotsWithin (room - 1)
  | plus inner, room => inner.SlotsWithin (room - 1)
  | minus inner, room => inner.SlotsWithin (room - 1)
  | group inner _, room => inner.SlotsWithin (room - 1)
  | binary _ left right, room => left.SlotsWithin room ∧ right.SlotsWithin room

/-- No tree that is built for a dropped term of a phrase is too high. -/
def DroppedWithin : Phrase → Prop
  | number _ _ => True
  | name _ => True
  | nameBefore _ dropped => dropped.peak ≤ maxDepth
  | call _ argument => argument.DroppedWithin
  | plus inner => inner.DroppedWithin
  | minus inner => inner.DroppedWithin
  | group inner _ => inner.DroppedWithin
  | binary _ left right => left.DroppedWithin ∧ right.DroppedWithin

/-- A term needs one level more than its part. -/
theorem succ_le_iff_of_le_iff {depth nesting : Nat} {slots : Nat → Prop}
    (h : ∀ room, depth ≤ room ↔ nesting ≤ room ∧ slots room) (room : Nat) :
    depth + 1 ≤ room ↔ nesting + 1 ≤ room ∧ slots (room - 1) := by
  cases room with
  | zero => simp
  | succ room => rw [Nat.add_le_add_iff_right, Nat.add_le_add_iff_right, h, Nat.add_sub_cancel]

/-- The levels that a phrase needs are those of its terms and those of its empty slots. -/
theorem depth_le_iff (p : Phrase) :
    ∀ room, p.depth ≤ room ↔ p.nesting ≤ room ∧ p.SlotsWithin room := by
  induction p with
  | number literal value => exact fun room => (and_iff_left trivial).symm
  | name letters => exact fun room => (and_iff_right_of_imp Nat.le_of_succ_le).symm
  | nameBefore letters dropped ih => exact succ_le_iff_of_le_iff ih
  | call function argument ih => exact succ_le_iff_of_le_iff ih
  | plus inner ih => exact succ_le_iff_of_le_iff ih
  | minus inner ih => exact succ_le_iff_of_le_iff ih
  | group inner closed ih => exact succ_le_iff_of_le_iff ih
  | binary op left right ihl ihr =>
    intro room
    rw [depth, nesting, SlotsWithin, Nat.max_le, Nat.max_le, ihl, ihr, and_and_and_comm]

/-- A node is built after what is built for its part, and it is higher than its part. -/
theorem max_le_iff_of_le_iff {peak height limit : Nat} {dropped : Prop}
    (h : peak ≤ limit ↔ height ≤ limit ∧ dropped) :
    max peak (height + 1) ≤ limit ↔ height + 1 ≤ limit ∧ dropped := by
  rw [Nat.max_le, h, and_right_comm, and_iff_right_of_imp Nat.le_of_succ_le]

/-- The trees that are built for a phrase are parts of its own tree, or of a dropped one. -/
theorem peak_le_iff (p : Phrase) :
    p.peak ≤ maxDepth ↔ p.tree.height ≤ maxDepth ∧ p.DroppedWithin := by
  induction p with
  | number literal value => exact (and_iff_left trivial).symm
  | name letters => exact (and_iff_left trivial).symm
  | nameBefore letters dropped _ =>
    have hleaf : 1 ≤ maxDepth := by decide
    exact (and_iff_right hleaf).symm
  | call function argument ih => exact max_le_iff_of_le_iff ih
  | plus inner ih => exact ih
  | minus inner ih => exact max_le_iff_of_le_iff ih
  | group inner closed ih => exact ih
  | binary op left right ihl ihr =>
    have hparts : max left.peak right.peak ≤ maxDepth ↔
        max left.tree.height right.tree.height ≤ maxDepth ∧
          (left.DroppedWithin ∧ right.DroppedWithin) := by
      rw [Nat.max_le, Nat.max_le, ihl, ihr, and_and_and_comm]
    exact max_le_iff_of_le_iff hparts

/-- A phrase is within the limits just if its terms, its tree, its empty slots and its dropped
terms are. -/
theorem within_iff {p : Phrase} : p.Within maxDepth ↔
    (p.nesting ≤ maxDepth ∧ p.tree.height ≤ maxDepth) ∧
      (p.SlotsWithin maxDepth ∧ p.DroppedWithin) := by
  rw [and_and_and_comm, ← depth_le_iff, ← peak_le_iff]
  exact ⟨fun h => ⟨h.depth_le, h.peak_le⟩, fun h => ⟨h.1, h.2⟩⟩

end Phrase

/-- A formula with no more levels of terms than there may be, and for a tree that is not too
high, is read as this tree if its empty slots and its dropped terms are within the limits,
too. If not, it is too deep. -/
theorem parse_of_nesting_le (raw : String) (p : Phrase) (htext : p.text = (normalize raw).toList)
    (hfits : p.Fits none) (hnesting : p.nesting ≤ maxDepth)
    (hheight : p.tree.height ≤ maxDepth) :
    (parse raw = .ok p.tree ↔ p.SlotsWithin maxDepth ∧ p.DroppedWithin) ∧
      (parse raw ≠ .ok p.tree → ∃ place, parse raw = .error (.tooDeep place)) := by
  have hlimits : p.Within maxDepth ↔ p.SlotsWithin maxDepth ∧ p.DroppedWithin := by
    rw [Phrase.within_iff, and_iff_right ⟨hnesting, hheight⟩]
  rw [parse_eq_of_text htext, ← hlimits]
  by_cases hwithin : p.Within maxDepth
  · have hread := hfits.result_of_within hwithin
    exact ⟨iff_of_true hread hwithin, fun hne => absurd hread hne⟩
  · obtain ⟨place, hfails⟩ := hfits.result_of_not_within hwithin
    refine ⟨iff_of_false (fun hread => ?_) hwithin, fun _ => ⟨place, hfails⟩⟩
    rw [hfails] at hread
    cases hread

/-! ## A variable in parentheses -/

namespace Phrase

/-- A phrase in as many pairs of parentheses. -/
def enclose (p : Phrase) : (count : Nat) → Phrase
  | 0 => p
  | count + 1 => .group (p.enclose count) true

variable {p : Phrase}

theorem text_enclose (p : Phrase) (count : Nat) :
    (p.enclose count).text =
      List.replicate count '(' ++ (p.text ++ List.replicate count ')') := by
  induction count with
  | zero => simp [enclose]
  | succ count ih =>
    rw [enclose, text, ih, List.replicate_succ, List.replicate_succ']
    simp

theorem tree_enclose (p : Phrase) (count : Nat) : (p.enclose count).tree = p.tree := by
  induction count with
  | zero => rfl
  | succ count ih => exact ih

theorem nesting_enclose (p : Phrase) (count : Nat) :
    (p.enclose count).nesting = p.nesting + count := by
  induction count with
  | zero => rfl
  | succ count ih => exact congrArg (· + 1) ih

theorem slotsWithin_enclose (p : Phrase) (count room : Nat) :
    (p.enclose count).SlotsWithin room ↔ p.SlotsWithin (room - count) := by
  induction count generalizing room with
  | zero => rfl
  | succ count ih => rw [enclose, SlotsWithin, ih, Nat.sub_sub, Nat.add_comm]

theorem droppedWithin_enclose (p : Phrase) (count : Nat) :
    (p.enclose count).DroppedWithin ↔ p.DroppedWithin := by
  induction count with
  | zero => rfl
  | succ count ih => exact ih

theorem Fits.enclose (hclosing : p.Fits (some ')')) {next : Option Char} (h : p.Fits next) :
    ∀ count, (p.enclose count).Fits next
  | 0 => h
  | count + 1 => Fits.enclose hclosing hclosing count

end Phrase

/-- The variable `x` in as many pairs of parentheses. -/
def enclosedVariable (count : Nat) : String :=
  String.ofList (List.replicate count '(' ++ 'x' :: List.replicate count ')')

theorem text_enclose_variable (count : Nat) :
    ((Phrase.name ['x']).enclose count).text = (normalize (enclosedVariable count)).toList := by
  have hplain : ∀ c ∈ List.replicate count '(' ++ 'x' :: List.replicate count ')', IsPlain c := by
    simp only [List.forall_mem_append, List.forall_mem_cons, List.mem_replicate]
    refine ⟨?_, isPlain_of_isAlphabetic (isAlphabetic_of_isLower (by decide)), ?_⟩
    · rintro c ⟨-, rfl⟩
      exact isPlain_opening
    · rintro c ⟨-, rfl⟩
      exact isPlain_closing
  rw [toList_normalize, enclosedVariable, String.toList_ofList, normalizeChars_of_isPlain hplain,
    Phrase.text_enclose]
  rfl

theorem fits_enclose_variable (count : Nat) : ((Phrase.name ['x']).enclose count).Fits none := by
  have hletter : isAlphabetic 'x' = true := isAlphabetic_of_isLower (by decide)
  have hname : Builtin.ofName? (String.ofList ['x']) = none := by decide
  have hclosing : ∀ c ∈ some ')', isAlphabetic c = false := by simp [isAlphabetic_closing]
  exact Phrase.Fits.enclose (p := .name ['x']) ⟨⟨.single hletter hclosing, hname⟩, .inr (.inl rfl)⟩
    ⟨⟨.single hletter (by simp), hname⟩, .inl rfl⟩ count

/-- With one level below it to spare a variable is read. -/
theorem parse_of_nesting_le_enclosedVariable :
    ((Phrase.name ['x']).enclose 254).nesting ≤ maxDepth ∧
      parse (enclosedVariable 254) = .ok (.var "x") := by
  have hnesting : ((Phrase.name ['x']).enclose 254).nesting ≤ maxDepth := by
    rw [Phrase.nesting_enclose]
    decide
  have hheight : ((Phrase.name ['x']).enclose 254).tree.height ≤ maxDepth := by
    rw [Phrase.tree_enclose]
    decide
  have hslots : ((Phrase.name ['x']).enclose 254).SlotsWithin maxDepth :=
    (Phrase.slotsWithin_enclose _ 254 _).mpr (Nat.le_refl 2)
  have hread := (parse_of_nesting_le (enclosedVariable 254) _ (text_enclose_variable 254)
    (fits_enclose_variable 254) hnesting hheight).1.mpr
      ⟨hslots, (Phrase.droppedWithin_enclose _ 254).mpr trivial⟩
  rw [Phrase.tree_enclose] at hread
  exact ⟨hnesting, hread⟩

/-- On the last level a variable is too deep, though no term follows it. -/
theorem enclosedVariable_too_deep :
    ∃ p : Phrase, p.text = (normalize (enclosedVariable 255)).toList ∧ p.Fits none ∧
      p.tree = .var "x" ∧ p.nesting ≤ maxDepth ∧ p.tree.height ≤ maxDepth ∧
        ∃ place, parse (enclosedVariable 255) = .error (.tooDeep place) := by
  have htree : ((Phrase.name ['x']).enclose 255).tree = .var "x" := Phrase.tree_enclose _ 255
  have hlimits : ¬((Phrase.name ['x']).enclose 255).Within maxDepth := by
    rw [Phrase.within_iff, Phrase.slotsWithin_enclose]
    rintro ⟨-, hslots, -⟩
    exact absurd hslots (by decide : ¬2 ≤ maxDepth - 255)
  refine ⟨_, text_enclose_variable 255, fits_enclose_variable 255, htree, ?_, ?_, ?_⟩
  · rw [Phrase.nesting_enclose]
    decide
  · rw [htree]
    decide
  · rw [parse_eq_of_text (text_enclose_variable 255)]
    exact (fits_enclose_variable 255).result_of_not_within hlimits

end Formula
