/-!
# Occurrences of a text

`occursIn` says whether a text stands somewhere in another. `replaceAll` replaces the
occurrences of a text, taken from the left and not overlapping. Both work on lists of
characters, and both look at the front of the list through `dropStart?`.
-/

namespace Formula

/-- What follows `start` in `text`, if `text` begins with it. -/
def dropStart? : (start text : List Char) → Option (List Char)
  | [], text => some text
  | _ :: _, [] => none
  | s :: start, c :: text => if s = c then dropStart? start text else none

theorem dropStart?_eq_some_iff {start text rest : List Char} :
    dropStart? start text = some rest ↔ text = start ++ rest := by
  induction start generalizing text with
  | nil => simp [dropStart?]
  | cons s start ih =>
    cases text with
    | nil => simp [dropStart?]
    | cons c text => by_cases h : s = c <;> simp [dropStart?, h, ih, eq_comm]

/-- Whether `part` stands somewhere in the text. -/
def occursIn (part : List Char) : List Char → Bool
  | [] => part.isEmpty
  | c :: text => (dropStart? part (c :: text)).isSome || occursIn part text

/-- Replace the occurrences of `first :: more` by `new`, from the left. -/
def replaceAll (first : Char) (more new : List Char) : List Char → List Char
  | [] => []
  | c :: text =>
    if c = first then
      match _h : dropStart? more text with
      | some rest => new ++ replaceAll first more new rest
      | none => c :: replaceAll first more new text
    else c :: replaceAll first more new text
termination_by text => text.length
decreasing_by
  · rw [dropStart?_eq_some_iff.mp _h]
    simp only [List.length_cons, List.length_append]
    omega
  all_goals simp

end Formula
