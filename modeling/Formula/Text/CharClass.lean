/-!
# Classes of characters

A class of characters is a list of ranges of code points, in ascending order.
`CharClass.contains` reads the ranges from the left and stops at the first one that
starts above the character, so the letters and digits of plain text, which stand at
the front of every table, are settled at once.
-/

namespace Formula

/-- Ranges of code points, each with its first and last member, in ascending order. -/
abbrev CharClass := List (Nat × Nat)

/-- Whether a code point lies in one of the ranges. -/
def CharClass.containsCode : CharClass → Nat → Bool
  | [], _ => false
  | (first, last) :: ranges, code =>
    if code < first then false
    else if code ≤ last then true
    else containsCode ranges code

/-- Whether a character lies in one of the ranges. -/
def CharClass.contains (ranges : CharClass) (c : Char) : Bool :=
  ranges.containsCode c.toNat

end Formula
