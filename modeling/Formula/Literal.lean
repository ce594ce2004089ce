/-!
# Number literals

A literal is a run of digits and points. It is a number if it has at least one digit and
at most one point : `5`, `5.`, `.5` and `0.25` are numbers, `.` and `1.2.3` are not. The
value is the decimal rounded once to the nearest binary64 number, with ties to even, at
any length. A decimal that is too large becomes infinite, one that is too small zero.
-/

namespace Formula

/-- The characters of a literal. -/
def isNumeral (c : Char) : Bool :=
  c.isDigit || c = '.'

/-- The natural number that a list of decimal digits writes. -/
def natOfDigits (digits : List Char) : Nat :=
  digits.foldl (fun n c => 10 * n + (c.toNat - '0'.toNat)) 0

/-- The number with the digits `whole` before the point and `fraction` after it. There
has to be a digit. -/
def valueOf? (whole fraction : List Char) : Option Float :=
  match whole ++ fraction with
  | [] => none
  | digits => some (Float.ofScientific (natOfDigits digits) true fraction.length)

/-- The value of a literal, if it is a number. -/
def readLiteral? (literal : List Char) : Option Float :=
  let whole := literal.takeWhile Char.isDigit
  match literal.dropWhile Char.isDigit with
  | [] => valueOf? whole []
  | c :: fraction => if c = '.' && fraction.all Char.isDigit then valueOf? whole fraction else none

theorem ne_nil_of_readLiteral? {literal : List Char} {value : Float}
    (h : readLiteral? literal = some value) : literal ≠ [] := by
  intro hnil
  rw [hnil] at h
  cases h

end Formula
