import Formula.Text.CharClass

/-!
# Blank characters

The blanks are the characters with the Unicode property `White_Space`. Zero-width
characters and the byte order mark are not blanks.
-/

namespace Formula

/-- The code points of the blanks. -/
def blankRanges : CharClass :=
  [(0x0009, 0x000D), (0x0020, 0x0020), (0x0085, 0x0085), (0x00A0, 0x00A0), (0x1680, 0x1680),
   (0x2000, 0x200A), (0x2028, 0x2029), (0x202F, 0x202F), (0x205F, 0x205F), (0x3000, 0x3000)]

/-- Whether a character is a blank. -/
def isBlank (c : Char) : Bool :=
  blankRanges.contains c

end Formula
