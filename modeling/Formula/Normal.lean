import Formula.Text.Blank
import Formula.Text.Occurrence

/-!
# Normal form of a typed text

A formula may be typed with blanks and with the glyphs of a display : `ⁿ√x` for a root
of any degree, `√` for the square root, `×` and `÷`. The normal form has none of these.
The root of any degree becomes the operator `@`, and it is looked for before the square
root, whose glyph it contains. Nothing is checked here : what the glyphs leave behind
is for the reader of the formula to accept or refuse.
-/

namespace Formula

/-- Drop the blanks, then replace the display glyphs. -/
def normalizeChars (text : List Char) : List Char :=
  let text := text.filter fun c => !isBlank c
  let text := replaceAll 'ⁿ' ['√', 'x'] ['@'] text
  let text := replaceAll '√' [] ['s', 'q', 'r', 't'] text
  let text := replaceAll '×' [] ['*'] text
  replaceAll '÷' [] ['/'] text

/-- The normal form of a typed text. -/
def normalize (raw : String) : String :=
  String.ofList (normalizeChars raw.toList)

@[simp] theorem toList_normalize (raw : String) :
    (normalize raw).toList = normalizeChars raw.toList :=
  String.toList_ofList

end Formula
