/-!
# Errors of reading a formula

Each error says what was met and where : the position is the number of characters of the
normal form that stand before it.
-/

namespace Formula

/-- Why a text is not a formula. -/
inductive ParseError
  /-- A character where a term has to start. -/
  | unexpectedChar (found : Char) (position : Nat)
  /-- The end where a term has to start. -/
  | unexpectedEnd (position : Nat)
  /-- Digits and points that are not a number. -/
  | invalidNumber (literal : String) (position : Nat)
  /-- A character after a whole formula. -/
  | trailingInput (found : Char) (position : Nat)
  /-- Terms or trees nested beyond the limit. -/
  | tooDeep (position : Nat)
  deriving Repr, DecidableEq

namespace ParseError

/-- Where the error is. -/
def position : ParseError → Nat
  | unexpectedChar _ position => position
  | unexpectedEnd position => position
  | invalidNumber _ position => position
  | trailingInput _ position => position
  | tooDeep position => position

/-- The text of an error. -/
def message : ParseError → String
  | unexpectedChar found position => s!"unexpected character '{found}' at position {position}"
  | unexpectedEnd position => s!"unexpected end of input at position {position}"
  | invalidNumber literal position =>
    s!"invalid number literal '{literal}' at position {position}"
  | trailingInput found position =>
    s!"unconsumed input starting with '{found}' at position {position}"
  | tooDeep position => s!"expression nests too deeply at position {position}"

end ParseError

end Formula
