import Formula.Literal
import Formula.Operator
import Formula.Text.Alphabetic

/-!
# Tokens

The words of a formula : number literals, names, operator symbols, parentheses, and any
other character as a stray one. A literal is a maximal run of digits and points, a name
a maximal run of alphabetic characters, and every other token is a single character.

`Token.scan` reads a text from its end and puts each character in front of the tokens of
the rest, where `Token.push` lets it extend the first token or makes it a token of its
own. Nothing is dropped : the characters of the tokens in order are the text
(`flatMap_chars_scan`).
-/

namespace Formula

/-- A token. Literals and names are given by their first character and the others. -/
inductive Token
  | number (first : Char) (more : List Char)
  | word (first : Char) (more : List Char)
  | operator (op : Operator)
  | opening
  | closing
  | stray (c : Char)
  deriving Repr, DecidableEq

namespace Token

/-- The first character of a token. -/
def first : Token → Char
  | number first _ => first
  | word first _ => first
  | operator op => op.symbol
  | opening => '('
  | closing => ')'
  | stray c => c

/-- The characters of a token after the first. -/
def more : Token → List Char
  | number _ more => more
  | word _ more => more
  | _ => []

/-- The characters of a token. -/
def chars (t : Token) : List Char :=
  t.first :: t.more

/-- How many characters a token takes. -/
def width (t : Token) : Nat :=
  t.more.length + 1

/-- The token of a character that is part of no literal and no name. -/
def ofMark (c : Char) : Token :=
  match Operator.ofSymbol? c with
  | some op => operator op
  | none => if c = '(' then opening else if c = ')' then closing else stray c

/-- Put a character in front of tokens. -/
def push (c : Char) (tokens : List Token) : List Token :=
  if isNumeral c then
    match tokens with
    | number first more :: rest => number c (first :: more) :: rest
    | _ => number c [] :: tokens
  else if isAlphabetic c then
    match tokens with
    | word first more :: rest => word c (first :: more) :: rest
    | _ => word c [] :: tokens
  else ofMark c :: tokens

/-- The tokens of a text. -/
def scan (text : List Char) : List Token :=
  text.foldr push []

@[simp] theorem scan_nil : scan [] = [] :=
  rfl

@[simp] theorem scan_cons (c : Char) (text : List Char) : scan (c :: text) = push c (scan text) :=
  rfl

theorem chars_ofMark (c : Char) : (ofMark c).chars = [c] := by
  unfold ofMark
  split
  · next op h => simp [chars, first, more, Operator.ofSymbol?_eq_some_iff.mp h]
  · split
    · simp [chars, first, more, *]
    · split <;> simp [chars, first, more, *]

theorem flatMap_chars_push (c : Char) (tokens : List Token) :
    (push c tokens).flatMap chars = c :: tokens.flatMap chars := by
  unfold push
  split
  · split <;> simp [chars, first, more]
  · split
    · split <;> simp [chars, first, more]
    · simp [chars_ofMark]

/-- The tokens hold every character of the text, in order. -/
theorem flatMap_chars_scan (text : List Char) : (scan text).flatMap chars = text := by
  induction text with
  | nil => rfl
  | cons c text ih => rw [scan_cons, flatMap_chars_push, ih]

end Token

end Formula
