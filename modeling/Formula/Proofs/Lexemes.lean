import Formula.Proofs.PhraseTokens
import Formula.Proofs.ReadingGrammar
import Mathlib.Data.List.Chain

/-!
# Trees written out

A tree written out without parentheses (`Expr.lexemes`) is the text it was read from, but for
its parentheses and its plus signs (`parse_lexemes`). So nothing is lost, doubled or moved,
and no sign is taken for an operator, unless a term is dropped : the text must have no term
right behind a variable.

Whether `+` is a sign is seen from the token before it. A phrase begins where one may stand,
and behind a phrase `+` is an operator, which is what the induction over phrases carries along
(`Phrase.Fits.bare_append`).
-/

namespace Formula

/-- A number, a word or a symbol. -/
inductive Lexeme
  | number (value : Float)
  | word (letters : String)
  | symbol (op : Operator)

/-- A tree written out from left to right. -/
def Expr.lexemes : Expr → List Lexeme
  | constant value => [.number value]
  | var name => [.word name]
  | negate inner => .symbol .subtract :: inner.lexemes
  | call function argument => .word function.name :: argument.lexemes
  | binary operator left right => left.lexemes ++ .symbol operator :: right.lexemes

namespace Token

/-- What a token writes, unless it is a parenthesis or has no meaning. -/
def lexeme? : Token → Option Lexeme
  | number first more => (readLiteral? (first :: more)).map .number
  | word first more => some (.word (String.ofList (first :: more)))
  | operator op => some (.symbol op)
  | _ => none

def isParenthesis : Token → Bool
  | opening => true
  | closing => true
  | _ => false

/-- The token is the name of a variable. -/
def isVariable : Token → Bool
  | word first more => (Builtin.ofName? (String.ofList (first :: more))).isNone
  | _ => false

/-- A term can start with the token : with a number, a word, a sign or an opening parenthesis. -/
def startsTerm : Token → Bool
  | number _ _ => true
  | word _ _ => true
  | operator op => op = .add ∨ op = .subtract
  | opening => true
  | _ => false

/-- Right behind the token `+` is a sign : it is an operator, a builtin or opens a group. -/
def beforeSign : Token → Bool
  | word first more => (Builtin.ofName? (String.ofList (first :: more))).isSome
  | operator _ => true
  | opening => true
  | _ => false

/-- The tokens but for the plus signs. `sign` tells whether `+` would be a sign in front. -/
def withoutPlusSigns : (sign : Bool) → List Token → List Token
  | _, [] => []
  | sign, t :: tokens =>
    if sign = true ∧ t = .operator .add then withoutPlusSigns t.beforeSign tokens
    else t :: withoutPlusSigns t.beforeSign tokens

/-- No term stands right behind a variable. -/
def DropsNothing (tokens : List Token) : Prop :=
  tokens.IsChain fun t next => t.isVariable = true → next.startsTerm = false

instance : DecidablePred DropsNothing := fun tokens =>
  inferInstanceAs (Decidable (tokens.IsChain _))

/-- What tokens write but for the parentheses and the plus signs. -/
def bare (sign : Bool) (tokens : List Token) : List (Option Lexeme) :=
  ((withoutPlusSigns sign tokens).filter fun t => !t.isParenthesis).map lexeme?

variable {sign : Bool} {tokens : List Token}

theorem bare_plusSign : bare true (.operator .add :: tokens) = bare true tokens := by
  rw [bare, withoutPlusSigns, if_pos ⟨rfl, rfl⟩]
  rfl

theorem bare_parenthesis {t : Token} (h : t.isParenthesis = true) :
    bare sign (t :: tokens) = bare t.beforeSign tokens := by
  have hsign : ¬(sign = true ∧ t = .operator .add) := by
    rintro ⟨-, rfl⟩
    cases h
  rw [bare, withoutPlusSigns, if_neg hsign, List.filter_cons_of_neg (by simp [h]), bare]

theorem bare_cons {t : Token} (hsign : ¬(sign = true ∧ t = .operator .add))
    (h : t.isParenthesis = false) :
    bare sign (t :: tokens) = t.lexeme? :: bare t.beforeSign tokens := by
  rw [bare, withoutPlusSigns, if_neg hsign, List.filter_cons_of_pos (by simp [h]), List.map_cons,
    bare]

theorem bare_operator {op : Operator} (h : ¬(sign = true ∧ op = .add)) :
    bare sign (.operator op :: tokens) = some (.symbol op) :: bare true tokens :=
  bare_cons (by simpa using h) rfl

theorem bare_number {first : Char} {more : List Char} {value : Float}
    (h : readLiteral? (first :: more) = some value) :
    bare sign (.number first more :: tokens) = some (.number value) :: bare false tokens := by
  rw [bare_cons (by simp) rfl, lexeme?, h]
  rfl

theorem bare_variable {first : Char} {more : List Char}
    (h : Builtin.ofName? (String.ofList (first :: more)) = none) :
    bare sign (.word first more :: tokens) =
      some (.word (String.ofList (first :: more))) :: bare false tokens := by
  rw [bare_cons (by simp) rfl, lexeme?, beforeSign, h]
  rfl

theorem bare_builtin {first : Char} {more : List Char} {function : Builtin}
    (h : function.name.toList = first :: more) :
    bare sign (.word first more :: tokens) = some (.word function.name) :: bare true tokens := by
  rw [bare_cons (by simp) rfl, lexeme?, beforeSign, ← h, String.ofList_toList, Builtin.ofName?_name]
  rfl

end Token

namespace Phrase

/-- The first token of a phrase starts a term. -/
theorem Fits.exists_startsTerm : ∀ {p : Phrase} {next : Option Char}, p.Fits next →
    ∃ t tokens, p.tokens = t :: tokens ∧ t.startsTerm = true
  | number literal value, _, ⟨hrun, _⟩ => by
    obtain ⟨first, more, -, halone⟩ := hrun.scan_number
    exact ⟨_, _, halone, rfl⟩
  | name letters, _, ⟨⟨hrun, _⟩, _⟩ => by
    obtain ⟨first, more, -, halone⟩ := hrun.scan_word
    exact ⟨_, _, halone, rfl⟩
  | nameBefore letters dropped, _, ⟨⟨hrun, _⟩, _⟩ => by
    obtain ⟨first, more, -, halone⟩ := hrun.scan_word
    exact ⟨_, _, congrArg (· ++ dropped.tokens) halone, rfl⟩
  | call function argument, _, ⟨hrun, _⟩ => by
    obtain ⟨first, more, -, halone⟩ := hrun.scan_word
    exact ⟨_, _, congrArg (· ++ argument.tokens) halone, rfl⟩
  | plus _, _, _ => ⟨_, _, rfl, by decide⟩
  | minus _, _, _ => ⟨_, _, rfl, by decide⟩
  | group _ true, _, _ => ⟨_, _, rfl, rfl⟩
  | group _ false, _, _ => ⟨_, _, rfl, rfl⟩
  | binary op left right, _, ⟨_, hleft, _⟩ => by
    obtain ⟨t, tokens, htokens, hstarts⟩ := hleft.exists_startsTerm
    exact ⟨t, _, congrArg (· ++ _) htokens, hstarts⟩

/-- A phrase that drops nothing writes its tree, where `+` may stand as a sign, and no sign
can follow it. -/
theorem Fits.bare_append : ∀ {p : Phrase} {next : Option Char} {rest : List Token}, p.Fits next →
    Token.DropsNothing p.tokens →
      Token.bare true (p.tokens ++ rest) = p.tree.lexemes.map some ++ Token.bare false rest
  | number literal value, _, _, ⟨hrun, hvalue⟩, _ => by
    obtain ⟨first, more, rfl, halone⟩ := hrun.scan_number
    rw [tokens, halone, List.singleton_append, Token.bare_number hvalue]
    rfl
  | name letters, _, _, ⟨⟨hrun, hname⟩, _⟩, _ => by
    obtain ⟨first, more, rfl, halone⟩ := hrun.scan_word
    rw [tokens, halone, List.singleton_append, Token.bare_variable hname]
    rfl
  | nameBefore letters dropped, _, _, ⟨⟨hrun, hname⟩, _, hfits⟩, hdrops => by
    obtain ⟨first, more, rfl, halone⟩ := hrun.scan_word
    obtain ⟨t, others, htokens, hstarts⟩ := hfits.exists_startsTerm
    rw [tokens, halone, htokens, List.singleton_append] at hdrops
    have hvariable : (Token.word first more).isVariable = true := by
      rw [Token.isVariable, hname]
      rfl
    have hnot := (List.isChain_cons_cons.mp hdrops).1 hvariable
    rw [hstarts] at hnot
    cases hnot
  | call function argument, _, rest, ⟨hrun, _, hfits⟩, hdrops => by
    obtain ⟨first, more, hname, halone⟩ := hrun.scan_word
    rw [tokens, halone] at hdrops ⊢
    rw [List.append_assoc, List.singleton_append, Token.bare_builtin hname,
      hfits.bare_append (List.IsChain.right_of_append hdrops)]
    rfl
  | plus inner, _, _, ⟨_, hfits⟩, hdrops => by
    rw [tokens, List.cons_append, Token.bare_plusSign, hfits.bare_append hdrops.tail]
    rfl
  | minus inner, _, _, ⟨_, hfits⟩, hdrops => by
    rw [tokens, List.cons_append, Token.bare_operator (by simp), hfits.bare_append hdrops.tail]
    rfl
  | group inner true, _, rest, hfits, hdrops => by
    have hinner : Token.DropsNothing inner.tokens := hdrops.tail.left_of_append
    rw [tokens, List.cons_append, List.append_assoc, List.singleton_append,
      Token.bare_parenthesis rfl, Token.beforeSign, bare_append (p := inner) hfits hinner,
      Token.bare_parenthesis rfl]
    rfl
  | group inner false, _, _, ⟨_, _, hfits⟩, hdrops => by
    rw [tokens, List.cons_append, Token.bare_parenthesis rfl, Token.beforeSign,
      hfits.bare_append hdrops.tail]
    rfl
  | binary op left right, _, rest, ⟨_, hleft, _, hright, _⟩, hdrops => by
    have hdropsLeft : Token.DropsNothing left.tokens := hdrops.left_of_append
    have hdropsRight : Token.DropsNothing right.tokens := hdrops.right_of_append.tail
    rw [tokens, List.append_assoc, hleft.bare_append hdropsLeft, List.cons_append,
      Token.bare_operator (by simp), hright.bare_append hdropsRight, tree, Expr.lexemes,
      List.map_append, List.map_cons, List.append_assoc, List.cons_append]

end Phrase

/-- The tree of a text with no term right behind a variable, written out, is the text but for
its parentheses and its plus signs. -/
theorem parse_lexemes {raw : String} {tree : Expr} (h : parse raw = .ok tree)
    (hdrops : Token.DropsNothing (Token.scan (normalize raw).toList)) :
    ((Token.withoutPlusSigns true (Token.scan (normalize raw).toList)).filter
      fun t => !t.isParenthesis).map Token.lexeme? = tree.lexemes.map some := by
  rw [parse_eq_result_formula] at h
  obtain ⟨p, htext, rfl, hfits, -, -⟩ := Reading.result_formula_eq_ok_iff.mp h
  rw [← htext, hfits.scan_text] at hdrops ⊢
  have hbare : Token.bare true (p.tokens ++ []) = p.tree.lexemes.map some ++ Token.bare false [] :=
    hfits.bare_append hdrops
  rw [List.append_nil] at hbare
  exact hbare.trans (List.append_nil _)

/-- The first and the last `+` are signs, the one between them is an operator. -/
theorem parse_lexemes_signs :
    parse "+2 + (-x)*√(+y)" = .ok (.binary .add (.constant (Float.ofScientific 2 true 0))
      (.binary .multiply (.negate (.var "x")) (.call .sqrt (.var "y")))) ∧
    Token.DropsNothing (Token.scan "+2+(-x)*sqrt(+y)".toList) ∧
    ((Token.withoutPlusSigns true (Token.scan "+2+(-x)*sqrt(+y)".toList)).filter
      fun t => !t.isParenthesis).map Token.lexeme? =
        [.number (Float.ofScientific 2 true 0), .symbol .add, .symbol .subtract, .word "x",
          .symbol .multiply, .word "sqrt", .word "y"].map some := by
  have h : parse "+2 + (-x)*√(+y)" = .ok (.binary .add (.constant (Float.ofScientific 2 true 0))
      (.binary .multiply (.negate (.var "x")) (.call .sqrt (.var "y")))) := by decide +kernel
  have hnormal : (normalize "+2 + (-x)*√(+y)").toList = "+2+(-x)*sqrt(+y)".toList := by
    decide +kernel
  have hdrops : Token.DropsNothing (Token.scan "+2+(-x)*sqrt(+y)".toList) := by decide +kernel
  have hlexemes := parse_lexemes h (hnormal ▸ hdrops)
  rw [hnormal] at hlexemes
  exact ⟨h, hdrops, hlexemes⟩

end Formula
