import Formula.Proofs.Phrase

/-!
# The tokens of a phrase

A phrase has the tokens of its parts in order (`Phrase.tokens`), and these are the tokens of
its text, whatever follows it there (`Phrase.Fits.scan_append`). What runs on across the border
of two parts would not be a phrase.
-/

namespace Formula

/-! ## Runs -/

namespace IsRun

variable {run rest : List Char} {next : Option Char}

/-- A literal is a token, whatever follows it. -/
theorem scan_number (h : IsRun isNumeral run next) :
    ∃ first more, run = first :: more ∧ Token.scan run = [.number first more] := by
  obtain ⟨first, more, rfl⟩ := List.exists_cons_of_ne_nil h.1
  have hrun : IsRun isNumeral (first :: more) (List.head? []) := ⟨h.1, h.2.1, by simp⟩
  have halone := Token.scan_number hrun
  rw [List.append_nil] at halone
  exact ⟨first, more, rfl, halone⟩

/-- A name is a token, whatever follows it. -/
theorem scan_word (h : IsRun isAlphabetic run next) :
    ∃ first more, run = first :: more ∧ Token.scan run = [.word first more] := by
  obtain ⟨first, more, rfl⟩ := List.exists_cons_of_ne_nil h.1
  have hrun : IsRun isAlphabetic (first :: more) (List.head? []) := ⟨h.1, h.2.1, by simp⟩
  have halone := Token.scan_word hrun
  rw [List.append_nil] at halone
  exact ⟨first, more, rfl, halone⟩

theorem scan_number_append (h : IsRun isNumeral run rest.head?) :
    Token.scan (run ++ rest) = Token.scan run ++ Token.scan rest := by
  obtain ⟨first, more, rfl, halone⟩ := h.scan_number
  rw [halone, Token.scan_number h, List.singleton_append]

theorem scan_word_append (h : IsRun isAlphabetic run rest.head?) :
    Token.scan (run ++ rest) = Token.scan run ++ Token.scan rest := by
  obtain ⟨first, more, rfl, halone⟩ := h.scan_word
  rw [halone, Token.scan_word h, List.singleton_append]

end IsRun

/-! ## Phrases -/

namespace Phrase

/-- The tokens of a phrase. -/
def tokens : Phrase → List Token
  | number literal _ => Token.scan literal
  | name letters => Token.scan letters
  | nameBefore letters dropped => Token.scan letters ++ dropped.tokens
  | call function argument => Token.scan function.name.toList ++ argument.tokens
  | plus inner => .operator .add :: inner.tokens
  | minus inner => .operator .subtract :: inner.tokens
  | group inner true => .opening :: (inner.tokens ++ [.closing])
  | group inner false => .opening :: inner.tokens
  | binary operator left right => left.tokens ++ .operator operator :: right.tokens

/-- The tokens of a phrase are those of its text, and those of what follows come behind. -/
theorem Fits.scan_append : ∀ {p : Phrase} {rest : List Char}, p.Fits rest.head? →
    Token.scan (p.text ++ rest) = p.tokens ++ Token.scan rest
  | number _ _, _, h => h.1.scan_number_append
  | name _, _, h => h.1.1.scan_word_append
  | nameBefore letters dropped, rest, h => by
    obtain ⟨⟨hrun, -⟩, -, hfits⟩ := h
    rw [← head?_text_append hfits rest] at hrun
    rw [text, tokens, List.append_assoc, List.append_assoc, hrun.scan_word_append,
      hfits.scan_append]
  | call function argument, rest, h => by
    obtain ⟨hrun, -, hfits⟩ := h
    rw [← head?_text_append hfits rest] at hrun
    rw [text, tokens, List.append_assoc, List.append_assoc, hrun.scan_word_append,
      hfits.scan_append]
  | plus inner, _, h => by
    rw [text, tokens, List.cons_append, List.cons_append, Token.scan_plus, h.2.scan_append]
  | minus inner, _, h => by
    rw [text, tokens, List.cons_append, List.cons_append, Token.scan_minus, h.2.scan_append]
  | group inner true, rest, h => by
    have hinner : Token.scan (inner.text ++ ')' :: rest) =
        inner.tokens ++ Token.scan (')' :: rest) := scan_append (p := inner) h
    rw [text, tokens, List.cons_append, List.append_assoc, Token.scan_opening,
      List.singleton_append, hinner, Token.scan_closing, List.cons_append, List.append_assoc,
      List.singleton_append]
  | group inner false, _, h => by
    rw [text, tokens, List.cons_append, List.cons_append, Token.scan_opening, h.2.2.scan_append]
  | binary op left right, rest, h => by
    have hleft : Token.scan (left.text ++ op.symbol :: (right.text ++ rest)) =
        left.tokens ++ Token.scan (op.symbol :: (right.text ++ rest)) := h.2.1.scan_append
    rw [text_binary_append, tokens, hleft, Token.scan_symbol, h.2.2.2.1.scan_append,
      List.append_assoc, List.cons_append]

/-- The tokens of a text that is a phrase. -/
theorem Fits.scan_text {p : Phrase} (h : p.Fits none) : Token.scan p.text = p.tokens := by
  have hscan : Token.scan (p.text ++ []) = p.tokens ++ Token.scan [] := h.scan_append
  rwa [List.append_nil, Token.scan_nil, List.append_nil] at hscan

end Phrase

end Formula
