import Formula.Proofs.ReadingFailures

/-!
# Errors point at what they name

`ParseError.Names` says what each error states about the normal form of the text : which
character stands at its position, that it stands at the end, or which literal starts there.
A literal that is named is a whole run of digits and points. It does not go on to the left,
because no frame ends in one of these characters (`Descends.isNumeral_getLast?`).
-/

namespace Formula

/-- A term can start with the character. -/
def StartsTerm (c : Char) : Prop :=
  isNumeral c = true ∨ isAlphabetic c = true ∨ c = '(' ∨ c = '+' ∨ c = '-'

/-- What an error states about the text. -/
def ParseError.Names (text : List Char) : ParseError → Prop
  | unexpectedChar found position => text[position]? = some found ∧ ¬StartsTerm found
  | unexpectedEnd position => position = text.length
  | invalidNumber literal position =>
    ∃ before after, text = before ++ (literal.toList ++ after) ∧ position = before.length ∧
      (∀ c ∈ before.getLast?, isNumeral c = false) ∧
      IsRun isNumeral literal.toList after.head? ∧ readLiteral? literal.toList = none
  | trailingInput found position => text[position]? = some found
  | tooDeep position => position ≤ text.length

/-! ## Characters in front of an obstacle -/

/-- In front of an empty slot no term could start. -/
theorem not_startsTerm_of_emptySlot {c : Char} (h : EmptySlot (some c)) : ¬StartsTerm c := by
  obtain h | h | ⟨op, h, hrank⟩ := emptySlot_iff.mp h
  · cases h
  · cases h
    simp [StartsTerm, isNumeral_closing, isAlphabetic_closing]
  · obtain rfl := Option.some.inj h
    have hsymbol : op.symbol ≠ '(' ∧ op.symbol ≠ '+' ∧ op.symbol ≠ '-' := by
      cases op with
      | add | subtract => exact absurd hrank (Nat.lt_irrefl 0)
      | multiply | divide | modulo | power | nthRoot => decide
    simp [StartsTerm, op.isNumeral_symbol, op.isAlphabetic_symbol, hsymbol]

/-- No term starts with a character that is part of no formula. -/
theorem not_startsTerm_of_lexes {c : Char} {next : Option Char}
    (h : (Token.stray c).Lexes next) : ¬StartsTerm c := by
  obtain ⟨hn, ha, hsymbol, hopening, -⟩ := h
  simp [StartsTerm, hn, ha, hopening, show c ≠ '+' from hsymbol .add,
    show c ≠ '-' from hsymbol .subtract]

theorem IsRun.isNumeral_getLast? {run : List Char} {next : Option Char}
    (h : IsRun isAlphabetic run next) : ∀ c ∈ run.getLast?, isNumeral c = false :=
  fun c hc => isNumeral_eq_false_of_isAlphabetic (h.2.1 c (List.mem_of_getLast? hc))

/-- What is written of an open construct ends in a letter, a sign, an operator or a parenthesis.
-/
theorem Opens.isNumeral_getLast? {g g' : Goal} {f : Frame} {next : Option Char}
    (h : Opens g f g' next) : ∀ c ∈ f.text.getLast?, isNumeral c = false := by
  cases h with
  | slot _ hname => exact hname.1.isNumeral_getLast?
  | call _ hrun => exact hrun.isNumeral_getLast?
  | plus | minus | group =>
    intro c hc
    cases hc
    decide
  | @operand _ _ _ op left =>
    intro c hc
    obtain rfl : op.symbol = c := by simpa [Frame.text] using hc
    exact op.isNumeral_symbol

/-- No front ends in a digit or a point. -/
theorem Descends.isNumeral_getLast? {g h : Goal} {front : List Frame} {next : Option Char}
    (hdescends : Descends g front h next) :
    ∀ c ∈ (frontText front).getLast?, isNumeral c = false := by
  induction hdescends with
  | here => exact fun c hc => nomatch hc
  | @step _ _ _ f front _ hopens _ ih =>
    intro c hc
    rw [frontText_cons, List.getLast?_append, Option.mem_def, Option.or_eq_some_iff] at hc
    obtain hc | ⟨-, hc⟩ := hc
    · exact ih c hc
    · exact hopens.isNumeral_getLast? c hc

/-! ## Obstacles -/

theorem names_unexpected {front rest : List Char} (h : ∀ c ∈ rest.head?, ¬StartsTerm c) :
    (ParseError.unexpected rest.head? front.length).Names (front ++ rest) := by
  cases rest with
  | nil => simp [ParseError.unexpected, ParseError.Names]
  | cons c rest =>
    refine ⟨?_, h c rfl⟩
    simp

/-- The error of a blocked text names what is there. -/
theorem Blocked.names {g : Goal} {text : List Char} {e : ParseError} (h : Blocked g 0 text e) :
    e.Names text := by
  obtain ⟨front, g', obstacle, rest, rfl, hdescends, hat, rfl⟩ := h
  rw [Nat.zero_add]
  cases obstacle with
  | deep => simp [Obstacle.error, ParseError.Names]
  | missing =>
    refine names_unexpected fun c hc => not_startsTerm_of_emptySlot ?_
    rw [← Option.mem_def.mp hc]
    exact hat.2.2
  | stray =>
    obtain ⟨-, c, hc, hlex⟩ := hat
    refine names_unexpected fun d hd => ?_
    obtain rfl : c = d := Option.mem_unique hc hd
    exact not_startsTerm_of_lexes hlex
  | malformed literal =>
    obtain ⟨-, hrun, hvalue⟩ := hat
    refine ⟨frontText front, rest, ?_, rfl, hdescends.isNumeral_getLast?, ?_, ?_⟩
    · rw [String.toList_ofList]
      rfl
    · rwa [String.toList_ofList]
    · rwa [String.toList_ofList]
  | high part =>
    simp only [Obstacle.error, Obstacle.text, ParseError.Names, List.length_append]
    omega

/-- What an error names is in the text, or right behind it. -/
theorem ParseError.Names.position_le {text : List Char} {e : ParseError} (h : e.Names text) :
    e.position ≤ text.length := by
  cases e with
  | unexpectedChar found position => exact Nat.le_of_lt (List.getElem?_eq_some_iff.mp h.1).1
  | unexpectedEnd position => exact Nat.le_of_eq h
  | invalidNumber literal position =>
    obtain ⟨before, after, rfl, rfl, -⟩ := h
    simp [position]
  | trailingInput found position => exact Nat.le_of_lt (List.getElem?_eq_some_iff.mp h).1
  | tooDeep position => exact h

/-- An error is within the normal form of the text, and it names what is there. -/
theorem parse_error_names (raw : String) (e : ParseError) (h : parse raw = .error e) :
    e.position ≤ (normalize raw).toList.length ∧ e.Names (normalize raw).toList := by
  rw [parse_eq_result_formula] at h
  have hnames : e.Names (normalize raw).toList := by
    obtain h | ⟨p, c, rest, htext, -, -, rfl⟩ := Reading.result_formula_eq_error_iff.mp h
    · exact h.names
    · rw [htext]
      simp [ParseError.Names]
  exact ⟨hnames.position_le, hnames⟩

theorem parse_error_names_literal :
    parse "√(2 + 1.2.3x)" = .error (.invalidNumber "1.2.3" 7) ∧
      (ParseError.invalidNumber "1.2.3" 7).Names "sqrt(2+1.2.3x)".toList := by
  have h : parse "√(2 + 1.2.3x)" = .error (.invalidNumber "1.2.3" 7) := by decide +kernel
  have hnormal : normalize "√(2 + 1.2.3x)" = "sqrt(2+1.2.3x)" := by decide +kernel
  exact ⟨h, hnormal ▸ (parse_error_names _ _ h).2⟩

end Formula
