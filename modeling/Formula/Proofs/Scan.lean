import Formula.Token
import Mathlib.Tactic.Common

/-!
# Tokens and the text they stand for

`Token.scan` reads a text from its end. Here it is read from its front : the first token
of a text and the text after it (`Token.exists_of_scan_eq_cons`), and the other way
round what text has a given first token (`Token.scan_number`, `Token.scan_word` and the
lemmas for single characters). A literal or a name is a maximal run of its characters
(`IsRun`), so whether a run is one depends on the character that follows it.
-/

namespace Formula

/-- `run` is a run of characters of the class `p` that ends where `next` follows. -/
def IsRun (p : Char → Bool) (run : List Char) (next : Option Char) : Prop :=
  run ≠ [] ∧ (∀ c ∈ run, p c = true) ∧ ∀ c ∈ next, p c = false

/-- A run may be longer at its front. -/
theorem IsRun.cons {p : Char → Bool} {c : Char} {run : List Char} {next : Option Char}
    (hc : p c = true) (h : IsRun p run next) : IsRun p (c :: run) next :=
  ⟨List.cons_ne_nil _ _, List.forall_mem_cons.mpr ⟨hc, h.2.1⟩, h.2.2⟩

theorem IsRun.single {p : Char → Bool} {c : Char} {next : Option Char} (hc : p c = true)
    (h : ∀ d ∈ next, p d = false) : IsRun p [c] next :=
  ⟨List.cons_ne_nil _ _, by simpa using hc, h⟩

/-! ## Classes of characters -/

/-- No character before `A` is a letter. -/
theorem isAlphabetic_eq_false_of_lt {c : Char} (h : c.toNat < 0x41) : isAlphabetic c = false := by
  have hbasic : basicAlphabetic.contains c = false := by
    change CharClass.containsCode ((0x41, 0x5A) :: basicAlphabetic.tail) c.toNat = false
    rw [CharClass.containsCode, if_pos h]
  rw [isAlphabetic, if_pos (by omega), hbasic]

/-- The letters from `a` to `z` are letters of a name. -/
theorem isAlphabetic_of_isLower {c : Char} (h : c.isLower = true) : isAlphabetic c = true := by
  obtain ⟨hlow, hhigh⟩ := Bool.and_eq_true_iff.mp h
  have hlow : 0x61 ≤ c.toNat := of_decide_eq_true hlow
  have hhigh : c.toNat ≤ 0x7A := of_decide_eq_true hhigh
  have hbasic : basicAlphabetic.contains c = true := by
    change CharClass.containsCode
      ((0x41, 0x5A) :: (0x61, 0x7A) :: basicAlphabetic.tail.tail) c.toNat = true
    rw [CharClass.containsCode, if_neg (by omega), if_neg (by omega), CharClass.containsCode,
      if_neg (by omega), if_pos hhigh]
  rw [isAlphabetic, if_pos (by omega), hbasic]

/-- The characters of a literal are all between the point and the nine. -/
theorem toNat_of_isNumeral {c : Char} (h : isNumeral c = true) : 46 ≤ c.toNat ∧ c.toNat ≤ 57 := by
  simp only [isNumeral, Char.isDigit, Bool.or_eq_true, Bool.and_eq_true, decide_eq_true_eq] at h
  rcases h with ⟨hlow, hhigh⟩ | rfl
  · have hlow : 48 ≤ c.toNat := hlow
    have hhigh : c.toNat ≤ 57 := hhigh
    omega
  · decide

/-- The two classes of runs share no character, so a run of one ends where one of the other
begins. -/
theorem isAlphabetic_eq_false_of_isNumeral {c : Char} (h : isNumeral c = true) :
    isAlphabetic c = false := by
  have := toNat_of_isNumeral h
  exact isAlphabetic_eq_false_of_lt (by omega)

theorem isNumeral_eq_false_of_isAlphabetic {c : Char} (h : isAlphabetic c = true) :
    isNumeral c = false := by
  cases hn : isNumeral c with
  | false => rfl
  | true => rw [isAlphabetic_eq_false_of_isNumeral hn] at h; cases h

namespace Operator

theorem isNumeral_symbol (op : Operator) : isNumeral op.symbol = false := by
  cases op <;> decide

theorem isAlphabetic_symbol (op : Operator) : isAlphabetic op.symbol = false := by
  cases op <;> decide +kernel

end Operator

theorem isNumeral_opening : isNumeral '(' = false := by
  decide

theorem isNumeral_closing : isNumeral ')' = false := by
  decide

theorem isAlphabetic_opening : isAlphabetic '(' = false :=
  isAlphabetic_eq_false_of_lt (by decide)

theorem isAlphabetic_closing : isAlphabetic ')' = false :=
  isAlphabetic_eq_false_of_lt (by decide)

namespace Token

/-! ## The first token of a text -/

/-- `t` can be the token of its characters where `next` follows them. -/
def Lexes : Token → Option Char → Prop
  | number first more, next => IsRun isNumeral (first :: more) next
  | word first more, next => IsRun isAlphabetic (first :: more) next
  | operator _, _ => True
  | opening, _ => True
  | closing, _ => True
  | stray c, _ => isNumeral c = false ∧ isAlphabetic c = false ∧ (∀ op : Operator, c ≠ op.symbol) ∧
      c ≠ '(' ∧ c ≠ ')'

/-- A character in neither class is the token that it makes, whatever follows it. -/
theorem lexes_ofMark {c : Char} (hn : isNumeral c = false) (ha : isAlphabetic c = false)
    (next : Option Char) : (ofMark c).Lexes next := by
  unfold ofMark
  split
  · trivial
  next hop =>
    split
    · trivial
    · split
      · trivial
      · refine ⟨hn, ha, fun op hc => ?_, ‹_›, ‹_›⟩
        rw [hc, Operator.ofSymbol?_symbol] at hop
        cases hop

/-- A character of a literal begins a literal, alone or in front of one. -/
theorem exists_number_of_push {c : Char} (hc : isNumeral c = true) (tokens : List Token) :
    ∃ more rest, push c tokens = number c more :: rest := by
  unfold push
  rw [if_pos hc]
  split
  · exact ⟨_, _, rfl⟩
  · exact ⟨_, _, rfl⟩

/-- A letter begins a name, alone or in front of one. -/
theorem exists_word_of_push {c : Char} (hc : isAlphabetic c = true) (tokens : List Token) :
    ∃ more rest, push c tokens = word c more :: rest := by
  unfold push
  rw [if_neg (by simp [isNumeral_eq_false_of_isAlphabetic hc]), if_pos hc]
  split
  · exact ⟨_, _, rfl⟩
  · exact ⟨_, _, rfl⟩

/-- If the tokens of a text do not begin with a literal, the text does not begin with a
character of one. -/
theorem head?_not_isNumeral {text : List Char}
    (h : ∀ first more rest, scan text ≠ number first more :: rest) :
    ∀ c ∈ text.head?, isNumeral c = false := by
  cases text with
  | nil => simp
  | cons c text =>
    intro d hd
    obtain rfl : c = d := by simpa using hd
    by_contra hc
    obtain ⟨more, rest, hpush⟩ := exists_number_of_push (by simpa using hc) (scan text)
    exact h _ _ _ hpush

/-- The same for names. -/
theorem head?_not_isAlphabetic {text : List Char}
    (h : ∀ first more rest, scan text ≠ word first more :: rest) :
    ∀ c ∈ text.head?, isAlphabetic c = false := by
  cases text with
  | nil => simp
  | cons c text =>
    intro d hd
    obtain rfl : c = d := by simpa using hd
    by_contra hc
    obtain ⟨more, rest, hpush⟩ := exists_word_of_push (by simpa using hc) (scan text)
    exact h _ _ _ hpush

/-- A text with tokens begins with the characters of the first one, and the other tokens
are those of the text after it. -/
theorem exists_of_scan_eq_cons : ∀ {text : List Char} {t : Token} {tokens : List Token},
    scan text = t :: tokens →
      ∃ rest, text = t.chars ++ rest ∧ tokens = scan rest ∧ t.Lexes rest.head?
  | [], _, _, h => by cases h
  | c :: text, t, tokens, h => by
    rw [scan_cons] at h
    unfold push at h
    split_ifs at h with hn ha
    · split at h
      · next first more rest hscan =>
        obtain ⟨rfl, rfl⟩ := List.cons_eq_cons.mp h
        obtain ⟨after, rfl, rfl, hrun⟩ := exists_of_scan_eq_cons hscan
        exact ⟨after, rfl, rfl, hrun.cons hn⟩
      · next hscan =>
        obtain ⟨rfl, rfl⟩ := List.cons_eq_cons.mp h
        exact ⟨text, rfl, rfl, .single hn (head?_not_isNumeral hscan)⟩
    · split at h
      · next first more rest hscan =>
        obtain ⟨rfl, rfl⟩ := List.cons_eq_cons.mp h
        obtain ⟨after, rfl, rfl, hrun⟩ := exists_of_scan_eq_cons hscan
        exact ⟨after, rfl, rfl, hrun.cons ha⟩
      · next hscan =>
        obtain ⟨rfl, rfl⟩ := List.cons_eq_cons.mp h
        exact ⟨text, rfl, rfl, .single ha (head?_not_isAlphabetic hscan)⟩
    · obtain ⟨rfl, rfl⟩ := List.cons_eq_cons.mp h
      refine ⟨text, ?_, rfl, lexes_ofMark (by simpa using hn) (by simpa using ha) _⟩
      rw [chars_ofMark]
      rfl

/-- Only the empty text has no tokens. -/
theorem scan_eq_nil_iff {text : List Char} : scan text = [] ↔ text = [] := by
  refine ⟨fun h => ?_, fun h => h ▸ scan_nil⟩
  rw [← flatMap_chars_scan text, h]
  rfl

/-! ## Texts with a given first token -/

/-- In front of anything but a literal, a character of one makes a literal of its own. -/
theorem push_number {c : Char} (hc : isNumeral c = true) {tokens : List Token}
    (h : ∀ first more rest, tokens ≠ number first more :: rest) :
    push c tokens = number c [] :: tokens := by
  unfold push
  rw [if_pos hc]
  split
  · exact absurd rfl (h _ _ _)
  · rfl

/-- The same for a letter. -/
theorem push_word {c : Char} (hc : isAlphabetic c = true) {tokens : List Token}
    (h : ∀ first more rest, tokens ≠ word first more :: rest) :
    push c tokens = word c [] :: tokens := by
  unfold push
  rw [if_neg (by simp [isNumeral_eq_false_of_isAlphabetic hc]), if_pos hc]
  split
  · exact absurd rfl (h _ _ _)
  · rfl

/-- A text that does not begin with a character of a literal does not begin with a literal. -/
theorem scan_ne_number {text : List Char} (h : ∀ c ∈ text.head?, isNumeral c = false)
    (first : Char) (more : List Char) (tokens : List Token) :
    scan text ≠ number first more :: tokens := by
  intro hscan
  obtain ⟨rest, rfl, -, hlex⟩ := exists_of_scan_eq_cons hscan
  have hfirst : isNumeral first = true := hlex.2.1 first List.mem_cons_self
  rw [h first rfl] at hfirst
  cases hfirst

/-- The same for names. -/
theorem scan_ne_word {text : List Char} (h : ∀ c ∈ text.head?, isAlphabetic c = false)
    (first : Char) (more : List Char) (tokens : List Token) :
    scan text ≠ word first more :: tokens := by
  intro hscan
  obtain ⟨rest, rfl, -, hlex⟩ := exists_of_scan_eq_cons hscan
  have hfirst : isAlphabetic first = true := hlex.2.1 first List.mem_cons_self
  rw [h first rfl] at hfirst
  cases hfirst

/-- A literal that ends where the rest of the text begins is the first token. -/
theorem scan_number {rest : List Char} : ∀ {more : List Char} {first : Char},
    IsRun isNumeral (first :: more) rest.head? →
      scan (first :: more ++ rest) = number first more :: scan rest
  | [], first, ⟨_, hrun, hnext⟩ =>
    push_number (hrun first (by simp)) (scan_ne_number hnext)
  | c :: more, first, ⟨_, hrun, hnext⟩ => by
    have ih : scan (c :: more ++ rest) = number c more :: scan rest :=
      scan_number ⟨by simp, fun d hd => hrun d (by simp [List.mem_cons.mp hd]), hnext⟩
    rw [List.cons_append, scan_cons, ih]
    simp [push, hrun first]

/-- A name that ends where the rest of the text begins is the first token. -/
theorem scan_word {rest : List Char} : ∀ {more : List Char} {first : Char},
    IsRun isAlphabetic (first :: more) rest.head? →
      scan (first :: more ++ rest) = word first more :: scan rest
  | [], first, ⟨_, hrun, hnext⟩ =>
    push_word (hrun first (by simp)) (scan_ne_word hnext)
  | c :: more, first, ⟨_, hrun, hnext⟩ => by
    have ih : scan (c :: more ++ rest) = word c more :: scan rest :=
      scan_word ⟨by simp, fun d hd => hrun d (by simp [List.mem_cons.mp hd]), hnext⟩
    have hfirst : isAlphabetic first = true := hrun first (by simp)
    rw [List.cons_append, scan_cons, ih]
    simp [push, hfirst, isNumeral_eq_false_of_isAlphabetic hfirst]

/-- A character in neither class stands for itself. -/
theorem scan_mark {c : Char} (hn : isNumeral c = false) (ha : isAlphabetic c = false)
    (rest : List Char) : scan (c :: rest) = ofMark c :: scan rest := by
  simp [push, hn, ha]

/-- Every symbol of an operator is its token. -/
theorem scan_symbol (op : Operator) (rest : List Char) :
    scan (op.symbol :: rest) = operator op :: scan rest := by
  rw [scan_mark op.isNumeral_symbol op.isAlphabetic_symbol, ofMark, Operator.ofSymbol?_symbol]

theorem scan_plus (rest : List Char) : scan ('+' :: rest) = operator .add :: scan rest :=
  scan_symbol .add rest

theorem scan_minus (rest : List Char) : scan ('-' :: rest) = operator .subtract :: scan rest :=
  scan_symbol .subtract rest

theorem scan_opening (rest : List Char) : scan ('(' :: rest) = opening :: scan rest :=
  scan_mark isNumeral_opening isAlphabetic_opening rest

theorem scan_closing (rest : List Char) : scan (')' :: rest) = closing :: scan rest :=
  scan_mark isNumeral_closing isAlphabetic_closing rest

/-- A character that is part of no formula is a token of its own. -/
theorem scan_stray {c : Char} {next : Option Char} (h : (stray c).Lexes next) (rest : List Char) :
    scan (c :: rest) = stray c :: scan rest := by
  obtain ⟨hn, ha, hsymbol, hopening, hclosing⟩ := h
  have hop : Operator.ofSymbol? c = none :=
    Option.eq_none_iff_forall_ne_some.mpr fun op hc =>
      hsymbol op (Operator.ofSymbol?_eq_some_iff.mp hc).symm
  rw [scan_mark hn ha, ofMark, hop]
  simp [hopening, hclosing]

/-! ## Texts one behind the other -/

/-- A character extends at most the first token. -/
theorem push_append (c : Char) (t : Token) (tokens rest : List Token) :
    push c (t :: tokens ++ rest) = push c (t :: tokens) ++ rest := by
  unfold push
  split_ifs
  · cases t <;> rfl
  · cases t <;> rfl
  · rfl

/-- Where a text ends that does not end in a letter, and one begins that does not begin with a
character of a literal, no token lies across the border. -/
theorem scan_append {rest : List Char} (hrest : ∀ d ∈ rest.head?, isNumeral d = false) :
    ∀ {text : List Char}, (∀ c ∈ text.getLast?, isAlphabetic c = false) →
      scan (text ++ rest) = scan text ++ scan rest
  | [], _ => rfl
  | [c], hlast => by
    have hc : isAlphabetic c = false := hlast c rfl
    cases hn : isNumeral c with
    | true =>
      have halone : scan [c] = [number c []] := push_number hn (by simp)
      rw [List.singleton_append, halone, scan_cons, push_number hn (scan_ne_number hrest),
        List.singleton_append]
    | false =>
      rw [List.singleton_append, scan_mark hn hc, scan_mark hn hc]
      rfl
  | c :: d :: text, hlast => by
    have ih : scan (d :: text ++ rest) = scan (d :: text) ++ scan rest := scan_append hrest hlast
    have hne : scan (d :: text) ≠ [] := fun h => List.cons_ne_nil d text (scan_eq_nil_iff.mp h)
    obtain ⟨t, tokens, hscan⟩ := List.exists_cons_of_ne_nil hne
    rw [List.cons_append, scan_cons, ih, hscan, push_append, ← hscan, ← scan_cons]

end Token

end Formula
