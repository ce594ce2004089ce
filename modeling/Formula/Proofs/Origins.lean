import Formula.Proofs.PhraseTokens
import Formula.Proofs.ReadingGrammar
import Mathlib.Data.List.Forall2

/-!
# Where the parts of a tree are written

Every constant, variable and call of a tree that is read is written in the text : as a literal
of the value, or as the name of the variable or builtin. These literals and names are maximal
runs (`RunAt`), and they stand in the text in the order in which the tree has its parts
(`parse_items`). So nothing is made up, and no part of the text is used twice.

A token of a text is a maximal run there (`Token.standsAt_of_mem_placed`), and the parts of the
tree of a phrase are read from some of its tokens (`Phrase.Fits.exists_read`). Not from all of
them, because a term after a variable is dropped.
-/

namespace Formula

/-! ## The places of tokens -/

namespace Token

/-- The characters that would make a token longer if they stood next to it. -/
def extendedBy : Token → Char → Bool
  | number _ _ => isNumeral
  | word _ _ => isAlphabetic
  | _ => fun _ => false

/-- The token stands in the text at the position, and it is no part of a longer one. -/
def StandsAt (t : Token) (text : List Char) (position : Nat) : Prop :=
  ∃ before after, text = before ++ (t.chars ++ after) ∧ before.length = position ∧
    (∀ c ∈ before.getLast?, t.extendedBy c = false) ∧ t.Lexes after.head?

/-- Tokens with the places where they stand, the first of them at `position`. -/
def placed : (position : Nat) → List Token → List (Nat × Token)
  | _, [] => []
  | position, t :: tokens => (position, t) :: placed (position + t.width) tokens

theorem map_snd_placed (tokens : List Token) :
    ∀ position, (placed position tokens).map Prod.snd = tokens := by
  induction tokens with
  | nil => exact fun _ => rfl
  | cons t tokens ih => exact fun position => congrArg (t :: ·) (ih _)

theorem le_of_mem_placed {tokens : List Token} {place : Nat × Token} :
    ∀ {position : Nat}, place ∈ placed position tokens → position ≤ place.1 := by
  induction tokens with
  | nil => exact fun h => absurd h List.not_mem_nil
  | cons t tokens ih =>
    intro position h
    obtain rfl | h := List.mem_cons.mp h
    · exact Nat.le_refl _
    · exact Nat.le_trans (Nat.le_add_right _ _) (ih h)

theorem pairwise_placed (tokens : List Token) :
    ∀ position, (placed position tokens).Pairwise fun a b => a.1 < b.1 := by
  induction tokens with
  | nil => exact fun _ => List.Pairwise.nil
  | cons t tokens ih =>
    refine fun position => List.Pairwise.cons (fun place h => ?_) (ih _)
    have hle : position + t.width ≤ place.1 := le_of_mem_placed h
    exact Nat.lt_of_lt_of_le (Nat.lt_add_of_pos_right (Nat.succ_pos _)) hle

variable {t : Token} {next : Option Char} {c : Char}

/-- A token is a literal or a name, or its characters are of neither class. -/
theorem Lexes.kinds (h : t.Lexes next) :
    (∃ first more, t = number first more) ∨ (∃ first more, t = word first more) ∨
      ∀ c ∈ t.chars, isNumeral c = false ∧ isAlphabetic c = false := by
  cases t with
  | number first more => exact .inl ⟨first, more, rfl⟩
  | word first more => exact .inr (.inl ⟨first, more, rfl⟩)
  | operator op =>
    exact .inr (.inr (List.forall_mem_singleton.mpr ⟨op.isNumeral_symbol, op.isAlphabetic_symbol⟩))
  | opening =>
    exact .inr (.inr (List.forall_mem_singleton.mpr ⟨isNumeral_opening, isAlphabetic_opening⟩))
  | closing =>
    exact .inr (.inr (List.forall_mem_singleton.mpr ⟨isNumeral_closing, isAlphabetic_closing⟩))
  | stray d => exact .inr (.inr (List.forall_mem_singleton.mpr ⟨h.1, h.2.1⟩))

/-- A token is not extended by the one before it. -/
theorem Lexes.extendedBy_eq_false {u : Token} (hu : u.Lexes (some t.first)) (ht : t.Lexes next)
    (hc : c ∈ u.chars) : t.extendedBy c = false := by
  cases t with
  | number first more =>
    have hfirst : isNumeral first = true := ht.2.1 first List.mem_cons_self
    obtain ⟨g, rest, rfl⟩ | ⟨g, rest, rfl⟩ | hmark := hu.kinds
    · exact absurd (hu.2.2 first rfl) (by simp [hfirst])
    · exact isNumeral_eq_false_of_isAlphabetic (hu.2.1 c hc)
    · exact (hmark c hc).1
  | word first more =>
    have hfirst : isAlphabetic first = true := ht.2.1 first List.mem_cons_self
    obtain ⟨g, rest, rfl⟩ | ⟨g, rest, rfl⟩ | hmark := hu.kinds
    · exact isAlphabetic_eq_false_of_isNumeral (hu.2.1 c hc)
    · exact absurd (hu.2.2 first rfl) (by simp [hfirst])
    · exact (hmark c hc).2
  | _ => rfl

/-- The tokens of a text stand where their widths put them. -/
theorem standsAt_of_mem_placed {tokens : List Token} : ∀ (before : List Char) {text : List Char},
    scan text = tokens → (∀ t ∈ tokens.head?, ∀ c ∈ before.getLast?, t.extendedBy c = false) →
      ∀ place ∈ placed before.length tokens, place.2.StandsAt (before ++ text) place.1 := by
  induction tokens with
  | nil => exact fun _ _ _ _ _ h => absurd h List.not_mem_nil
  | cons t tokens ih =>
    intro before text hscan hbefore place hplace
    obtain ⟨rest, rfl, htokens, hlex⟩ := exists_of_scan_eq_cons hscan
    obtain rfl | hplace := List.mem_cons.mp hplace
    · exact ⟨before, rest, rfl, rfl, hbefore t rfl, hlex⟩
    have hlength : before.length + t.width = (before ++ t.chars).length := by
      rw [List.length_append]
      rfl
    rw [hlength] at hplace
    rw [← List.append_assoc]
    refine ih _ htokens.symm (fun u hu c hc => ?_) place hplace
    -- What stands before the next token ends with the characters of `t`.
    obtain ⟨others, rfl⟩ : ∃ others, tokens = u :: others := List.head?_eq_some_iff.mp hu
    obtain ⟨after, rfl, -, hnext⟩ := exists_of_scan_eq_cons htokens.symm
    have hne : t.chars ≠ [] := List.cons_ne_nil _ _
    rw [List.getLast?_append_of_ne_nil _ hne] at hc
    have hmem : c ∈ t.chars := List.mem_of_getLast? hc
    exact Lexes.extendedBy_eq_false hlex hnext hmem

end Token

/-! ## The parts of a tree -/

/-- A constant, a variable or a call of a tree. -/
inductive Item
  | constant (value : Float)
  | var (name : String)
  | call (function : Builtin)

/-- The constants, variables and calls of a tree in the order in which they are written. -/
def Expr.items : Expr → List Item
  | constant value => [.constant value]
  | var name => [.var name]
  | negate inner => inner.items
  | call function argument => .call function :: argument.items
  | binary _ left right => left.items ++ right.items

/-- The run of characters of the class `p` stands in the text at the position, and no
character of the class stands next to it. -/
def RunAt (p : Char → Bool) (text run : List Char) (position : Nat) : Prop :=
  ∃ before after, text = before ++ (run ++ after) ∧ before.length = position ∧
    (∀ c ∈ before.getLast?, p c = false) ∧ IsRun p run after.head?

namespace Item

/-- The item is written in the text at the position : as a literal of its value, as a name
that no builtin has, or as the name of its builtin. -/
def WrittenAt (text : List Char) : Item → (position : Nat) → Prop
  | constant value, position =>
    ∃ literal, RunAt isNumeral text literal position ∧ readLiteral? literal = some value
  | var name, position =>
    RunAt isAlphabetic text name.toList position ∧ ∀ function ∈ Builtin.all, function.name ≠ name
  | call function, position =>
    RunAt isAlphabetic text function.name.toList position ∧ function ∈ Builtin.all

/-- The item is what the token stands for. -/
inductive ReadFrom : Item → Token → Prop
  | constant {first : Char} {more : List Char} {value : Float}
      (h : readLiteral? (first :: more) = some value) :
      ReadFrom (.constant value) (.number first more)
  | var {first : Char} {more : List Char}
      (h : Builtin.ofName? (String.ofList (first :: more)) = none) :
      ReadFrom (.var (String.ofList (first :: more))) (.word first more)
  | call {first : Char} {more : List Char} {function : Builtin}
      (h : function.name.toList = first :: more) : ReadFrom (.call function) (.word first more)

theorem ReadFrom.writtenAt {item : Item} {t : Token} {text : List Char} {position : Nat}
    (h : item.ReadFrom t) (hplace : t.StandsAt text position) : item.WrittenAt text position := by
  cases h with
  | constant hvalue => exact ⟨_, hplace, hvalue⟩
  | var hname =>
    refine ⟨?_, fun function _ heq => ?_⟩
    · rw [String.toList_ofList]
      exact hplace
    · rw [Builtin.ofName?_eq_some_iff.mpr heq] at hname
      cases hname
  | call hname =>
    refine ⟨?_, Builtin.mem_all _⟩
    rw [hname]
    exact hplace

end Item

/-- The parts of the tree of a phrase are read from tokens of the phrase, in their order. -/
theorem Phrase.Fits.exists_read : ∀ {p : Phrase} {next : Option Char}, p.Fits next →
    ∃ taken, List.Forall₂ Item.ReadFrom p.tree.items taken ∧ taken.Sublist p.tokens
  | .number literal value, _, ⟨hrun, hvalue⟩ => by
    obtain ⟨first, more, rfl, halone⟩ := hrun.scan_number
    rw [tokens, halone]
    exact ⟨_, .cons (.constant hvalue) .nil, List.Sublist.refl _⟩
  | .name letters, _, ⟨⟨hrun, hname⟩, _⟩ => by
    obtain ⟨first, more, rfl, halone⟩ := hrun.scan_word
    rw [tokens, halone]
    exact ⟨_, .cons (.var hname) .nil, List.Sublist.refl _⟩
  | .nameBefore letters dropped, _, ⟨⟨hrun, hname⟩, _⟩ => by
    obtain ⟨first, more, rfl, halone⟩ := hrun.scan_word
    rw [tokens, halone]
    exact ⟨_, .cons (.var hname) .nil, List.sublist_append_left _ _⟩
  | .call function argument, _, ⟨hrun, _, hfits⟩ => by
    obtain ⟨first, more, hname, halone⟩ := hrun.scan_word
    obtain ⟨taken, hread, hsub⟩ := hfits.exists_read
    rw [tokens, halone]
    exact ⟨_, .cons (.call hname) hread, hsub.cons_cons _⟩
  | .plus inner, _, ⟨_, hfits⟩ => by
    obtain ⟨taken, hread, hsub⟩ := hfits.exists_read
    exact ⟨taken, hread, hsub.cons _⟩
  | .minus inner, _, ⟨_, hfits⟩ => by
    obtain ⟨taken, hread, hsub⟩ := hfits.exists_read
    exact ⟨taken, hread, hsub.cons _⟩
  | .group inner true, _, hfits => by
    obtain ⟨taken, hread, hsub⟩ := exists_read (p := inner) hfits
    exact ⟨taken, hread, (hsub.trans (List.sublist_append_left _ _)).cons _⟩
  | .group inner false, _, ⟨_, _, hfits⟩ => by
    obtain ⟨taken, hread, hsub⟩ := hfits.exists_read
    exact ⟨taken, hread, hsub.cons _⟩
  | .binary op left right, _, ⟨_, hleft, _, hright, _⟩ => by
    obtain ⟨taken, hread, hsub⟩ := hleft.exists_read
    obtain ⟨taken', hread', hsub'⟩ := hright.exists_read
    exact ⟨taken ++ taken', List.rel_append hread hread', hsub.append (hsub'.cons _)⟩

/-- What is read from tokens of a text in their order is written there, from left to right. -/
theorem exists_positions {text : List Char} {items : List Item} {taken : List Token}
    (hread : List.Forall₂ Item.ReadFrom items taken) (hsub : taken.Sublist (Token.scan text)) :
    ∃ positions : List Nat, positions.Pairwise (· < ·) ∧
      List.Forall₂ (Item.WrittenAt text) items positions := by
  rw [← Token.map_snd_placed (Token.scan text) 0] at hsub
  obtain ⟨places, hplaces, rfl⟩ := List.sublist_map_iff.mp hsub
  have hstands : ∀ place ∈ places, place.2.StandsAt text place.1 := fun place hplace =>
    Token.standsAt_of_mem_placed [] rfl (by simp) place (hplaces.subset hplace)
  refine ⟨places.map Prod.fst, List.pairwise_map.mpr ?_, List.forall₂_map_right_iff.mpr ?_⟩
  · exact (Token.pairwise_placed _ 0).sublist hplaces
  · have hboth := (List.forall₂_and_left _ _).mpr
      ⟨hstands, (List.forall₂_map_right_iff.mp hread).flip⟩
    exact (hboth.imp fun place item h => h.2.writtenAt h.1).flip

/-- An item of a tree is written in the normal form that the tree was read from. -/
theorem exists_writtenAt {raw : String} {tree : Expr} (hparse : parse raw = .ok tree) {item : Item}
    (hitem : item ∈ tree.items) : ∃ position, item.WrittenAt (normalize raw).toList position := by
  rw [parse_eq_result_formula] at hparse
  obtain ⟨p, htext, rfl, hfits, -, -⟩ := Reading.result_formula_eq_ok_iff.mp hparse
  obtain ⟨taken, hread, hsub⟩ := hfits.exists_read
  rw [← hfits.scan_text, htext] at hsub
  obtain ⟨positions, -, hwritten⟩ := exists_positions hread hsub
  obtain ⟨k, hk, rfl⟩ := List.getElem_of_mem hitem
  exact ⟨_, hwritten.get hk (hwritten.length_eq ▸ hk)⟩

/-- A tree that is read is within the limit, as every tree is that is built on the way, with
the height that is kept beside it. Its constants, variables and calls are written in the normal
form of the text, from left to right. -/
theorem parse_items {raw : String} {tree : Expr} (h : parse raw = .ok tree) :
    (tree.height ≤ maxDepth ∧
      ∀ (start : Cursor) (p : Parsed start), p.height = p.tree.height ∧ p.height ≤ maxDepth) ∧
    ∃ positions : List Nat, positions.Pairwise (· < ·) ∧
      List.Forall₂ (Item.WrittenAt (normalize raw).toList) tree.items positions := by
  rw [parse_eq_result_formula] at h
  refine ⟨⟨?_, fun start p => ⟨p.height_eq, p.height_le⟩⟩, ?_⟩
  · obtain ⟨next, ⟨p, -, rfl, -⟩, -⟩ := Reading.result_formula_eq_ok_iff_yields.mp h
    exact p.height_eq ▸ p.height_le
  · obtain ⟨p, htext, rfl, hfits, -, -⟩ := Reading.result_formula_eq_ok_iff.mp h
    obtain ⟨taken, hread, hsub⟩ := hfits.exists_read
    rw [← hfits.scan_text, htext] at hsub
    exact exists_positions hread hsub

/-- The term after the variable is dropped, and no part of the tree is written there. -/
theorem parse_items_dropped :
    parse "√2 + ab7" = .ok (.binary .add
      (.call .sqrt (.constant (Float.ofScientific 2 true 0))) (.var "ab")) ∧
    ∃ positions : List Nat, positions.Pairwise (· < ·) ∧
      List.Forall₂ (Item.WrittenAt "sqrt2+ab7".toList)
        [.call .sqrt, .constant (Float.ofScientific 2 true 0), .var "ab"] positions := by
  have h : parse "√2 + ab7" = .ok (.binary .add
      (.call .sqrt (.constant (Float.ofScientific 2 true 0))) (.var "ab")) := by decide +kernel
  have hnormal : (normalize "√2 + ab7").toList = "sqrt2+ab7".toList := by decide +kernel
  have hitems := (parse_items h).2
  rw [hnormal] at hitems
  exact ⟨h, hitems⟩

end Formula
