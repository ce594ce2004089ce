import Formula.Proofs.ReadingGrammar

/-!
# Fronts of phrases

A text that is no formula still begins like one. A `Frame` is one construct that is open at
some place, with what is written of it before the part that has to follow there, and a front
is the list of the open frames from the outside in. The reader has a `Goal` at every place :
`Descends` says which goal it has come to behind a front, and one frame is one step of it
(`Opens`).

An `Obstacle` is what the reader cannot get past with its goal. A text is `Blocked` if it has
a front with an obstacle behind it, and the error is that of the obstacle. Everything said
here about an obstacle depends on the text up to it and on the one character behind it.
-/

namespace Formula

/-- A construct of which the last part is still to come. -/
inductive Frame
  /-- A variable, with a term in the slot after it. -/
  | slot (letters : List Char)
  | call (function : Builtin)
  | plus
  | minus
  | group
  /-- A chain up to an operator. -/
  | operand (operator : Operator) (left : Phrase)

/-- What is to be read : a phrase of a tier from `rank` on, with room for `room` levels of
terms. If it is `optional`, it may be missing. -/
structure Goal where
  rank : Nat
  room : Nat
  optional : Bool

namespace Frame

/-- The characters of a frame. -/
def text : Frame → List Char
  | slot letters => letters
  | call function => function.name.toList
  | plus => ['+']
  | minus => ['-']
  | group => ['(']
  | operand operator left => left.text ++ [operator.symbol]

/-- The phrase that a frame makes with its last part. A group is left open. -/
def fill (part : Phrase) : Frame → Phrase
  | slot letters => .nameBefore letters part
  | call function => .call function part
  | plus => .plus part
  | minus => .minus part
  | group => .group part false
  | operand operator left => .binary operator left part

theorem text_fill (f : Frame) (part : Phrase) : (f.fill part).text = f.text ++ part.text := by
  cases f <;> simp [fill, text, Phrase.text]

end Frame

/-- With the first goal, the reader of a frame comes to the second goal where `next`
follows. -/
inductive Opens : Goal → Frame → Goal → Option Char → Prop
  | slot {rank room : Nat} {optional : Bool} {letters : List Char} {next : Option Char}
      (rank_le : rank ≤ 3) (h : Phrase.IsVariable letters next) :
      Opens ⟨rank, room + 1, optional⟩ (.slot letters) ⟨3, room, true⟩ next
  | call {rank room : Nat} {optional : Bool} {function : Builtin} {next : Option Char}
      (rank_le : rank ≤ 3) (h : IsRun isAlphabetic function.name.toList next) :
      Opens ⟨rank, room + 1, optional⟩ (.call function) ⟨3, room, false⟩ next
  | plus {rank room : Nat} {optional : Bool} {next : Option Char} (rank_le : rank ≤ 3) :
      Opens ⟨rank, room + 1, optional⟩ .plus ⟨3, room, false⟩ next
  | minus {rank room : Nat} {optional : Bool} {next : Option Char} (rank_le : rank ≤ 3) :
      Opens ⟨rank, room + 1, optional⟩ .minus ⟨3, room, false⟩ next
  | group {rank room : Nat} {optional : Bool} {next : Option Char} (rank_le : rank ≤ 3) :
      Opens ⟨rank, room + 1, optional⟩ .group ⟨0, room, false⟩ next
  | operand {rank room : Nat} {optional : Bool} {operator : Operator} {left : Phrase}
      {next : Option Char} (rank_le : rank ≤ operator.rank)
      (h : left.Stands operator.rank room (some operator.symbol)) :
      Opens ⟨rank, room, optional⟩ (.operand operator left) ⟨operator.rank + 1, room, false⟩
        next

/-- The characters of open frames, from the outside in. -/
def frontText (front : List Frame) : List Char :=
  front.flatMap Frame.text

@[simp] theorem frontText_nil : frontText [] = [] :=
  rfl

@[simp] theorem frontText_cons (f : Frame) (front : List Frame) :
    frontText (f :: front) = f.text ++ frontText front :=
  rfl

/-- With the first goal, the reader of a front comes to the second goal where `next`
follows. -/
inductive Descends : Goal → List Frame → Goal → Option Char → Prop
  | here {g : Goal} {next : Option Char} : Descends g [] g next
  | step {g g' h : Goal} {f : Frame} {front : List Frame} {next : Option Char}
      (hopens : Opens g f g' ((frontText front).head?.or next)) (hrest : Descends g' front h next) :
      Descends g (f :: front) h next

/-- The phrase is higher than the limit, but its parts are not. -/
inductive Phrase.Overgrown : Phrase → Prop
  | minus {inner : Phrase} (peak_le : inner.peak ≤ maxDepth)
      (h : maxDepth < (Expr.negate inner.tree).height) : Overgrown (.minus inner)
  | call {function : Builtin} {argument : Phrase} (peak_le : argument.peak ≤ maxDepth)
      (h : maxDepth < (Expr.call function argument.tree).height) :
      Overgrown (.call function argument)
  | binary {operator : Operator} {left right : Phrase} (left_le : left.peak ≤ maxDepth)
      (right_le : right.peak ≤ maxDepth)
      (h : maxDepth < (Expr.binary operator left.tree right.tree).height) :
      Overgrown (.binary operator left right)

/-- What keeps reading from going on. -/
inductive Obstacle
  /-- No level of terms is left. -/
  | deep
  /-- There is no term where one is required. -/
  | missing
  /-- A character that is no part of any formula. -/
  | stray
  /-- Digits and points that are no number. -/
  | malformed (literal : List Char)
  /-- A node that is too high. -/
  | high (part : Phrase)

/-- The error for a place where a term has to start and `next` stands. -/
def ParseError.unexpected (next : Option Char) (position : Nat) : ParseError :=
  match next with
  | none => .unexpectedEnd position
  | some c => .unexpectedChar c position

namespace Obstacle

/-- The characters up to the one that shows the obstacle. -/
def text : Obstacle → List Char
  | deep => []
  | missing => []
  | stray => []
  | malformed literal => literal
  | high part => part.text

/-- With the goal, the reader meets the obstacle where `next` follows its characters. -/
def At (g : Goal) (next : Option Char) : Obstacle → Prop
  | deep => g.room = 0
  | missing => 0 < g.room ∧ g.optional = false ∧ EmptySlot next
  | stray => 0 < g.room ∧ ∃ c ∈ next, (Token.stray c).Lexes none
  | malformed literal =>
    0 < g.room ∧ IsRun isNumeral literal next ∧ readLiteral? literal = none
  | high part =>
    g.rank ≤ part.rank ∧ part.Fits next ∧ part.depth ≤ g.room ∧ part.Overgrown

/-- The error at an obstacle that starts at a place, where `next` follows its characters. -/
def error (position : Nat) (next : Option Char) : Obstacle → ParseError
  | deep => .tooDeep position
  | missing => .unexpected next position
  | stray => .unexpected next position
  | malformed literal => .invalidNumber (String.ofList literal) position
  | high part => .tooDeep (position + part.text.length)

end Obstacle

/-- With the goal, the reader of the text meets an obstacle, which gives the error. -/
def Blocked (g : Goal) (position : Nat) (text : List Char) (e : ParseError) : Prop :=
  ∃ (front : List Frame) (h : Goal) (obstacle : Obstacle) (rest : List Char),
    text = frontText front ++ (obstacle.text ++ rest) ∧
    Descends g front h (obstacle.text ++ rest).head? ∧ obstacle.At h rest.head? ∧
    e = obstacle.error (position + (frontText front).length) rest.head?

/-! ## One step of a front -/

section Step

variable {g g' : Goal} {position : Nat} {text : List Char} {e : ParseError}

theorem Blocked.here (obstacle : Obstacle) {rest : List Char} (h : obstacle.At g rest.head?) :
    Blocked g position (obstacle.text ++ rest) (obstacle.error position rest.head?) :=
  ⟨[], g, obstacle, rest, rfl, .here, h, rfl⟩

theorem Blocked.step {f : Frame} (hopens : Opens g f g' text.head?)
    (h : Blocked g' (position + f.text.length) text e) : Blocked g position (f.text ++ text) e := by
  obtain ⟨front, h, obstacle, rest, rfl, hdescends, hat, rfl⟩ := h
  rw [List.head?_append] at hopens
  refine ⟨f :: front, h, obstacle, rest, ?_, .step hopens hdescends, hat, ?_⟩
  · rw [frontText_cons, List.append_assoc]
  · rw [frontText_cons, List.length_append, Nat.add_assoc]

/-- A chain is blocked where its next operand is. -/
theorem Blocked.operand {rank room : Nat} {optional : Bool} {op : Operator} {left : Phrase}
    (rank_le : rank ≤ op.rank) (hleft : left.Stands op.rank room (some op.symbol))
    (h : Blocked ⟨op.rank + 1, room, false⟩ (position + left.text.length + 1) text e) :
    Blocked ⟨rank, room, optional⟩ position (left.text ++ op.symbol :: text) e := by
  have hlength : position + left.text.length + 1 =
      position + (Frame.operand op left).text.length := by
    simp [Frame.text, Nat.add_assoc]
  rw [hlength] at h
  simpa [Frame.text] using Blocked.step (.operand rank_le hleft) h

/-- A negation is blocked where it is too high. -/
theorem Blocked.minus {rank room : Nat} {optional : Bool} {inner : Phrase} (rank_le : rank ≤ 3)
    (hinner : inner.Stands 3 room text.head?)
    (hheight : maxDepth < (Expr.negate inner.tree).height) :
    Blocked ⟨rank, room + 1, optional⟩ position ('-' :: (inner.text ++ text))
      (.tooDeep (position + 1 + inner.text.length)) := by
  have hat : (Obstacle.high (.minus inner)).At ⟨rank, room + 1, optional⟩ text.head? :=
    ⟨rank_le, ⟨Reading.isTerm_of_stands hinner, hinner.fits⟩, Nat.succ_le_succ hinner.depth_le,
      .minus hinner.peak_le hheight⟩
  rw [Nat.add_assoc, Nat.add_comm 1]
  exact .here (.high (.minus inner)) hat

/-- A call is blocked where it is too high. -/
theorem Blocked.call {rank room : Nat} {optional : Bool} {function : Builtin} {argument : Phrase}
    (rank_le : rank ≤ 3)
    (hrun : IsRun isAlphabetic function.name.toList (argument.text ++ text).head?)
    (hargument : argument.Stands 3 room text.head?)
    (hheight : maxDepth < (Expr.call function argument.tree).height) :
    Blocked ⟨rank, room + 1, optional⟩ position (function.name.toList ++ (argument.text ++ text))
      (.tooDeep (position + function.name.toList.length + argument.text.length)) := by
  rw [Phrase.head?_text_append hargument.fits] at hrun
  have hat : (Obstacle.high (.call function argument)).At ⟨rank, room + 1, optional⟩
      text.head? :=
    ⟨rank_le, ⟨hrun, Reading.isTerm_of_stands hargument, hargument.fits⟩,
      Nat.succ_le_succ hargument.depth_le, .call hargument.peak_le hheight⟩
  rw [Nat.add_assoc, ← List.length_append, ← List.append_assoc]
  exact .here (.high (.call function argument)) hat

/-- A chain is blocked where its next node is too high. -/
theorem Blocked.binary {rank room : Nat} {optional : Bool} {op : Operator} {left right : Phrase}
    (rank_le : rank ≤ op.rank) (hleft : left.Stands op.rank room (some op.symbol))
    (hright : right.Stands (op.rank + 1) room text.head?)
    (hstops : Stops (op.rank + 1) text.head?)
    (hheight : maxDepth < (Expr.binary op left.tree right.tree).height) :
    Blocked ⟨rank, room, optional⟩ position (left.text ++ op.symbol :: (right.text ++ text))
      (.tooDeep (position + left.text.length + 1 + right.text.length)) := by
  have hat : (Obstacle.high (.binary op left right)).At ⟨rank, room, optional⟩ text.head? :=
    ⟨rank_le, ⟨hleft.rank_le, hleft.fits, hright.rank_le, hright.fits, hstops⟩,
      Nat.max_le.mpr ⟨hleft.depth_le, hright.depth_le⟩,
      .binary hleft.peak_le hright.peak_le hheight⟩
  rw [← Phrase.text_binary_append, ← Phrase.add_length_text_binary]
  exact .here (.high (.binary op left right)) hat

/-- A blocked text begins with an obstacle, or with a frame in front of a blocked text. -/
theorem blocked_iff :
    Blocked g position text e ↔
      (∃ (obstacle : Obstacle) (rest : List Char), text = obstacle.text ++ rest ∧
        obstacle.At g rest.head? ∧ e = obstacle.error position rest.head?) ∨
      ∃ (f : Frame) (g' : Goal) (after : List Char), text = f.text ++ after ∧
        Opens g f g' after.head? ∧ Blocked g' (position + f.text.length) after e := by
  refine ⟨?_, ?_⟩
  · rintro ⟨front, h, obstacle, rest, rfl, hdescends, hat, rfl⟩
    cases hdescends with
    | here => exact .inl ⟨obstacle, rest, rfl, hat, rfl⟩
    | @step _ g' _ f front _ hopens hrest =>
      rw [← List.head?_append] at hopens
      refine .inr ⟨f, g', _, ?_, hopens, front, h, obstacle, rest, rfl, hrest, hat, ?_⟩
      · rw [frontText_cons, List.append_assoc]
      · rw [frontText_cons, List.length_append, Nat.add_assoc]
  · rintro (⟨obstacle, rest, rfl, hat, rfl⟩ | ⟨f, g', after, rfl, hopens, h⟩)
    · exact .here obstacle hat
    · exact .step hopens h

theorem Opens.weaken {rank rank' room : Nat} {optional optional' : Bool} {f : Frame}
    {next : Option Char} (h : Opens ⟨rank, room, optional⟩ f g' next) (hle : rank' ≤ rank) :
    Opens ⟨rank', room, optional'⟩ f g' next := by
  cases h with
  | slot rank_le h => exact .slot (Nat.le_trans hle rank_le) h
  | call rank_le h => exact .call (Nat.le_trans hle rank_le) h
  | plus rank_le => exact .plus (Nat.le_trans hle rank_le)
  | minus rank_le => exact .minus (Nat.le_trans hle rank_le)
  | group rank_le => exact .group (Nat.le_trans hle rank_le)
  | operand rank_le h => exact .operand (Nat.le_trans hle rank_le) h

theorem Obstacle.At.weaken {rank rank' room : Nat} {optional : Bool} {obstacle : Obstacle}
    {next : Option Char} (h : obstacle.At ⟨rank, room, optional⟩ next) (hle : rank' ≤ rank) :
    obstacle.At ⟨rank', room, optional⟩ next := by
  cases obstacle with
  | high part => exact ⟨Nat.le_trans hle h.1, h.2⟩
  | deep | missing | stray | malformed => exact h

/-- What blocks the chains of a tier blocks those of the tiers before it. -/
theorem Blocked.weaken {rank rank' room : Nat} {optional : Bool}
    (h : Blocked ⟨rank, room, optional⟩ position text e) (hle : rank' ≤ rank) :
    Blocked ⟨rank', room, optional⟩ position text e := by
  obtain ⟨obstacle, rest, rfl, hat, rfl⟩ | ⟨f, g', after, rfl, hopens, h⟩ := blocked_iff.mp h
  · exact .here obstacle (hat.weaken hle)
  · exact .step (hopens.weaken hle) h

/-- A chain is blocked where its first operand is, or behind an operator of its tier : where
the operand after it is, or where the node is too high. -/
theorem blocked_chain_iff {rank room : Nat} (hthree : rank < 3) :
    Blocked ⟨rank, room, false⟩ position text e ↔
      Blocked ⟨rank + 1, room, false⟩ position text e ∨
      ∃ (op : Operator) (left : Phrase) (after : List Char), op.rank = rank ∧
        text = left.text ++ op.symbol :: after ∧
        left.Stands rank room (some op.symbol) ∧
        (Blocked ⟨rank + 1, room, false⟩ (position + left.text.length + 1) after e ∨
          ∃ (right : Phrase) (rest : List Char), after = right.text ++ rest ∧
            right.Stands (rank + 1) room rest.head? ∧ Stops (rank + 1) rest.head? ∧
            maxDepth < (Expr.binary op left.tree right.tree).height ∧
            e = .tooDeep (position + left.text.length + 1 + right.text.length)) := by
  refine ⟨fun h => ?_, ?_⟩
  · obtain ⟨obstacle, rest, rfl, hat, rfl⟩ | ⟨f, g', after, rfl, hopens, hafter⟩ :=
      blocked_iff.mp h
    · cases obstacle with
      | deep | missing | stray | malformed => exact .inl (.here _ hat)
      | high part =>
        obtain ⟨hrank, hfits, hdepth, hovergrown⟩ := hat
        rcases Nat.lt_or_eq_of_le hrank with hlt | heq
        · exact .inl (.here (.high part) ⟨hlt, hfits, hdepth, hovergrown⟩)
        cases hovergrown with
        | minus | call => exact absurd heq (Nat.ne_of_lt hthree)
        | @binary op left right hpeak hpeak' hheight =>
          obtain rfl : rank = op.rank := heq
          obtain ⟨hrank, hfits, hrank', hfits', hstops⟩ := hfits
          obtain ⟨hdepth, hdepth'⟩ := Nat.max_le.mp hdepth
          refine .inr ⟨op, left, right.text ++ rest, rfl, ?_, ⟨hrank, hfits, hdepth, hpeak⟩,
            .inr ⟨right, rest, rfl, ⟨hrank', hfits', hdepth', hpeak'⟩, hstops, hheight, ?_⟩⟩
          · exact Phrase.text_binary_append ..
          · rw [Obstacle.error, Phrase.add_length_text_binary]
    · cases hopens with
      | slot rank_le hname => exact .inl (.step (.slot hthree hname) hafter)
      | call rank_le hrun => exact .inl (.step (.call hthree hrun) hafter)
      | plus => exact .inl (.step (.plus hthree) hafter)
      | minus => exact .inl (.step (.minus hthree) hafter)
      | group => exact .inl (.step (.group hthree) hafter)
      | @operand _ _ _ op left _ rank_le hleft =>
        rcases Nat.lt_or_eq_of_le rank_le with hlt | heq
        · exact .inl (.step (.operand hlt hleft) hafter)
        obtain rfl : rank = op.rank := heq
        have hlength : position + (Frame.operand op left).text.length =
            position + left.text.length + 1 := by
          simp [Frame.text, Nat.add_assoc]
        rw [hlength] at hafter
        exact .inr ⟨op, left, after, rfl, by simp [Frame.text], hleft, .inl hafter⟩
  · rintro (h | ⟨op, left, after, rfl, rfl, hleft,
      h | ⟨right, rest, rfl, hright, hstops, hheight, rfl⟩⟩)
    · exact h.weaken (Nat.le_succ _)
    · exact .operand (Nat.le_refl _) hleft h
    · exact .binary (Nat.le_refl _) hleft hright hstops hheight

/-- A missing term apart, it makes no difference to an obstacle whether a term is required. -/
theorem Obstacle.at_required_iff {rank room : Nat} {obstacle : Obstacle} {next : Option Char} :
    obstacle.At ⟨rank, room, false⟩ next ↔
      obstacle.At ⟨rank, room, true⟩ next ∨ obstacle = .missing ∧ 0 < room ∧ EmptySlot next := by
  cases obstacle <;> simp [At]

/-- A term that is required is blocked where an optional one would be, and where it is
missing. -/
theorem blocked_required_iff {rank room : Nat} :
    Blocked ⟨rank, room, false⟩ position text e ↔ Blocked ⟨rank, room, true⟩ position text e ∨
      0 < room ∧ EmptySlot text.head? ∧ e = .unexpected text.head? position := by
  refine ⟨fun h => ?_, ?_⟩
  · obtain ⟨obstacle, rest, rfl, hat, rfl⟩ | ⟨f, g', after, rfl, hopens, h⟩ := blocked_iff.mp h
    · obtain hat | ⟨rfl, hroom, hempty⟩ := Obstacle.at_required_iff.mp hat
      · exact .inl (.here obstacle hat)
      · exact .inr ⟨hroom, hempty, rfl⟩
    · exact .inl (.step (hopens.weaken (Nat.le_refl _)) h)
  · rintro (h | ⟨hroom, hempty, rfl⟩)
    · obtain ⟨obstacle, rest, rfl, hat, rfl⟩ | ⟨f, g', after, rfl, hopens, h⟩ := blocked_iff.mp h
      · exact .here obstacle (Obstacle.at_required_iff.mpr (.inl hat))
      · exact .step (hopens.weaken (Nat.le_refl _)) h
    · exact .here .missing ⟨hroom, rfl, hempty⟩

/-- With no level left every term is blocked at once. -/
theorem blocked_term_zero_iff {optional : Bool} :
    Blocked ⟨3, 0, optional⟩ position text e ↔ e = .tooDeep position := by
  refine ⟨fun h => ?_, ?_⟩
  · obtain ⟨obstacle, rest, rfl, hat, rfl⟩ | ⟨f, g', after, rfl, hopens, h⟩ := blocked_iff.mp h
    · cases obstacle with
      | deep => rfl
      | missing | stray | malformed => exact absurd hat.1 (Nat.lt_irrefl _)
      | high part => exact absurd hat.2.2.1 (Nat.not_le.mpr part.depth_pos)
    · cases hopens with
      | operand rank_le => exact absurd rank_le (Nat.not_le.mpr (Operator.rank_lt_three _))
  · rintro rfl
    exact .here .deep rfl

end Step

end Formula
