import Formula.Proofs.Contract
import Formula.Proofs.ReadingFailures

/-!
# The contract of the reader

Whatever a routine gives back, it leaves the head at the depth where it found it, and not before
the place where it found it. A tree takes characters, and no chain ends in front of an operator
that it could go on with. Nothing is given back only for a term, and then the head stands where it
stood, in front of what leaves a slot empty (`Routine.Ends`).

What is given back, and the place where it is given back, is what the reader of tokens comes to
from the same place with the levels that are left (`Routine.Reads`). So the contract says of the
routines both how they treat the head and that they are the reader once more.
-/

namespace Formula

open Reading

variable {text : List Char} {h h' entry : Head} {reply : Reply}

/-! ## The text under the head -/

namespace Head

/-- The place as a cursor over tokens. The open levels are no part of it. -/
def cursor (text : List Char) (h : Head) : Cursor :=
  .of h.position (h.rest text)

/-- The levels of terms that are left. -/
def room (h : Head) : Nat :=
  maxDepth - h.depth

theorem head?_rest (text : List Char) (h : Head) : (h.rest text).head? = h.current text :=
  List.head?_drop

variable {c : Char}

theorem lt_length_of_current (hc : h.current text = some c) : h.position < text.length :=
  (List.getElem?_eq_some_iff.mp hc).1

/-- The text from the head on is the character under it and the text from behind it. -/
theorem rest_eq_cons (hc : h.current text = some c) (depth : Nat) :
    h.rest text = c :: rest text ⟨h.position + 1, depth⟩ := by
  obtain ⟨hlt, rfl⟩ := List.getElem?_eq_some_iff.mp hc
  exact List.drop_eq_getElem_cons hlt

/-- Behind the run from the head on stands what is left of the text without it. -/
theorem rest_behind_run (text : List Char) (p : Char → Bool) (h : Head) (depth : Nat) :
    rest text ⟨h.position + (h.run text p).length, depth⟩ = (h.rest text).dropWhile p := by
  have hsplit : h.run text p ++ (h.rest text).dropWhile p = h.rest text :=
    List.takeWhile_append_dropWhile
  have hdrop : rest text ⟨h.position + (h.run text p).length, depth⟩ =
      (h.rest text).drop (h.run text p).length := List.drop_drop.symm
  rw [hdrop]
  conv_lhs => rw [← hsplit]
  exact List.drop_left

/-- The text from the head on is a run and the text from behind the run. -/
theorem rest_eq_append (text : List Char) (p : Char → Bool) (h : Head) (depth : Nat) :
    h.rest text = h.run text p ++ rest text ⟨h.position + (h.run text p).length, depth⟩ := by
  rw [rest_behind_run]
  exact List.takeWhile_append_dropWhile.symm

theorem isRun_run {p : Char → Bool} (hc : h.current text = some c) (hp : p c = true)
    (depth : Nat) :
    IsRun p (h.run text p)
      (rest text ⟨h.position + (h.run text p).length, depth⟩).head? := by
  refine ⟨?_, List.all_eq_true.mp List.all_takeWhile, fun d hd => ?_⟩
  · rw [run, rest_eq_cons hc 0, List.takeWhile_cons_of_pos hp]
    exact List.cons_ne_nil _ _
  · rw [rest_behind_run] at hd
    have hnot := List.head?_dropWhile_not p (h.rest text)
    rw [Option.mem_def.mp hd] at hnot
    simpa using hnot

/-- A run ends within the text. -/
theorem add_length_run_le (p : Char → Bool) (hle : h.position ≤ text.length) :
    h.position + (h.run text p).length ≤ text.length := by
  have hrun : (h.run text p).length ≤ (h.rest text).length :=
    (List.takeWhile_sublist p).length_le
  have hrest : (h.rest text).length = text.length - h.position := List.length_drop
  omega

theorem operator?_eq_some_iff {tier : Tier} {op : Operator} :
    h.operator? text tier = some op ↔ h.current text = some op.symbol ∧ op.tier = tier := by
  simp only [operator?, Option.filter_eq_some_iff, Option.bind_eq_some_iff,
    Operator.ofSymbol?_eq_some_iff, decide_eq_true_eq, exists_eq_right']

/-- The tokens from a character on that is a token of its own. -/
theorem cursor_eq_cons (hc : h.current text = some c) {t : Token}
    (ht : ∀ rest, Token.scan (c :: rest) = t :: Token.scan rest) :
    h.cursor text = ⟨h.position, t :: (cursor text ⟨h.position + 1, h.depth⟩).tokens⟩ := by
  rw [cursor, rest_eq_cons hc h.depth, Cursor.of, ht]
  rfl

/-- The tokens from a run on that is a token of its own. -/
theorem cursor_eq_run {p : Char → Bool} {t : Char → List Char → Token}
    (hc : h.current text = some c) (hp : p c = true)
    (ht : ∀ {first : Char} {more rest : List Char}, IsRun p (first :: more) rest.head? →
      Token.scan (first :: more ++ rest) = t first more :: Token.scan rest) :
    ∃ first more, h.run text p = first :: more ∧
      h.cursor text = ⟨h.position, t first more ::
        (cursor text ⟨h.position + (first :: more).length, h.depth⟩).tokens⟩ := by
  have hrun := isRun_run hc hp h.depth
  have hrest := rest_eq_append text p h h.depth
  obtain ⟨first, more, heq⟩ := List.exists_cons_of_ne_nil hrun.1
  rw [heq] at hrun hrest
  refine ⟨first, more, heq, ?_⟩
  rw [cursor, hrest, Cursor.of, ht hrun]
  rfl

/-- The head came from the one place to the other and is at the same depth. -/
structure Balanced (text : List Char) (h h' : Head) : Prop where
  depth_eq : h'.depth = h.depth
  position_le : h.position ≤ h'.position
  le_length : h'.position ≤ text.length

theorem Balanced.refl (hle : h.position ≤ text.length) : h.Balanced text h :=
  ⟨rfl, Nat.le_refl _, hle⟩

theorem Balanced.trans {h'' : Head} (hb : h.Balanced text h') (hb' : h'.Balanced text h'') :
    h.Balanced text h'' :=
  ⟨hb'.depth_eq.trans hb.depth_eq, Nat.le_trans hb.position_le hb'.position_le, hb'.le_length⟩

theorem Balanced.room_eq (hb : h.Balanced text h') : h'.room = h.room :=
  congrArg (maxDepth - ·) hb.depth_eq

theorem balanced_skip {count : Nat} (hle : h.position + count ≤ text.length) :
    h.Balanced text ⟨h.position + count, h.depth⟩ :=
  ⟨rfl, Nat.le_add_right _ _, hle⟩

theorem balanced_advance (hlt : h.position < text.length) :
    h.Balanced text ⟨h.position + 1, h.depth⟩ :=
  balanced_skip hlt

end Head

/-! ## The contract -/

/-- The reader of the operands of a tier. -/
def operandOf (room : Nat) : Tier → (c : Cursor) → Reading (Parsed c)
  | .sum => Reading.chain .product (Reading.chain .power (required (Reading.term room)))
  | .product => Reading.chain .power (required (Reading.term room))
  | .power => required (Reading.term room)

/-- The reply, with the place it is given at, is what the reader of tokens comes to from the same
place. -/
def ReadsAs (text : List Char) (read : (c : Cursor) → Reading (Parsed c)) (h h' : Head) :
    Reply → Prop
  | .ok (some e) => (read (h.cursor text)).Yields e (h'.cursor text)
  | .ok none => False
  | .error e => (read (h.cursor text)).result = .error e

/-- The same for a term that may be missing. -/
def ReadsTerm (text : List Char) (room : Nat) (h h' : Head) : Reply → Prop
  | .ok (some e) => (required (Reading.term room) (h.cursor text)).Yields e (h'.cursor text)
  | .ok none => (Reading.term room (h.cursor text)).result = .ok none
  | .error e => (Reading.term room (h.cursor text)).result = .error e

/-- The same for a chain that has come to a tree. -/
def ReadsOn (text : List Char) (tier : Tier) (left : Expr) (h h' : Head) : Reply → Prop
  | .ok (some e) =>
    Extends tier (operandOf h.room tier) left (h.cursor text) e (h'.cursor text)
  | .ok none => False
  | .error e => Sticks tier (operandOf h.room tier) left (h.cursor text) e

namespace Routine

/-- The fewest characters that a routine takes for a tree. -/
def leastTaken : Routine → Nat
  | rest _ _ => 0
  | _ => 1

/-- No operator of a tier from here on follows a tree. -/
def ceiling : Routine → Nat
  | formula => 0
  | chain tier => tier.rank
  | rest tier _ => tier.rank
  | _ => 3

/-- Where a routine may be called. -/
structure Starts (text : List Char) (r : Routine) (h : Head) : Prop where
  le_length : h.position ≤ text.length
  depth_le : h.depth ≤ maxDepth
  at_front : r = formula → h = ⟨0, 0⟩
  behind : ∀ tier left, r = rest tier left → Stops (tier.rank + 1) (h.current text)

/-- Where a routine that was called at `h` leaves the head. -/
structure Ends (text : List Char) (r : Routine) (h h' : Head) (reply : Reply) : Prop where
  balanced : h.Balanced text h'
  takes : ∀ e, reply = .ok (some e) → h.position + r.leastTaken ≤ h'.position
  stops : ∀ e, reply = .ok (some e) → Stops r.ceiling (h'.current text)
  nothing : reply = .ok none →
    (r = optional ∨ r = scan) ∧ h' = h ∧ EmptySlot (h.current text)

/-- What a routine that was called at `h` gives back is what the reader of tokens comes to. -/
def Reads (text : List Char) : Routine → Head → Head → Reply → Prop
  | formula, _, _, reply => reply = (Reading.formula text).result.map some
  | chain tier, h, h', reply => ReadsAs text (Reading.chain tier (operandOf h.room tier)) h h' reply
  | rest tier left, h, h', reply => ReadsOn text tier left h h' reply
  | term, h, h', reply => ReadsAs text (required (Reading.term h.room)) h h' reply
  | optional, h, h', reply => ReadsTerm text h.room h h' reply
  | scan, h, h', reply => ReadsTerm text (h.room + 1) h h' reply

end Routine

/-- The contract of the routines. -/
def Contract.reader (text : List Char) : Contract where
  requires r h := r.Starts text h
  ensures r h h' reply := r.Ends text h h' reply ∧ r.Reads text h h' reply

variable {r routine : Routine}

namespace Routine

theorem Ends.of_error {e : ParseError} (hb : h.Balanced text h') :
    r.Ends text h h' (.error e) :=
  ⟨hb, nofun, nofun, nofun⟩

theorem Ends.of_tree {e : Expr} (hb : h.Balanced text h')
    (htakes : h.position + r.leastTaken ≤ h'.position)
    (hstops : Stops r.ceiling (h'.current text)) : r.Ends text h h' (.ok (some e)) :=
  ⟨hb, fun _ _ => htakes, fun _ _ => hstops, nofun⟩

/-- A tree or an error that is handed on from a routine that was called further on. -/
theorem Ends.hand_on (hb : entry.Balanced text h) (hends : routine.Ends text h h' reply)
    (hreply : reply ≠ .ok none)
    (htakes : entry.position + r.leastTaken ≤ h.position + routine.leastTaken)
    (hceiling : routine.ceiling ≤ r.ceiling) : r.Ends text entry h' reply where
  balanced := hb.trans hends.balanced
  takes e he := Nat.le_trans htakes (hends.takes e he)
  stops e he := (hends.stops e he).mono hceiling
  nothing hnone := absurd hnone hreply

theorem starts_operand (tier : Tier) (hle : h.position ≤ text.length)
    (hdepth : h.depth ≤ maxDepth) : tier.operand.Starts text h := by
  cases tier <;> exact ⟨hle, hdepth, nofun, nofun⟩

theorem starts_rest {tier : Tier} {left : Expr} (hb : entry.Balanced text h)
    (hdepth : entry.depth ≤ maxDepth) (hbehind : Stops (tier.rank + 1) (h.current text)) :
    (rest tier left).Starts text h := by
  refine ⟨hb.le_length, hb.depth_eq ▸ hdepth, nofun, ?_⟩
  rintro _ _ ⟨⟩
  exact hbehind

theorem rank_operand_lt (tier : Tier) : tier.operand.rank < (chain tier).rank := by
  cases tier <;> decide

/-- Behind an operand the head is further on, and a chain goes on or stops. -/
theorem Ends.of_operand {tier : Tier} {e : Expr}
    (hends : tier.operand.Ends text h h' (.ok (some e))) :
    h.position < h'.position ∧ Stops (tier.rank + 1) (h'.current text) := by
  have htakes := hends.takes e rfl
  have hstops := hends.stops e rfl
  cases tier <;> exact ⟨htakes, hstops⟩

theorem reads_operand_iff {tier : Tier} :
    tier.operand.Reads text h h' reply ↔ ReadsAs text (operandOf h.room tier) h h' reply := by
  cases tier <;> rfl

end Routine

open Routine

theorem ReadsAs.ne_none {read : (c : Cursor) → Reading (Parsed c)}
    (h : ReadsAs text read h h' reply) : reply ≠ .ok none := by
  rintro rfl
  exact h

theorem ReadsOn.ne_none {tier : Tier} {left : Expr} (h : ReadsOn text tier left h h' reply) :
    reply ≠ .ok none := by
  rintro rfl
  exact h

/-- A chain reads its first operand and goes on from it. -/
theorem ReadsOn.readsAs_chain {tier : Tier} {left : Expr} {h₁ : Head} (hroom : h₁.room = h.room)
    (hleft : ReadsAs text (operandOf h.room tier) h h₁ (.ok (some left)))
    (hrest : ReadsOn text tier left h₁ h' reply) :
    ReadsAs text (Reading.chain tier (operandOf h.room tier)) h h' reply := by
  unfold ReadsOn at hrest
  rw [hroom] at hrest
  match reply with
  | .ok (some e) => exact yields_chain_iff.mpr ⟨_, _, hleft, hrest⟩
  | .ok none => exact hrest
  | .error e => exact result_chain_eq_error_iff.mpr (.inr ⟨_, _, hleft, hrest⟩)

theorem tokens_of_symbol {op : Operator} (hcurrent : h.current text = some op.symbol) :
    (h.cursor text).tokens =
      .operator op :: (Head.cursor text ⟨h.position + 1, h.depth⟩).tokens :=
  congrArg Cursor.tokens (Head.cursor_eq_cons hcurrent (Token.scan_symbol op))

/-- A chain joins an operand and goes on from the node. -/
theorem ReadsOn.step {tier : Tier} {op : Operator} {left right : Expr} {h₁ : Head}
    (hroom : h₁.room = h.room) (hcurrent : h.current text = some op.symbol)
    (htier : op.tier = tier)
    (hright : ReadsAs text (operandOf h.room tier) ⟨h.position + 1, h.depth⟩ h₁
      (.ok (some right)))
    (hheight : (Expr.binary op left right).height ≤ maxDepth)
    (hrest : ReadsOn text tier (.binary op left right) h₁ h' reply) :
    ReadsOn text tier left h h' reply := by
  have htokens := tokens_of_symbol hcurrent
  unfold ReadsOn at hrest
  rw [hroom] at hrest
  match reply with
  | .ok (some e) => exact Extends.step htokens htier hright hheight hrest
  | .ok none => exact hrest
  | .error e => exact Sticks.step htokens htier hright hheight hrest

/-- Where no operator of its tier is under the head, a chain stops. -/
theorem stops_of_operator?_eq_none {tier : Tier} (hop : h.operator? text tier = none)
    (hbehind : Stops (tier.rank + 1) (h.current text)) : Stops tier.rank (h.current text) := by
  rw [← Head.head?_rest] at hbehind ⊢
  refine stops_of_tier_ne hbehind fun op tokens hscan htier => ?_
  obtain ⟨after, hrest, -, -⟩ := Token.exists_of_scan_eq_cons hscan
  have hcurrent : h.current text = some op.symbol := by
    rw [← Head.head?_rest, hrest]
    rfl
  rw [Head.operator?_eq_some_iff.mpr ⟨hcurrent, htier⟩] at hop
  cases hop

end Formula
