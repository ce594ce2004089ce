import Formula.Cursor
import Formula.Logged
import Formula.Normal

/-!
# Reading a formula

A formula is a sum of products of powers of terms, each tier a chain of the next one
joined by the operators of the tier and folded to the left. A term is a signed term, a
group in parentheses, a number, a builtin with the term it is applied to, or a variable.
Two habits of hurried typing are forgiven : the parenthesis that closes a group may be
missing, and a term right after a variable is read and dropped.

Terms nest at most `maxDepth` deep, and no tree grows higher than that. `Reading.term`
counts down the levels that are left, its `room`. The chains end because every operand
takes a token.
-/

namespace Formula

namespace Reading

/-- A tree of a known height, unless it is too high. The error names the place that
reading has come to. -/
def bounded (position : Nat) (tree : Expr) (height : Nat) (h : height = tree.height) :
    Reading Bounded :=
  if hle : height ≤ maxDepth then pure ⟨tree, height, h, hle⟩ else throw (.tooDeep position)

/-- The error for a place where a term has to start and does not. -/
def unexpected (c : Cursor) : ParseError :=
  match c.tokens with
  | [] => .unexpectedEnd c.position
  | t :: _ => .unexpectedChar t.first c.position

/-- Insist on a term. -/
def required (optional : (c : Cursor) → Reading (Option (Parsed c))) (c : Cursor) :
    Reading (Parsed c) := do
  match ← optional c with
  | some t => pure t
  | none => throw (unexpected c)

/-! ## Chains -/

/-- Extend a tree to the right by the operators of a tier, as far as they go. -/
def extend (tier : Tier) (operand : (c : Cursor) → Reading (Parsed c)) {start : Cursor}
    (left : Parsed start) : Reading (Parsed start) :=
  match h : left.next.tokens with
  | .operator op :: rest =>
    if op.tier = tier then do
      let right ← operand ⟨left.next.position + 1, rest⟩
      let node ← bounded right.next.position (.binary op left.tree right.tree)
        (max left.height right.height + 1)
        (by rw [left.height_eq, right.height_eq]; rfl)
      have hnext : right.next.tokens.length < left.next.tokens.length := by
        rw [h]
        exact Nat.lt_succ_of_lt right.shorter
      extend tier operand
        ⟨node, right.next, Nat.lt_trans hnext left.shorter⟩
    else pure left
  | _ => pure left
termination_by left.next.tokens.length

/-- Operands joined by the operators of a tier. -/
def chain (tier : Tier) (operand : (c : Cursor) → Reading (Parsed c)) (c : Cursor) :
    Reading (Parsed c) := do
  extend tier operand (← operand c)

/-- A sum of products of powers of operands. -/
def sum (operand : (c : Cursor) → Reading (Parsed c)) (c : Cursor) : Reading (Parsed c) :=
  chain .sum (chain .product (chain .power operand)) c

/-! ## Terms -/

/-- Take the parenthesis that closes a group, or close the group without it. -/
def closeGroup {start : Cursor} (inner : Parsed start) : Reading (Parsed start) :=
  match h : inner.next.tokens with
  | .closing :: rest =>
    have hnext : rest.length < start.tokens.length := by
      have := inner.shorter
      rw [h] at this
      exact Nat.lt_of_succ_lt this
    pure { inner with next := ⟨inner.next.position + 1, rest⟩, shorter := hnext }
  | _ => do
    report (.unclosedGroup inner.next.position)
    pure inner

/-- A term, if one starts here. `room` is the number of levels of terms that are left. At
the end, before a closing parenthesis and before an operator that is no sign there is no
term. -/
def term : Nat → (c : Cursor) → Reading (Option (Parsed c))
  | 0, c => throw (.tooDeep c.position)
  | room + 1, ⟨position, .operator .add :: rest⟩ => do
    let inner ← required (term room) ⟨position + 1, rest⟩
    return some (inner.widen (Nat.le_succ _))
  | room + 1, ⟨position, .operator .subtract :: rest⟩ => do
    let inner ← required (term room) ⟨position + 1, rest⟩
    let node ← bounded inner.next.position (.negate inner.tree) (inner.height + 1)
      (by rw [inner.height_eq]; rfl)
    return some ⟨node, inner.next, Nat.lt_succ_of_lt inner.shorter⟩
  | room + 1, ⟨position, .opening :: rest⟩ => do
    let inner ← sum (required (term room)) ⟨position + 1, rest⟩
    let group ← closeGroup inner
    return some (group.widen (Nat.le_succ _))
  | _ + 1, ⟨position, .number first more :: rest⟩ => do
    let literal := first :: more
    report (.literal (String.ofList literal) position)
    match readLiteral? literal with
    | some value =>
      return some
        ⟨Bounded.leaf (.constant value) rfl, ⟨position + literal.length, rest⟩, Nat.lt_succ_self _⟩
    | none => throw (.invalidNumber (String.ofList literal) position)
  | room + 1, ⟨position, .word first more :: rest⟩ => do
    let name := String.ofList (first :: more)
    let after : Cursor := ⟨position + (first :: more).length, rest⟩
    report (.identifier name position)
    match Builtin.ofName? name with
    | some function =>
      let argument ← required (term room) after
      let node ← bounded argument.next.position (.call function argument.tree)
        (argument.height + 1) (by rw [argument.height_eq]; rfl)
      return some ⟨node, argument.next, Nat.lt_succ_of_lt argument.shorter⟩
    | none =>
      match ← term room after with
      | some dropped =>
        report (.droppedTerm name position dropped.tree)
        return some
          ⟨Bounded.leaf (.var name) rfl, dropped.next, Nat.lt_succ_of_lt dropped.shorter⟩
      | none => return some ⟨Bounded.leaf (.var name) rfl, after, Nat.lt_succ_self _⟩
  | _ + 1, ⟨position, .stray c :: _⟩ => throw (.unexpectedChar c position)
  | _ + 1, _ => return none

/-! ## Formulas -/

/-- Read a whole text. -/
def formula (text : List Char) : Reading Expr := do
  let p ← sum (required (term maxDepth)) ⟨0, Token.scan text⟩
  match p.next.tokens with
  | [] => return p.tree
  | t :: _ => throw (.trailingInput t.first p.next.position)

end Reading

/-- Bring a typed text into its normal form, and report it. -/
def Logged.normalize (raw : String) : Logged String := do
  let normal := Formula.normalize raw
  report (.normalized raw normal)
  return normal

/-- Read a typed text, and report the steps. -/
def Reading.typed (raw : String) : Reading Expr := do
  let normal ← Logged.normalize raw
  report (.parsing normal)
  let tree ← formula normal.toList
  report (.parsed tree)
  return tree

/-- The tree of a typed text, or why it has none. -/
def parse (raw : String) : Except ParseError Expr :=
  (Reading.typed raw).result

end Formula
