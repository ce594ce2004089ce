import Formula.Proofs.Front

/-!
# The routines of the reader

`Reading.formula` reads tokens and counts the levels of terms that are left. Here is the same
reader as it goes over the characters : a `Head` stands at a place of the text and counts the
levels of terms that are open, and every `Routine` moves it. The head outlives an error, so it can
be asked where a routine left it and at what depth, which a failed `Reading` does not tell.

The code of a routine is a tree of what it may do next (`Code`) : move the head, call a routine and
go on with what that one gives back, or give something back itself. Nothing in it is recursive.
That a routine calls routines which call it again is left to its run : `Runs` says how a piece of
code goes through, with every place the head comes to and every call on the way, and it has runs
for just the code that ends.
-/

namespace Formula

/-- A place in a text, and how many levels of terms are open there. -/
structure Head where
  position : Nat
  depth : Nat
  deriving Repr, DecidableEq

/-- What moves the head : past the character under it, into a term, and out of one. -/
inductive Move
  | advance
  | enter
  | leave
  deriving Repr, DecidableEq

namespace Head

variable (text : List Char)

/-- The character under the head. There is none at the end. -/
def current (h : Head) : Option Char :=
  text[h.position]?

/-- The text from the head on. -/
def rest (h : Head) : List Char :=
  text.drop h.position

/-- The characters of the class `p` from the head on, up to the first other one. -/
def run (p : Char → Bool) (h : Head) : List Char :=
  (h.rest text).takeWhile p

/-- The operator of a tier that the head stands at. -/
def operator? (tier : Tier) (h : Head) : Option Operator :=
  ((h.current text).bind Operator.ofSymbol?).filter fun op => op.tier = tier

/-- The head after a move. At the end of the text it stays there, and outside of all terms it
stays outside. -/
def after (h : Head) : Move → Head
  | .advance => if h.position < text.length then { h with position := h.position + 1 } else h
  | .enter => { h with depth := h.depth + 1 }
  | .leave => { h with depth := h.depth - 1 }

end Head

/-- What a routine gives back : a tree, nothing where no term starts, or an error. -/
abbrev Reply := Except ParseError (Option Expr)

/-- The routines of the reader. `rest` is one round of a chain that has come to a tree : it joins
one more operand, or ends the chain. `optional` counts the level of a term, and `scan` reads it. -/
inductive Routine
  | formula
  | chain (tier : Tier)
  | rest (tier : Tier) (left : Expr)
  | term
  | optional
  | scan

/-- What a routine does from some point on. -/
inductive Code
  | done (reply : Reply)
  | move (step : Move) (next : Head → Code)
  | call (routine : Routine) (next : Head → Reply → Code)

namespace Code

/-- Give back a tree. -/
def tree (e : Expr) : Code :=
  .done (.ok (some e))

/-- Fail. -/
def fail (e : ParseError) : Code :=
  .done (.error e)

/-- Give back what a routine gives back. -/
def finish (routine : Routine) : Code :=
  .call routine fun _ reply => .done reply

/-- Call a routine for a tree. Whatever else it gives back is handed on. -/
def ask (routine : Routine) (next : Head → Expr → Code) : Code :=
  .call routine fun h reply =>
    match reply with
    | .ok (some e) => next h e
    | other => .done other

/-- Go on with a tree, unless it is too high. -/
def bounded (h : Head) (e : Expr) (next : Expr → Code) : Code :=
  if e.height ≤ maxDepth then next e else .fail (.tooDeep h.position)

/-- Advance past a number of characters. -/
def skip (next : Head → Code) : (count : Nat) → Head → Code
  | 0, h => next h
  | count + 1, _ => .move .advance (skip next count)

end Code

/-- The routine that reads the operands of a tier. -/
def Tier.operand : Tier → Routine
  | sum => .chain .product
  | product => .chain .power
  | power => .term

namespace Routine

variable (text : List Char)

/-- Read the term behind a plus sign. -/
def plus : Code :=
  .move .advance fun _ => .finish .term

/-- Read the term behind a minus sign, and negate it. -/
def minus : Code :=
  .move .advance fun _ => .ask .term fun h inner => .bounded h (.negate inner) .tree

/-- Read the sum in a group, and the closing parenthesis if there is one. -/
def group : Code :=
  .move .advance fun _ =>
    .ask (.chain .sum) fun h inner =>
      if h.current text = some ')' then .move .advance fun _ => .tree inner else .tree inner

/-- Read a literal. -/
def number (h : Head) : Code :=
  let literal := h.run text isNumeral
  .skip (fun _ =>
    match readLiteral? literal with
    | some value => .tree (.constant value)
    | none => .fail (.invalidNumber (String.ofList literal) h.position)) literal.length h

/-- Read a name : a builtin with its argument, or a variable. What follows a variable is read as
a term if it is one, and dropped. -/
def identifier (h : Head) : Code :=
  let letters := h.run text isAlphabetic
  .skip (fun _ =>
    match Builtin.ofName? (String.ofList letters) with
    | some function =>
      .ask .term fun h argument => .bounded h (.call function argument) .tree
    | none =>
      .call .optional fun _ reply =>
        .done (reply.map fun _ => some (.var (String.ofList letters)))) letters.length h

/-- The code of a routine that is called where the head stands. -/
def code (h : Head) : Routine → Code
  | formula =>
    .ask (.chain .sum) fun h e =>
      match h.current text with
      | some found => .fail (.trailingInput found h.position)
      | none => .tree e
  | chain tier => .ask tier.operand fun _ left => .finish (.rest tier left)
  | rest tier left =>
    match h.operator? text tier with
    | some op =>
      .move .advance fun _ =>
        .ask tier.operand fun h right =>
          .bounded h (.binary op left right) fun e => .finish (.rest tier e)
    | none => .tree left
  | term =>
    .call .optional fun h reply =>
      match reply with
      | .ok none => .fail (.unexpected (h.current text) h.position)
      | other => .done other
  | optional =>
    if h.depth < maxDepth then
      .move .enter fun _ => .call .scan fun _ reply => .move .leave fun _ => .done reply
    else .fail (.tooDeep h.position)
  | scan =>
    match h.current text with
    | none => .done (.ok none)
    | some c =>
      if c = '+' then plus
      else if c = '-' then minus
      else if c = '(' then group text
      else if isNumeral c then number text h
      else if isAlphabetic c then identifier text h
      else if c = ')' ∨ (Operator.ofSymbol? c).isSome then .done (.ok none)
      else .fail (.unexpectedChar c h.position)

end Routine

/-- A call of a routine : where the head stood, every place it came to in order, what was given
back, and the calls that the routine made itself. -/
structure Visit where
  routine : Routine
  entry : Head
  path : List Head
  reply : Reply
  calls : List Visit

/-- Where the routine left the head. -/
def Visit.exit (v : Visit) : Head :=
  v.path.getLastD v.entry

/-- The code goes through from where the head stands, with the places the head comes to, what is
given back, and the calls that are made. -/
inductive Runs (text : List Char) : Head → Code → List Head → Reply → List Visit → Prop
  | done {h : Head} {reply : Reply} : Runs text h (.done reply) [] reply []
  | move {h : Head} {step : Move} {next : Head → Code} {path : List Head} {reply : Reply}
      {calls : List Visit}
      (hnext : Runs text (h.after text step) (next (h.after text step)) path reply calls) :
      Runs text h (.move step next) (h.after text step :: path) reply calls
  | call {h : Head} {routine : Routine} {next : Head → Reply → Code} {path path' : List Head}
      {reply reply' : Reply} {calls calls' : List Visit}
      (hcall : Runs text h (routine.code text h) path reply calls)
      (hnext : Runs text (path.getLastD h) (next (path.getLastD h) reply) path' reply' calls') :
      Runs text h (.call routine next) (path ++ path') reply'
        (⟨routine, h, path, reply, calls⟩ :: calls')

/-- There is no choice in how code goes through. -/
theorem Runs.unique {text : List Char} {h : Head} {code : Code} {path path' : List Head}
    {reply reply' : Reply} {calls calls' : List Visit} (hrun : Runs text h code path reply calls)
    (hrun' : Runs text h code path' reply' calls') :
    path = path' ∧ reply = reply' ∧ calls = calls' := by
  induction hrun generalizing path' reply' calls' with
  | done =>
    cases hrun'
    exact ⟨rfl, rfl, rfl⟩
  | move _ ih =>
    cases hrun' with
    | move hnext' =>
      obtain ⟨rfl, rfl, rfl⟩ := ih hnext'
      exact ⟨rfl, rfl, rfl⟩
  | call _ _ ihcall ihnext =>
    cases hrun' with
    | call hcall' hnext' =>
      obtain ⟨rfl, rfl, rfl⟩ := ihcall hcall'
      obtain ⟨rfl, rfl, rfl⟩ := ihnext hnext'
      exact ⟨rfl, rfl, rfl⟩

namespace Visit

/-- The call happens with the text. -/
def Happens (text : List Char) (v : Visit) : Prop :=
  Runs text v.entry (v.routine.code text v.entry) v.path v.reply v.calls

/-- The call is that of reading the whole text. -/
structure IsParse (text : List Char) (v : Visit) : Prop where
  happens : v.Happens text
  routine_eq : v.routine = .formula
  entry_eq : v.entry = ⟨0, 0⟩

/-- `w` is the call `v` or is made in the course of it. -/
inductive Makes : Visit → Visit → Prop
  | self (v : Visit) : Makes v v
  | call {v w u : Visit} (hcall : w ∈ v.calls) (h : Makes w u) : Makes v u

end Visit

end Formula
