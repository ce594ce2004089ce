import Formula.Cursor
import Formula.Event
import Formula.Proofs.Scan

/-!
# The grammar of formulas

A `Phrase` is a formula together with the way its text is to be read : a concrete syntax
tree. It has a text, and it stands for a tree. `Phrase.Fits` says that the phrase is one
of the grammar, given the character that follows it, because that character decides
where a run, a chain or an open group ends.

The grammar has three tiers of chains over terms. A chain of a tier is an operand of the
next tier, or a chain of the same tier, an operator of the tier and an operand of the
next tier, so chains fold to the left. `Phrase.rank` says which tier a phrase belongs to, and
`Stops` that a chain does not stop in front of an operator of its own.

The grammar does not ask the reader which operators there are, which character writes them and
how tightly they bind. It has a table of its own (`operatorTable`), and the reader's operators
are compared with it (`Operator.rank_tier`, `Operator.symbol_mem_symbolsFrom_iff`). The
characters of a number and the bound of both limits are written out for the same reason.

Two limits are set. `Phrase.depth` counts how many levels of terms a phrase needs, where
the empty slot after a variable needs one like a term in its place. `Phrase.peak` is the
height of the highest tree that is built on the way, in a dropped term too. `Derives`
says that the grammar assigns a tree to a text.
-/

namespace Formula

/-- The operators of the grammar, each behind the character that writes it. The rows are the
tiers, from the one that binds loosest on. -/
def operatorTable : List (List (Char × Operator)) :=
  [[('+', .add), ('-', .subtract)],
    [('*', .multiply), ('/', .divide), ('%', .modulo)],
    [('^', .power), ('@', .nthRoot)]]

/-- The row of the table in which an operator stands behind its character. -/
def Operator.rank (op : Operator) : Nat :=
  operatorTable.findIdx fun row => (op.symbol, op) ∈ row

/-- The characters of the operators from row `rank` of the table on. -/
def symbolsFrom (rank : Nat) : List Char :=
  (operatorTable.drop rank).flatten.map (·.1)

/-- A formula as it is written. -/
inductive Phrase
  /-- A literal with its value. -/
  | number (literal : List Char) (value : Float)
  /-- A variable with an empty slot after it. -/
  | name (letters : List Char)
  /-- A variable and the term in the slot after it, which is dropped. -/
  | nameBefore (letters : List Char) (dropped : Phrase)
  /-- A builtin and the term it is applied to. -/
  | call (function : Builtin) (argument : Phrase)
  | plus (inner : Phrase)
  | minus (inner : Phrase)
  /-- A group, closed by its parenthesis or without it. -/
  | group (inner : Phrase) (closed : Bool)
  | binary (operator : Operator) (left right : Phrase)

/-- `next` is no operator of a tier from `rank` on, so a chain of any of these tiers stops
in front of it. -/
def Stops (rank : Nat) (next : Option Char) : Prop :=
  ∀ c ∈ next, c ∉ symbolsFrom rank

/-- `next` leaves the slot after a variable empty : it is the end, a closing parenthesis
or an operator behind the first row of the table, where the signs are. -/
def EmptySlot (next : Option Char) : Prop :=
  next = none ∨ next = some ')' ∨ ∃ c ∈ next, c ∈ symbolsFrom 1

namespace Phrase

/-- The characters of a phrase. -/
def text : Phrase → List Char
  | number literal _ => literal
  | name letters => letters
  | nameBefore letters dropped => letters ++ dropped.text
  | call function argument => function.name.toList ++ argument.text
  | plus inner => '+' :: inner.text
  | minus inner => '-' :: inner.text
  | group inner true => '(' :: (inner.text ++ [')'])
  | group inner false => '(' :: inner.text
  | binary operator left right => left.text ++ operator.symbol :: right.text

/-- The tree a phrase stands for. -/
def tree : Phrase → Expr
  | number _ value => .constant value
  | name letters => .var (String.ofList letters)
  | nameBefore letters _ => .var (String.ofList letters)
  | call function argument => .call function argument.tree
  | plus inner => inner.tree
  | minus inner => .negate inner.tree
  | group inner _ => inner.tree
  | binary operator left right => .binary operator left.tree right.tree

/-- What reading a phrase at `position` reports : its literals and names as they come, an open
group where its sum ends, and a dropped term behind it. -/
def log : Phrase → (position : Nat) → List Event
  | number literal _, position => [.literal (String.ofList literal) position]
  | name letters, position => [.identifier (String.ofList letters) position]
  | nameBefore letters dropped, position =>
    .identifier (String.ofList letters) position ::
      (dropped.log (position + letters.length) ++
        [.droppedTerm (String.ofList letters) position dropped.tree])
  | call function argument, position =>
    .identifier function.name position :: argument.log (position + function.name.toList.length)
  | plus inner, position => inner.log (position + 1)
  | minus inner, position => inner.log (position + 1)
  | group inner true, position => inner.log (position + 1)
  | group inner false, position =>
    inner.log (position + 1) ++ [.unclosedGroup (position + 1 + inner.text.length)]
  | binary _ left right, position =>
    left.log position ++ right.log (position + left.text.length + 1)

/-- The rank of the tier whose chain a phrase is, or 3 for a term. -/
def rank : Phrase → Nat
  | binary operator _ _ => operator.rank
  | _ => 3

/-- The phrase is a single term. -/
def IsTerm (p : Phrase) : Prop :=
  p.rank = 3

/-- The letters are those of a variable in front of `next`. -/
def IsVariable (letters : List Char) (next : Option Char) : Prop :=
  IsRun isAlphabetic letters next ∧ Builtin.ofName? (String.ofList letters) = none

/-- The phrase is one of the grammar where `next` follows it. -/
def Fits : Phrase → Option Char → Prop
  | number literal value, next =>
    IsRun (fun c => c.isDigit || c = '.') literal next ∧ readLiteral? literal = some value
  | name letters, next => IsVariable letters next ∧ EmptySlot next
  | nameBefore letters dropped, next =>
    IsVariable letters dropped.text.head? ∧ dropped.IsTerm ∧ dropped.Fits next
  | call function argument, next =>
    IsRun isAlphabetic function.name.toList argument.text.head? ∧ argument.IsTerm ∧
      argument.Fits next
  | plus inner, next => inner.IsTerm ∧ inner.Fits next
  | minus inner, next => inner.IsTerm ∧ inner.Fits next
  | group inner true, _ => inner.Fits (some ')')
  | group inner false, next => next ≠ some ')' ∧ Stops 0 next ∧ inner.Fits next
  | binary operator left right, next =>
    operator.rank ≤ left.rank ∧ left.Fits (some operator.symbol) ∧
      operator.rank < right.rank ∧ right.Fits next ∧ Stops (operator.rank + 1) next

/-- How many levels of terms a phrase needs. -/
def depth : Phrase → Nat
  | number _ _ => 1
  | name _ => 2
  | nameBefore _ dropped => dropped.depth + 1
  | call _ argument => argument.depth + 1
  | plus inner => inner.depth + 1
  | minus inner => inner.depth + 1
  | group inner _ => inner.depth + 1
  | binary _ left right => max left.depth right.depth

/-- The height of the highest tree that is built for a phrase. -/
def peak : Phrase → Nat
  | number _ _ => 1
  | name _ => 1
  | nameBefore _ dropped => dropped.peak
  | call _ argument => max argument.peak (argument.tree.height + 1)
  | plus inner => inner.peak
  | minus inner => max inner.peak (inner.tree.height + 1)
  | group inner _ => inner.peak
  | binary _ left right =>
    max (max left.peak right.peak) (max left.tree.height right.tree.height + 1)

end Phrase

/-- The grammar assigns the tree to the text : the whole text is a phrase that stands for
it, with at most 256 levels of terms and no tree higher than 256. -/
def Derives (text : List Char) (tree : Expr) : Prop :=
  ∃ p : Phrase, p.text = text ∧ p.tree = tree ∧ p.Fits none ∧ p.depth ≤ 256 ∧ p.peak ≤ 256

/-! ## The table and the operators of the reader -/

/-- The place of a tier of the reader in the order of binding, from the loosest on. -/
def Tier.rank : Tier → Nat
  | sum => 0
  | product => 1
  | power => 2

theorem Tier.rank_lt_three (tier : Tier) : tier.rank < 3 := by
  cases tier <;> decide

theorem Tier.rank_injective {a b : Tier} (h : a.rank = b.rank) : a = b := by
  cases a <;> cases b <;> first | rfl | cases h

namespace Operator

/-- The reader has an operator in the tier of its row. -/
@[simp] theorem rank_tier (op : Operator) : op.tier.rank = op.rank := by
  cases op <;> rfl

/-- The operators of a row are those of a tier of the reader. -/
theorem rank_eq_iff {op : Operator} {tier : Tier} : op.rank = tier.rank ↔ op.tier = tier := by
  rw [← rank_tier]
  exact ⟨Tier.rank_injective, congrArg Tier.rank⟩

theorem rank_lt_three (op : Operator) : op.rank < 3 :=
  op.rank_tier ▸ op.tier.rank_lt_three

/-- The first row has the operators that are signs too. -/
theorem rank_pos_iff {op : Operator} : 0 < op.rank ↔ op.tier ≠ .sum := by
  rw [Nat.pos_iff_ne_zero, ne_eq, ne_eq, ← rank_eq_iff, Tier.rank]

/-- The characters of the table from a row on are those that the reader takes for operators of
such a rank. -/
theorem symbol_mem_symbolsFrom_iff {op : Operator} {rank : Nat} :
    op.symbol ∈ symbolsFrom rank ↔ rank ≤ op.rank := by
  match rank with
  | 0 | 1 | 2 => cases op <;> decide
  | rank + 3 =>
    have hrank := op.rank_lt_three
    simp only [symbolsFrom, operatorTable, List.drop_succ_cons, List.drop_nil, List.flatten_nil,
      List.map_nil, List.not_mem_nil, false_iff]
    omega

end Operator

example : symbolsFrom 1 = ['*', '/', '%', '^', '@'] := by
  decide

/-- Every character of the table writes an operator. -/
theorem exists_symbol_of_mem_symbolsFrom {c : Char} {rank : Nat} (h : c ∈ symbolsFrom rank) :
    ∃ op : Operator, op.symbol = c := by
  obtain ⟨entry, hentry, rfl⟩ := List.mem_map.mp h
  obtain ⟨row, hrow, hentry⟩ := List.mem_flatten.mp hentry
  have hsymbol : ∀ row ∈ operatorTable, ∀ entry ∈ row, entry.2.symbol = entry.1 := by decide
  exact ⟨entry.2, hsymbol row (List.mem_of_mem_drop hrow) entry hentry⟩

/-! ## Where phrases end -/

/-- A chain stops in front of every operator that binds more loosely, and of whatever is none. -/
theorem stops_iff {rank : Nat} {next : Option Char} :
    Stops rank next ↔ ∀ op : Operator, next = some op.symbol → op.rank < rank := by
  refine ⟨fun h op hnext => ?_, fun h c hc hmem => ?_⟩
  · exact Nat.not_le.mp fun hle => h _ hnext (Operator.symbol_mem_symbolsFrom_iff.mpr hle)
  · obtain ⟨op, rfl⟩ := exists_symbol_of_mem_symbolsFrom hmem
    exact Nat.not_le.mpr (h op hc) (Operator.symbol_mem_symbolsFrom_iff.mp hmem)

/-- The slot is empty in front of every operator but those of the first row. -/
theorem emptySlot_iff {next : Option Char} :
    EmptySlot next ↔
      next = none ∨ next = some ')' ∨ ∃ op : Operator, next = some op.symbol ∧ 0 < op.rank := by
  refine or_congr_right (or_congr_right ⟨?_, ?_⟩)
  · rintro ⟨c, hc, hmem⟩
    obtain ⟨op, rfl⟩ := exists_symbol_of_mem_symbolsFrom hmem
    exact ⟨op, hc, Operator.symbol_mem_symbolsFrom_iff.mp hmem⟩
  · rintro ⟨op, hnext, hrank⟩
    exact ⟨op.symbol, hnext, Operator.symbol_mem_symbolsFrom_iff.mpr hrank⟩

theorem stops_none (rank : Nat) : Stops rank none := by
  simp [Stops]

theorem stops_closing (rank : Nat) : Stops rank (some ')') :=
  stops_iff.mpr fun op h => by cases op <;> cases h

@[simp] theorem stops_symbol_iff {rank : Nat} {op : Operator} :
    Stops rank (some op.symbol) ↔ op.rank < rank := by
  rw [stops_iff]
  refine ⟨fun h => h op rfl, fun h other hother => ?_⟩
  rwa [← Operator.symbol_injective (Option.some.inj hother)]

theorem Stops.mono {rank rank' : Nat} {next : Option Char} (h : Stops rank next)
    (hle : rank ≤ rank') : Stops rank' next :=
  stops_iff.mpr fun op hop => Nat.lt_of_lt_of_le (stops_iff.mp h op hop) hle

/-- Nothing continues a term. -/
theorem stops_three (next : Option Char) : Stops 3 next :=
  stops_iff.mpr fun op _ => op.rank_lt_three

namespace Phrase

theorem rank_le_three (p : Phrase) : p.rank ≤ 3 := by
  cases p <;> simp only [rank, Nat.le_refl]
  exact Nat.le_of_lt (Operator.rank_lt_three _)

theorem depth_pos : ∀ p : Phrase, 0 < p.depth
  | number _ _ => Nat.succ_pos _
  | name _ => Nat.succ_pos _
  | nameBefore _ _ => Nat.succ_pos _
  | call _ _ => Nat.succ_pos _
  | plus _ => Nat.succ_pos _
  | minus _ => Nat.succ_pos _
  | group _ _ => Nat.succ_pos _
  | binary _ left _ => Nat.lt_of_lt_of_le left.depth_pos (Nat.le_max_left _ _)

theorem text_ne_nil {p : Phrase} {next : Option Char} (h : p.Fits next) : p.text ≠ [] := by
  cases p with
  | number literal value => exact h.1.1
  | name letters => exact h.1.1.1
  | nameBefore letters dropped => exact fun h' => h.1.1.1 (List.append_eq_nil_iff.mp h').1
  | call function argument => exact fun h' => h.1.1 (List.append_eq_nil_iff.mp h').1
  | plus inner => simp [text]
  | minus inner => simp [text]
  | group inner closed => cases closed <;> simp [text]
  | binary operator left right => simp [text]

theorem text_binary_append (op : Operator) (left right : Phrase) (rest : List Char) :
    (binary op left right).text ++ rest = left.text ++ op.symbol :: (right.text ++ rest) := by
  simp [text]

/-- Where a chain ends, from where it starts. -/
theorem add_length_text_binary (position : Nat) (op : Operator) (left right : Phrase) :
    position + (binary op left right).text.length =
      position + left.text.length + 1 + right.text.length := by
  simp only [text, List.length_append, List.length_cons]
  omega

theorem head?_text_append {p : Phrase} {next : Option Char} (h : p.Fits next)
    (rest : List Char) : (p.text ++ rest).head? = p.text.head? := by
  cases hp : p.text with
  | nil => exact absurd hp (text_ne_nil h)
  | cons c text => rfl

end Phrase

end Formula
