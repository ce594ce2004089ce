import Formula.Reading
import Mathlib.Tactic.Common

/-!
# What a successful reading yields

`Reading.Yields` says that a reading succeeds, with which tree, and where reading goes
on. The lemmas below say it for every kind of term and for chains, one lemma each, so
that later proofs need not open the definitions of the reader. `Extends` follows a chain
step by step from the tree it has come to, and `Leads` follows it just to some tree, from
where the chain does whatever it does there.
-/

namespace Formula

namespace Reading

/-- The reading succeeds with `tree` and goes on at `next`. -/
def Yields {c : Cursor} (r : Reading (Parsed c)) (tree : Expr) (next : Cursor) : Prop :=
  ∃ p, r.result = .ok p ∧ p.tree = tree ∧ p.next = next

variable {c start next : Cursor} {tree : Expr} {tier : Tier}
  {operand : (c : Cursor) → Reading (Parsed c)}
  {optional : (c : Cursor) → Reading (Option (Parsed c))}

/-- A reading that succeeds hands its value on. -/
theorem result_bind_of_eq_ok {α β : Type} {r : Reading α} {f : α → Reading β} {a : α}
    (h : r.result = .ok a) : (r >>= f).result = (f a).result := by
  rw [result_bind, h]
  rfl

/-- A reading that succeeds hands its events on. -/
theorem events_bind_of_eq_ok {α β : Type} {r : Reading α} {f : α → Reading β} {a : α}
    (h : r.result = .ok a) : (r >>= f).events = r.events ++ (f a).events := by
  rw [events_bind, h]

/-- A term that is required is read where there is one. -/
theorem result_required_eq_ok_iff {p : Parsed c} :
    (required optional c).result = .ok p ↔ (optional c).result = .ok (some p) := by
  rw [required, result_bind_eq_ok_iff]
  refine ⟨?_, ?_⟩
  · rintro ⟨_ | q, hq, h⟩
    · cases h
    · cases h
      exact hq
  · intro h
    exact ⟨some p, h, rfl⟩

/-- A node is made if it is not too high. -/
theorem result_bounded_eq_ok_iff {position height : Nat} {h : height = tree.height}
    {b : Bounded} :
    (bounded position tree height h).result = .ok b ↔ b.tree = tree ∧ tree.height ≤ maxDepth := by
  subst h
  obtain ⟨t, n, hn, hle⟩ := b
  unfold bounded
  split
  next hbound =>
    simp only [result_pure, Except.ok.injEq, Bounded.mk.injEq]
    refine ⟨?_, ?_⟩
    · rintro ⟨rfl, -⟩
      exact ⟨rfl, hbound⟩
    · rintro ⟨rfl, -⟩
      exact ⟨rfl, hn.symm⟩
  next hbound =>
    simp [hbound]

theorem exists_bounded_eq_pure (position : Nat) {height : Nat} (h : height = tree.height)
    (hle : tree.height ≤ maxDepth) :
    ∃ node : Bounded, node.tree = tree ∧ bounded position tree height h = pure node := by
  subst h
  exact ⟨⟨tree, _, rfl, hle⟩, rfl, dif_pos hle⟩

/-! ## Chains -/

/-- In front of an operator of its tier a chain takes an operand, joins it, and goes on from
the node. -/
theorem exists_extend_eq_bind (operand : (c : Cursor) → Reading (Parsed c))
    {left : Parsed start} {op : Operator} {rest : List Token}
    (hc : left.next.tokens = .operator op :: rest) (hop : op.tier = tier) :
    ∃ join : Parsed ⟨left.next.position + 1, rest⟩ → Bounded → Parsed start,
      (∀ right node, (join right node).tree = node.tree ∧ (join right node).next = right.next) ∧
      extend tier operand left = (do
        let right ← operand ⟨left.next.position + 1, rest⟩
        let node ← bounded right.next.position (.binary op left.tree right.tree)
          (max left.height right.height + 1) (by rw [left.height_eq, right.height_eq]; rfl)
        extend tier operand (join right node)) := by
  rw [extend]
  split
  next op' rest' hc' =>
    obtain ⟨rfl, rfl⟩ : op = op' ∧ rest = rest' := by simpa [hc] using hc'
    rw [if_pos hop]
    exact ⟨fun right node => ⟨node, right.next, _⟩, fun _ _ => ⟨rfl, rfl⟩, rfl⟩
  next hne => exact absurd hc (hne op rest)

/-- In front of anything else a chain stops. -/
theorem extend_eq_pure {left : Parsed start}
    (h : ∀ op rest, left.next.tokens = .operator op :: rest → op.tier ≠ tier) :
    extend tier operand left = pure left := by
  rw [extend]
  split
  next op rest hc => rw [if_neg (h op rest hc)]
  · rfl

/-- Induction along a chain. Where it has come to either no operator of its tier follows, or one
does, and behind the next operand there is less to come. -/
theorem extend_induction (tier : Tier) {motive : Parsed start → Prop}
    (stop : ∀ left : Parsed start,
      (∀ op rest, left.next.tokens = .operator op :: rest → op.tier ≠ tier) → motive left)
    (step : ∀ (left : Parsed start) (op : Operator) (rest : List Token),
      left.next.tokens = .operator op :: rest → op.tier = tier →
        (∀ joined : Parsed start, joined.next.tokens.length < rest.length → motive joined) →
          motive left)
    (left : Parsed start) : motive left := by
  induction hlength : left.next.tokens.length using Nat.strongRecOn generalizing left with
  | ind length ih =>
    by_cases hnext : ∃ op rest, left.next.tokens = .operator op :: rest ∧ op.tier = tier
    · obtain ⟨op, rest, hc, hop⟩ := hnext
      refine step left op rest hc hop fun joined hjoined => ih _ ?_ joined rfl
      rw [← hlength, hc]
      exact Nat.lt_succ_of_lt hjoined
    · exact stop left fun op rest hc hop => hnext ⟨op, rest, hc, hop⟩

/-- One step of a chain that can be taken. -/
theorem exists_extend_eq_extend {left : Parsed start} {op : Operator} {rest : List Token}
    (hc : left.next.tokens = .operator op :: rest) (hop : op.tier = tier)
    {right : Parsed ⟨left.next.position + 1, rest⟩}
    (hright : (operand ⟨left.next.position + 1, rest⟩).result = .ok right)
    (hheight : (Expr.binary op left.tree right.tree).height ≤ maxDepth) :
    ∃ joined : Parsed start, joined.tree = .binary op left.tree right.tree ∧
      joined.next = right.next ∧
      (extend tier operand left).result = (extend tier operand joined).result ∧
      (extend tier operand left).events =
        (operand ⟨left.next.position + 1, rest⟩).events ++ (extend tier operand joined).events := by
  obtain ⟨join, hjoin, heq⟩ := exists_extend_eq_bind operand hc hop
  obtain ⟨node, htree, hnode⟩ := exists_bounded_eq_pure right.next.position
    (show max left.height right.height + 1 = (Expr.binary op left.tree right.tree).height by
      rw [left.height_eq, right.height_eq]; rfl) hheight
  refine ⟨join right node, (hjoin right node).1.trans htree, (hjoin right node).2, ?_, ?_⟩
  · rw [heq, result_bind_of_eq_ok hright, hnode, pure_bind]
  · rw [heq, events_bind_of_eq_ok hright, hnode, pure_bind]

/-- The chain comes to `left` with the events, and goes on from there. -/
structure Leads (tier : Tier) (operand : (c : Cursor) → Reading (Parsed c)) {c : Cursor}
    (left : Parsed c) (events : List Event) : Prop where
  result_eq : (chain tier operand c).result = (extend tier operand left).result
  events_eq : (chain tier operand c).events = events ++ (extend tier operand left).events

/-- A chain comes to its first operand. -/
theorem Leads.first {left : Parsed c} (h : (operand c).result = .ok left) :
    Leads tier operand left (operand c).events :=
  ⟨result_bind_of_eq_ok h, events_bind_of_eq_ok h⟩

/-- From there it comes to one node after the other. -/
theorem Leads.step {left : Parsed c} {events : List Event} (h : Leads tier operand left events)
    {op : Operator} {rest : List Token} (hc : left.next.tokens = .operator op :: rest)
    (hop : op.tier = tier) {right : Parsed ⟨left.next.position + 1, rest⟩}
    (hright : (operand ⟨left.next.position + 1, rest⟩).result = .ok right)
    (hheight : (Expr.binary op left.tree right.tree).height ≤ maxDepth) :
    ∃ joined : Parsed c, joined.tree = .binary op left.tree right.tree ∧
      joined.next = right.next ∧
      Leads tier operand joined (events ++ (operand ⟨left.next.position + 1, rest⟩).events) := by
  obtain ⟨joined, htree, hnext, hresult, hevents⟩ :=
    exists_extend_eq_extend hc hop hright hheight
  refine ⟨joined, htree, hnext, h.result_eq.trans hresult, ?_⟩
  rw [h.events_eq, hevents, List.append_assoc]

/-- A chain that has come to `tree` at `c` goes on to `tree'` at `c'`. -/
inductive Extends (tier : Tier) (operand : (c : Cursor) → Reading (Parsed c)) :
    Expr → Cursor → Expr → Cursor → Prop
  | stop {tree : Expr} {c : Cursor}
      (h : ∀ op rest, c.tokens = .operator op :: rest → op.tier ≠ tier) :
      Extends tier operand tree c tree c
  | step {tree right tree' : Expr} {c after c' : Cursor} {op : Operator} {rest : List Token}
      (hc : c.tokens = .operator op :: rest) (hop : op.tier = tier)
      (hright : (operand ⟨c.position + 1, rest⟩).Yields right after)
      (hheight : (Expr.binary op tree right).height ≤ maxDepth)
      (h : Extends tier operand (.binary op tree right) after tree' c') :
      Extends tier operand tree c tree' c'

/-- What a chain goes on to is what `Extends` says. -/
theorem yields_extend_iff {left : Parsed start} :
    (extend tier operand left).Yields tree next ↔
      Extends tier operand left.tree left.next tree next := by
  refine ⟨?_, fun h => ?_⟩
  · rintro ⟨p, hp, rfl, rfl⟩
    induction left using extend_induction tier with
    | stop left hstop =>
      rw [extend_eq_pure hstop] at hp
      cases hp
      exact .stop hstop
    | step left op rest hc hop ih =>
      obtain ⟨join, hjoin, heq⟩ := exists_extend_eq_bind operand hc hop
      rw [heq] at hp
      obtain ⟨right, hright, hp⟩ := result_bind_eq_ok_iff.mp hp
      obtain ⟨node, hnode, hp⟩ := result_bind_eq_ok_iff.mp hp
      obtain ⟨htree, hheight⟩ := result_bounded_eq_ok_iff.mp hnode
      obtain ⟨hjoined, hafter⟩ := hjoin right node
      have hext := ih (join right node) (hafter ▸ right.shorter) hp
      rw [hjoined, hafter, htree] at hext
      exact .step hc hop ⟨right, hright, rfl, rfl⟩ hheight hext
  · generalize htree : left.tree = tree', hnext : left.next = c at h
    induction h generalizing left with
    | stop hstop =>
      subst htree hnext
      rw [extend_eq_pure hstop]
      exact ⟨left, rfl, rfl, rfl⟩
    | step hc hop hright hheight _ ih =>
      subst htree hnext
      obtain ⟨right, hright, rfl, rfl⟩ := hright
      obtain ⟨joined, hjoined, hnext, heq, -⟩ := exists_extend_eq_extend hc hop hright hheight
      obtain ⟨p, hp, ht, hn⟩ := ih hjoined hnext
      exact ⟨p, heq.trans hp, ht, hn⟩

/-- A chain yields what its first operand goes on to. -/
theorem yields_chain_iff :
    (chain tier operand c).Yields tree next ↔
      ∃ first after, (operand c).Yields first after ∧
        Extends tier operand first after tree next := by
  refine ⟨?_, ?_⟩
  · rintro ⟨p, hp, ht, hn⟩
    obtain ⟨left, hleft, hp⟩ := result_bind_eq_ok_iff.mp hp
    exact ⟨_, _, ⟨left, hleft, rfl, rfl⟩, yields_extend_iff.mp ⟨p, hp, ht, hn⟩⟩
  · rintro ⟨_, _, ⟨left, hleft, rfl, rfl⟩, hext⟩
    obtain ⟨p, hp, ht, hn⟩ := yields_extend_iff.mpr hext
    exact ⟨p, result_bind_eq_ok_iff.mpr ⟨left, hleft, hp⟩, ht, hn⟩

/-! ## Terms -/

/-- The place behind a closing parenthesis, if one is at the place. -/
def afterClosing (c : Cursor) : Cursor :=
  match c.tokens with
  | .closing :: rest => ⟨c.position + 1, rest⟩
  | _ => c

theorem afterClosing_of_closing {rest : List Token} (h : c.tokens = .closing :: rest) :
    afterClosing c = ⟨c.position + 1, rest⟩ := by
  simp [afterClosing, h]

theorem afterClosing_of_ne (h : ∀ rest, c.tokens ≠ .closing :: rest) : afterClosing c = c := by
  unfold afterClosing
  split
  next rest hc => exact absurd hc (h rest)
  · rfl

/-- To close a group changes the place and not the tree. -/
theorem yields_closeGroup_iff {inner : Parsed start} :
    (closeGroup inner).Yields tree next ↔ inner.tree = tree ∧ afterClosing inner.next = next := by
  unfold closeGroup
  split
  next rest h =>
    simp [Yields, afterClosing_of_closing h]
  next h =>
    rw [afterClosing_of_ne h]
    refine ⟨?_, ?_⟩
    · rintro ⟨p, hp, ht, hn⟩
      obtain ⟨_, -, hp⟩ := result_bind_eq_ok_iff.mp hp
      cases hp
      exact ⟨ht, hn⟩
    · rintro ⟨ht, hn⟩
      exact ⟨inner, result_bind_eq_ok_iff.mpr ⟨(), rfl, rfl⟩, ht, hn⟩

variable {room position : Nat} {rest : List Token}

theorem yields_required_iff :
    (required optional c).Yields tree next ↔
      ∃ p, (optional c).result = .ok (some p) ∧ p.tree = tree ∧ p.next = next := by
  simp only [Yields, result_required_eq_ok_iff]

theorem not_yields_term_zero : ¬(required (term 0) c).Yields tree next := by
  rw [yields_required_iff]
  rintro ⟨p, h, -⟩
  cases h

/-- A plus sign leaves the tree of its term as it is. -/
theorem yields_plus_iff :
    (required (term (room + 1)) ⟨position, .operator .add :: rest⟩).Yields tree next ↔
      (required (term room) ⟨position + 1, rest⟩).Yields tree next := by
  rw [yields_required_iff]
  simp only [term, result_bind_eq_ok_iff]
  refine ⟨?_, ?_⟩
  · rintro ⟨p, ⟨inner, hinner, hp⟩, rfl, rfl⟩
    cases hp
    exact ⟨inner, hinner, rfl, rfl⟩
  · rintro ⟨inner, hinner, rfl, rfl⟩
    exact ⟨_, ⟨inner, hinner, rfl⟩, rfl, rfl⟩

/-- A minus sign makes the negation of the tree of its term. -/
theorem yields_minus_iff :
    (required (term (room + 1)) ⟨position, .operator .subtract :: rest⟩).Yields tree next ↔
      ∃ inner, (required (term room) ⟨position + 1, rest⟩).Yields inner next ∧
        tree = .negate inner ∧ tree.height ≤ maxDepth := by
  rw [yields_required_iff]
  simp only [term, result_bind_eq_ok_iff]
  refine ⟨?_, ?_⟩
  · rintro ⟨p, ⟨inner, hinner, node, hnode, hp⟩, rfl, rfl⟩
    cases hp
    obtain ⟨htree, hheight⟩ := result_bounded_eq_ok_iff.mp hnode
    exact ⟨inner.tree, ⟨inner, hinner, rfl, rfl⟩, htree, htree ▸ hheight⟩
  · rintro ⟨_, ⟨inner, hinner, rfl, rfl⟩, rfl, hheight⟩
    exact ⟨_, ⟨inner, hinner, ⟨.negate inner.tree, _, rfl, hheight⟩,
      result_bounded_eq_ok_iff.mpr ⟨rfl, hheight⟩, rfl⟩, rfl, rfl⟩

/-- A group is the sum in it, and goes on behind its parenthesis. -/
theorem yields_opening_iff :
    (required (term (room + 1)) ⟨position, .opening :: rest⟩).Yields tree next ↔
      ∃ after, (sum (required (term room)) ⟨position + 1, rest⟩).Yields tree after ∧
        next = afterClosing after := by
  rw [yields_required_iff]
  simp only [term, result_bind_eq_ok_iff]
  refine ⟨?_, ?_⟩
  · rintro ⟨p, ⟨inner, hinner, group, hgroup, hp⟩, rfl, rfl⟩
    cases hp
    obtain ⟨htree, hnext⟩ := yields_closeGroup_iff.mp ⟨group, hgroup, rfl, rfl⟩
    exact ⟨inner.next, ⟨inner, hinner, htree, rfl⟩, hnext.symm⟩
  · rintro ⟨_, ⟨inner, hinner, rfl, rfl⟩, rfl⟩
    obtain ⟨group, hgroup, htree, hnext⟩ := yields_closeGroup_iff.mpr ⟨rfl, rfl⟩
    exact ⟨_, ⟨inner, hinner, group, hgroup, rfl⟩, htree, hnext⟩

/-- A literal is the number that it writes. -/
theorem yields_number_iff {first : Char} {more : List Char} :
    (required (term (room + 1)) ⟨position, .number first more :: rest⟩).Yields tree next ↔
      ∃ value, readLiteral? (first :: more) = some value ∧ tree = .constant value ∧
        next = ⟨position + (first :: more).length, rest⟩ := by
  rw [yields_required_iff]
  simp only [term, result_bind_eq_ok_iff]
  refine ⟨?_, ?_⟩
  · rintro ⟨p, ⟨_, -, hp⟩, rfl, rfl⟩
    split at hp
    next value hvalue =>
      cases hp
      exact ⟨value, hvalue, rfl, rfl⟩
    · cases hp
  · rintro ⟨value, hvalue, rfl, rfl⟩
    exact ⟨⟨Bounded.leaf (.constant value) rfl, _, Nat.lt_succ_self _⟩,
      ⟨(), rfl, by rw [hvalue]; rfl⟩, rfl, rfl⟩

/-- The name of a builtin is applied to the term behind it. -/
theorem yields_builtin_iff {first : Char} {more : List Char} {function : Builtin}
    (h : Builtin.ofName? (String.ofList (first :: more)) = some function) :
    (required (term (room + 1)) ⟨position, .word first more :: rest⟩).Yields tree next ↔
      ∃ argument, (required (term room) ⟨position + (first :: more).length, rest⟩).Yields
        argument next ∧ tree = .call function argument ∧ tree.height ≤ maxDepth := by
  rw [yields_required_iff]
  simp only [term, h, result_bind_eq_ok_iff]
  refine ⟨?_, ?_⟩
  · rintro ⟨p, ⟨_, -, argument, hargument, node, hnode, hp⟩, rfl, rfl⟩
    cases hp
    obtain ⟨htree, hheight⟩ := result_bounded_eq_ok_iff.mp hnode
    exact ⟨argument.tree, ⟨argument, hargument, rfl, rfl⟩, htree, htree ▸ hheight⟩
  · rintro ⟨_, ⟨argument, hargument, rfl, rfl⟩, rfl, hheight⟩
    exact ⟨_, ⟨(), rfl, argument, hargument, ⟨.call function argument.tree, _, rfl, hheight⟩,
      result_bounded_eq_ok_iff.mpr ⟨rfl, hheight⟩, rfl⟩, rfl, rfl⟩

/-- A variable goes on behind the term in its slot, or right behind its name. -/
theorem yields_variable_iff {first : Char} {more : List Char}
    (h : Builtin.ofName? (String.ofList (first :: more)) = none) :
    (required (term (room + 1)) ⟨position, .word first more :: rest⟩).Yields tree next ↔
      tree = .var (String.ofList (first :: more)) ∧
        ((∃ dropped, (required (term room) ⟨position + (first :: more).length, rest⟩).Yields
            dropped next) ∨
          ((term room ⟨position + (first :: more).length, rest⟩).result = .ok none ∧
            next = ⟨position + (first :: more).length, rest⟩)) := by
  simp only [yields_required_iff]
  simp only [term, h, result_bind_eq_ok_iff]
  refine ⟨?_, ?_⟩
  · rintro ⟨p, ⟨_, -, _ | dropped, hslot, hp⟩, rfl, rfl⟩
    · cases hp
      exact ⟨rfl, .inr ⟨hslot, rfl⟩⟩
    · obtain ⟨_, -, hp⟩ := result_bind_eq_ok_iff.mp hp
      cases hp
      exact ⟨rfl, .inl ⟨_, dropped, hslot, rfl, rfl⟩⟩
  · rintro ⟨rfl, ⟨_, dropped, hslot, rfl, rfl⟩ | ⟨hslot, rfl⟩⟩
    · exact ⟨_, ⟨(), rfl, some dropped, hslot, result_bind_eq_ok_iff.mpr ⟨(), rfl, rfl⟩⟩, rfl, rfl⟩
    · exact ⟨_, ⟨(), rfl, none, hslot, rfl⟩, rfl, rfl⟩

/-- No term starts with the tokens, and none is missed. -/
def NoTerm : List Token → Prop
  | [] => True
  | .closing :: _ => True
  | .operator op :: _ => op.tier ≠ .sum
  | _ => False

theorem NoTerm.result_term : ∀ {tokens : List Token}, NoTerm tokens →
    (term (room + 1) ⟨position, tokens⟩).result = .ok none
  | [], _ => rfl
  | .closing :: _, _ => rfl
  | .operator op :: _, h => by
    cases op with
    | add | subtract => exact absurd rfl h
    | multiply | divide | modulo | power | nthRoot => rfl

/-- Only tokens that no term starts with are given back untouched. -/
theorem noTerm_of_result_term {tokens : List Token}
    (h : (term (room + 1) ⟨position, tokens⟩).result = .ok none) : NoTerm tokens := by
  rcases tokens with - | ⟨first | first | op | - | - | c, rest⟩
  · trivial
  · simp only [term, result_bind_eq_ok_iff] at h
    obtain ⟨_, -, h⟩ := h
    split at h <;> cases h
  · simp only [term, result_bind_eq_ok_iff] at h
    obtain ⟨_, -, h⟩ := h
    split at h
    · obtain ⟨_, -, h⟩ := result_bind_eq_ok_iff.mp h
      obtain ⟨_, -, h⟩ := result_bind_eq_ok_iff.mp h
      cases h
    · obtain ⟨_ | _, -, h⟩ := result_bind_eq_ok_iff.mp h
      · cases h
      · obtain ⟨_, -, h⟩ := result_bind_eq_ok_iff.mp h
        cases h
  · cases op with
    | add =>
      obtain ⟨_, -, h⟩ := result_bind_eq_ok_iff.mp h
      cases h
    | subtract =>
      obtain ⟨_, -, h⟩ := result_bind_eq_ok_iff.mp h
      obtain ⟨_, -, h⟩ := result_bind_eq_ok_iff.mp h
      cases h
    | multiply | divide | modulo | power | nthRoot => exact fun h => nomatch h
  · simp only [term, result_bind_eq_ok_iff] at h
    obtain ⟨_, -, _, -, h⟩ := h
    cases h
  · trivial
  · cases h

/-- A term that is read starts with a sign, a literal, a name or a parenthesis. -/
theorem not_noTerm_of_yields {tokens : List Token}
    (h : (required (term (room + 1)) ⟨position, tokens⟩).Yields tree next) : ¬NoTerm tokens := by
  intro hno
  obtain ⟨p, hp, -⟩ := yields_required_iff.mp h
  rw [hno.result_term] at hp
  cases hp

theorem not_yields_stray {c : Char} :
    ¬(required (term (room + 1)) ⟨position, .stray c :: rest⟩).Yields tree next := by
  intro h
  obtain ⟨p, hp, -⟩ := yields_required_iff.mp h
  cases hp

end Reading

end Formula
