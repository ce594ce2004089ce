import Formula.Proofs.Yields

/-!
# What a failing reading fails with

The counterpart of `Yields` : for every kind of term and for chains one lemma says when
reading fails, and with which error. A part fails with the error of the first of its own
parts that does, and only then can a node fail that would be too high. `Sticks` follows a
chain step by step to the operand or the node that fails.
-/

namespace Formula

namespace Reading

variable {c start : Cursor} {tree : Expr} {tier : Tier} {e : ParseError}
  {operand : (c : Cursor) → Reading (Parsed c)}
  {optional : (c : Cursor) → Reading (Option (Parsed c))}

/-- Where a term is required, its absence is an error too. -/
theorem result_required_eq_error_iff :
    (required optional c).result = .error e ↔
      (optional c).result = .error e ∨ (optional c).result = .ok none ∧ e = unexpected c := by
  rw [required, result_bind_eq_error_iff]
  refine or_congr_right ⟨?_, ?_⟩
  · rintro ⟨_ | p, hp, h⟩
    · cases h
      exact ⟨hp, rfl⟩
    · cases h
  · rintro ⟨hnone, rfl⟩
    exact ⟨none, hnone, rfl⟩

/-- A node fails if it is too high, and the error names the place that reading has come to. -/
theorem result_bounded_eq_error_iff {position height : Nat} {h : height = tree.height} :
    (bounded position tree height h).result = .error e ↔
      maxDepth < tree.height ∧ e = .tooDeep position := by
  subst h
  unfold bounded
  split
  next hbound =>
    refine ⟨fun h => ?_, fun h => absurd hbound (Nat.not_le.mpr h.1)⟩
    cases h
  next hbound =>
    rw [and_iff_right (Nat.not_le.mp hbound), result_throw, Except.error.injEq, eq_comm]

/-- A group may be closed by nothing at all, so closing it never fails. -/
theorem result_closeGroup_ne_error {inner : Parsed start} :
    (closeGroup inner).result ≠ .error e := by
  unfold closeGroup
  split
  · exact (nomatch ·)
  · rw [ne_eq, result_bind_eq_error_iff]
    rintro (h | ⟨_, -, h⟩) <;> cases h

/-! ## Chains -/

/-- A chain that has come to `tree` at `c` fails. -/
inductive Sticks (tier : Tier) (operand : (c : Cursor) → Reading (Parsed c)) :
    Expr → Cursor → ParseError → Prop
  | operand {tree : Expr} {c : Cursor} {op : Operator} {rest : List Token} {e : ParseError}
      (hc : c.tokens = .operator op :: rest) (hop : op.tier = tier)
      (h : (operand ⟨c.position + 1, rest⟩).result = .error e) : Sticks tier operand tree c e
  | high {tree right : Expr} {c after : Cursor} {op : Operator} {rest : List Token}
      (hc : c.tokens = .operator op :: rest) (hop : op.tier = tier)
      (hright : (operand ⟨c.position + 1, rest⟩).Yields right after)
      (hheight : maxDepth < (Expr.binary op tree right).height) :
      Sticks tier operand tree c (.tooDeep after.position)
  | step {tree right : Expr} {c after : Cursor} {op : Operator} {rest : List Token} {e : ParseError}
      (hc : c.tokens = .operator op :: rest) (hop : op.tier = tier)
      (hright : (operand ⟨c.position + 1, rest⟩).Yields right after)
      (hheight : (Expr.binary op tree right).height ≤ maxDepth)
      (h : Sticks tier operand (.binary op tree right) after e) : Sticks tier operand tree c e

/-- Where a chain fails on its way, and with what, is what `Sticks` says. -/
theorem result_extend_eq_error_iff {left : Parsed start} :
    (extend tier operand left).result = .error e ↔
      Sticks tier operand left.tree left.next e := by
  refine ⟨fun h => ?_, fun h => ?_⟩
  · induction left using extend_induction tier with
    | stop left hstop =>
      rw [extend_eq_pure hstop] at h
      cases h
    | step left op rest hc hop ih =>
      obtain ⟨join, hjoin, heq⟩ := exists_extend_eq_bind operand hc hop
      rw [heq, result_bind_eq_error_iff] at h
      obtain h | ⟨right, hright, h⟩ := h
      · exact .operand hc hop h
      obtain h | ⟨node, hnode, h⟩ := result_bind_eq_error_iff.mp h
      · obtain ⟨hheight, rfl⟩ := result_bounded_eq_error_iff.mp h
        exact .high hc hop ⟨right, hright, rfl, rfl⟩ hheight
      obtain ⟨htree, hheight⟩ := result_bounded_eq_ok_iff.mp hnode
      obtain ⟨hjoined, hafter⟩ := hjoin right node
      have hrest := ih (join right node) (hafter ▸ right.shorter) h
      rw [hjoined, hafter, htree] at hrest
      exact .step hc hop ⟨right, hright, rfl, rfl⟩ hheight hrest
  · generalize htree : left.tree = tree, hnext : left.next = c at h
    induction h generalizing left with
    | operand hc hop h =>
      subst hnext
      obtain ⟨join, hjoin, heq⟩ := exists_extend_eq_bind operand hc hop
      rw [heq, result_bind_eq_error_iff]
      exact .inl h
    | high hc hop hright hheight =>
      subst htree hnext
      obtain ⟨right, hright, rfl, rfl⟩ := hright
      obtain ⟨join, hjoin, heq⟩ := exists_extend_eq_bind operand hc hop
      rw [heq, result_bind_of_eq_ok hright, result_bind_eq_error_iff]
      exact .inl (result_bounded_eq_error_iff.mpr ⟨hheight, rfl⟩)
    | step hc hop hright hheight _ ih =>
      subst htree hnext
      obtain ⟨right, hright, rfl, rfl⟩ := hright
      obtain ⟨joined, hjoined, hnext, heq, -⟩ := exists_extend_eq_extend hc hop hright hheight
      rw [heq]
      exact ih hjoined hnext

/-- A chain fails with its first operand, or on the way from there. -/
theorem result_chain_eq_error_iff :
    (chain tier operand c).result = .error e ↔
      (operand c).result = .error e ∨ ∃ first after, (operand c).Yields first after ∧
        Sticks tier operand first after e := by
  rw [chain, result_bind_eq_error_iff]
  refine or_congr_right ⟨?_, ?_⟩
  · rintro ⟨left, hleft, h⟩
    exact ⟨_, _, ⟨left, hleft, rfl, rfl⟩, result_extend_eq_error_iff.mp h⟩
  · rintro ⟨_, _, ⟨left, hleft, rfl, rfl⟩, h⟩
    exact ⟨left, hleft, result_extend_eq_error_iff.mpr h⟩

/-! ## Terms -/

variable {room position : Nat} {rest : List Token}

/-- With no level left a term fails before its first token is looked at. -/
theorem result_term_zero : (term 0 c).result = .error (.tooDeep c.position) :=
  rfl

/-- A plus sign makes no node, so it adds no error to those of its term. -/
theorem result_plus_eq_error_iff :
    (term (room + 1) ⟨position, .operator .add :: rest⟩).result = .error e ↔
      (required (term room) ⟨position + 1, rest⟩).result = .error e := by
  simp only [term, result_bind_eq_error_iff]
  refine or_iff_left ?_
  rintro ⟨inner, -, h⟩
  cases h

/-- A minus sign makes a node, which fails only behind a term that is read. -/
theorem result_minus_eq_error_iff :
    (term (room + 1) ⟨position, .operator .subtract :: rest⟩).result = .error e ↔
      (required (term room) ⟨position + 1, rest⟩).result = .error e ∨
        ∃ inner next, (required (term room) ⟨position + 1, rest⟩).Yields inner next ∧
          maxDepth < (Expr.negate inner).height ∧ e = .tooDeep next.position := by
  simp only [term, result_bind_eq_error_iff, result_bounded_eq_error_iff]
  refine or_congr_right ⟨?_, ?_⟩
  · rintro ⟨inner, hinner, h | ⟨node, -, h⟩⟩
    · exact ⟨_, _, ⟨inner, hinner, rfl, rfl⟩, h⟩
    · cases h
  · rintro ⟨_, _, ⟨inner, hinner, rfl, rfl⟩, h⟩
    exact ⟨inner, hinner, .inl h⟩

/-- A group fails just as the sum in it does. -/
theorem result_opening_eq_error_iff :
    (term (room + 1) ⟨position, .opening :: rest⟩).result = .error e ↔
      (sum (required (term room)) ⟨position + 1, rest⟩).result = .error e := by
  simp only [term, result_bind_eq_error_iff]
  refine or_iff_left ?_
  rintro ⟨inner, -, h | ⟨group, -, h⟩⟩
  · exact result_closeGroup_ne_error h
  · cases h

/-- A literal fails if it is no number, and the error names where it begins. -/
theorem result_number_eq_error_iff {first : Char} {more : List Char} :
    (term (room + 1) ⟨position, .number first more :: rest⟩).result = .error e ↔
      readLiteral? (first :: more) = none ∧
        e = .invalidNumber (String.ofList (first :: more)) position := by
  simp only [term]
  rw [result_bind_of_eq_ok (result_report _)]
  split
  next value hvalue =>
    rw [hvalue]
    refine ⟨fun h => ?_, fun h => ?_⟩
    · cases h
    · cases h.1
  next hvalue => rw [and_iff_right hvalue, result_throw, Except.error.injEq, eq_comm]

/-- A call fails with its argument, or at the node above it. -/
theorem result_builtin_eq_error_iff {first : Char} {more : List Char} {function : Builtin}
    (h : Builtin.ofName? (String.ofList (first :: more)) = some function) :
    (term (room + 1) ⟨position, .word first more :: rest⟩).result = .error e ↔
      (required (term room) ⟨position + (first :: more).length, rest⟩).result = .error e ∨
        ∃ argument next,
          (required (term room) ⟨position + (first :: more).length, rest⟩).Yields argument next ∧
            maxDepth < (Expr.call function argument).height ∧ e = .tooDeep next.position := by
  simp only [term, h]
  rw [result_bind_of_eq_ok (result_report _)]
  simp only [result_bind_eq_error_iff, result_bounded_eq_error_iff]
  refine or_congr_right ⟨?_, ?_⟩
  · rintro ⟨argument, hargument, h | ⟨node, -, h⟩⟩
    · exact ⟨_, _, ⟨argument, hargument, rfl, rfl⟩, h⟩
    · cases h
  · rintro ⟨_, _, ⟨argument, hargument, rfl, rfl⟩, h⟩
    exact ⟨argument, hargument, .inl h⟩

/-- A variable fails with what stands in the slot after it, though the term there is dropped. -/
theorem result_variable_eq_error_iff {first : Char} {more : List Char}
    (h : Builtin.ofName? (String.ofList (first :: more)) = none) :
    (term (room + 1) ⟨position, .word first more :: rest⟩).result = .error e ↔
      (term room ⟨position + (first :: more).length, rest⟩).result = .error e := by
  simp only [term, h]
  rw [result_bind_of_eq_ok (result_report _), result_bind_eq_error_iff]
  refine or_iff_left ?_
  rintro ⟨_ | dropped, -, h⟩
  · cases h
  · rw [result_bind_of_eq_ok (result_report _)] at h
    cases h

/-- A character that is part of no formula is an error of its own. -/
theorem result_stray_eq_error_iff {c : Char} :
    (term (room + 1) ⟨position, .stray c :: rest⟩).result = .error e ↔
      e = .unexpectedChar c position := by
  rw [term, result_throw, Except.error.injEq, eq_comm]

end Reading

end Formula
