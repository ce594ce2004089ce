import Formula.Proofs.Limits
import Formula.Proofs.OpenGroups
import Formula.Proofs.PlainText

/-!
# Precedence

A chain is written as operands with operators of all tiers between them. The reader builds the
tree of a chain from the operands up, tier by tier. Seen from the root it is simpler : the root
is the last operator of the loosest tier, and the parts of the chain before and behind it are
read as they would be by themselves (`parse_chain`). The signs of an operand belong to it, so
they bind tighter than any operator.

A chain is spelled by a phrase (`OperatorChain.exists_spells`), by induction on the number of
its operators : the phrases of the two parts make a phrase of the whole where the chain splits at
the last operator of its loosest tier (`OperatorChain.SplitsAt.spells`), and every chain with an
operator splits (`OperatorChain.exists_splitsAt`). Which tier is looser the grammar's own table of
operators says.
-/

namespace Formula

/-- An operand of a chain : a number or a text in parentheses, and the signs in front of it. -/
inductive Operand
  | number (literal : List Char)
  | group (inner : String)
  | plus (inner : Operand)
  | minus (inner : Operand)

namespace Operand

/-- The characters of an operand. -/
def text : Operand → List Char
  | number literal => literal
  | group inner => '(' :: (inner.toList ++ [')'])
  | plus inner => '+' :: inner.text
  | minus inner => '-' :: inner.text

/-- The literal is a number, and the text in parentheses is a closed formula by itself. -/
def WellFormed : Operand → Prop
  | number literal => (∀ c ∈ literal, isNumeral c = true) ∧ (readLiteral? literal).isSome
  | group inner => IsClosedFormula inner
  | plus inner => inner.WellFormed
  | minus inner => inner.WellFormed

end Operand

/-- Operands with operators between them. -/
structure OperatorChain where
  first : Operand
  rest : List (Operator × Operand)

namespace OperatorChain

/-- The characters of a chain. -/
def text (chain : OperatorChain) : List Char :=
  chain.first.text ++ chain.rest.flatMap fun link => link.1.symbol :: link.2.text

/-- The operators of a chain, from left to right. -/
def operators (chain : OperatorChain) : List Operator :=
  chain.rest.map (·.1)

/-- Every operand of the chain is well formed. -/
def WellFormed (chain : OperatorChain) : Prop :=
  chain.first.WellFormed ∧ ∀ link ∈ chain.rest, link.2.WellFormed

/-- Two chains with an operator between them. -/
def join (left : OperatorChain) (op : Operator) (right : OperatorChain) : OperatorChain :=
  ⟨left.first, left.rest ++ (op, right.first) :: right.rest⟩

/-- Between `left` and `right` stands the last of the chain's operators in the loosest row of
`operatorTable` that has any. -/
structure SplitsAt (chain left : OperatorChain) (op : Operator) (right : OperatorChain) :
    Prop where
  eq_join : chain = left.join op right
  le_left : ∀ other ∈ left.operators, op.rank ≤ other.rank
  lt_right : ∀ other ∈ right.operators, op.rank < other.rank

variable {chain left right : OperatorChain} {op : Operator}

theorem text_join (left : OperatorChain) (op : Operator) (right : OperatorChain) :
    (left.join op right).text = left.text ++ op.symbol :: right.text := by
  simp [text, join]

theorem wellFormed_join_iff :
    (left.join op right).WellFormed ↔ left.WellFormed ∧ right.WellFormed := by
  simp only [WellFormed, join, List.forall_mem_append, List.forall_mem_cons, and_assoc]

/-! ## Where a chain splits -/

/-- An operator in front of a chain is where the longer chain splits if it is looser than the
operators of the chain, and else the longer chain splits where the chain does. -/
theorem SplitsAt.cons (h : chain.SplitsAt left op right) (operand : Operand) (front : Operator) :
    ∃ left' op' right', SplitsAt (join ⟨operand, []⟩ front chain) left' op' right' := by
  obtain ⟨rfl, hle, hlt⟩ := h
  rcases Nat.lt_or_ge front.rank op.rank with hfront | hfront
  · refine ⟨⟨operand, []⟩, front, left.join op right, rfl, by simp [operators], ?_⟩
    simp only [operators, join, List.map_append, List.map_cons, List.forall_mem_append,
      List.forall_mem_cons]
    exact ⟨fun other hother => Nat.lt_of_lt_of_le hfront (hle other hother), hfront,
      fun other hother => Nat.lt_trans hfront (hlt other hother)⟩
  · refine ⟨join ⟨operand, []⟩ front left, op, right, rfl, ?_, hlt⟩
    simpa [operators, join] using ⟨hfront, by simpa [operators] using hle⟩

/-- Every chain with an operator splits. -/
theorem exists_splitsAt : ∀ {chain : OperatorChain}, chain.operators ≠ [] →
    ∃ left op right, chain.SplitsAt left op right
  | ⟨_, []⟩, h => absurd rfl h
  | ⟨first, [(op, operand)]⟩, _ =>
    ⟨⟨first, []⟩, op, ⟨operand, []⟩, rfl, by simp [operators], by simp [operators]⟩
  | ⟨first, (op, operand) :: link :: rest⟩, _ => by
    have hne : (OperatorChain.mk operand (link :: rest)).operators ≠ [] := List.cons_ne_nil _ _
    obtain ⟨_, _, _, hsplits⟩ := exists_splitsAt hne
    exact hsplits.cons first op
termination_by chain => chain.rest.length

end OperatorChain

/-! ## Phrases for chains -/

/-- The phrase has the text of the chain, in normal form, and it is one of the grammar wherever
neither a literal nor a chain of its tier goes on. -/
structure Phrase.Spells (p : Phrase) (chain : OperatorChain) : Prop where
  text_eq : p.text = normalizeChars chain.text
  le_rank : ∀ rank ≤ 3, (∀ op ∈ chain.operators, rank ≤ op.rank) → rank ≤ p.rank
  fits : ∀ next : Option Char, (∀ c ∈ next, isNumeral c = false) → Stops (p.rank + 1) next →
    p.Fits next

namespace Operand

/-- An operand is a term, in front of whatever does not go on with a literal. -/
theorem exists_phrase : ∀ {operand : Operand}, operand.WellFormed →
    ∃ p : Phrase, p.text = normalizeChars operand.text ∧ p.IsTerm ∧
      ∀ next : Option Char, (∀ c ∈ next, isNumeral c = false) → p.Fits next
  | number literal, ⟨hrun, hvalue⟩ => by
    obtain ⟨value, hvalue⟩ := Option.isSome_iff_exists.mp hvalue
    have hplain : ∀ c ∈ literal, IsPlain c := fun c hc => isPlain_of_isNumeral (hrun c hc)
    exact ⟨.number literal value, (normalizeChars_of_isPlain hplain).symm, rfl,
      fun next hnext => ⟨⟨ne_nil_of_readLiteral? hvalue, hrun, hnext⟩, hvalue⟩⟩
  | group inner, hclosed => by
    obtain ⟨p, htext, hfits⟩ := IsClosedFormula.exists_phrase hclosed
    exact ⟨.group p true, by rw [Phrase.text, htext, text, normalizeChars_group], rfl,
      fun _ _ => hfits⟩
  | plus inner, h => by
    have hinner : inner.WellFormed := h
    obtain ⟨p, htext, hterm, hfits⟩ := exists_phrase hinner
    refine ⟨.plus p, ?_, rfl, fun next hnext => ⟨hterm, hfits next hnext⟩⟩
    rw [Phrase.text, htext]
    exact (normalizeChars_symbol_cons .add _).symm
  | minus inner, h => by
    have hinner : inner.WellFormed := h
    obtain ⟨p, htext, hterm, hfits⟩ := exists_phrase hinner
    refine ⟨.minus p, ?_, rfl, fun next hnext => ⟨hterm, hfits next hnext⟩⟩
    rw [Phrase.text, htext]
    exact (normalizeChars_symbol_cons .subtract _).symm

end Operand

namespace OperatorChain

variable {chain left right : OperatorChain} {op : Operator} {l r : Phrase}

/-- The phrases of the parts make a phrase of a chain that splits between them. -/
theorem SplitsAt.spells (h : chain.SplitsAt left op right) (hl : l.Spells left)
    (hr : r.Spells right) : (Phrase.binary op l r).Spells chain := by
  obtain ⟨rfl, hle, hlt⟩ := h
  have hleft : op.rank ≤ l.rank := hl.le_rank _ (Nat.le_of_lt op.rank_lt_three) hle
  have hright : op.rank < r.rank := hr.le_rank _ op.rank_lt_three hlt
  refine ⟨?_, fun rank _ hrank => hrank op (by simp [operators, join]), fun next hnext hstops => ?_⟩
  · rw [Phrase.text, hl.text_eq, hr.text_eq, text_join, normalizeChars_append_symbol]
  · refine ⟨hleft, hl.fits _ ?_ ?_, hright, hr.fits next hnext ?_, hstops⟩
    · simp [op.isNumeral_symbol]
    · exact stops_symbol_iff.mpr (Nat.lt_succ_of_le hleft)
    · exact hstops.mono (Nat.succ_le_succ (Nat.le_of_lt hright))

/-- Every chain of well-formed operands is spelled by a phrase. -/
theorem exists_spells (hformed : chain.WellFormed) : ∃ p : Phrase, p.Spells chain := by
  -- The induction is on the number of operators, since the chain splits anywhere.
  induction hlength : chain.rest.length using Nat.strongRecOn generalizing chain with
  | ind length ih =>
    by_cases hoperators : chain.operators = []
    · obtain ⟨first, rest⟩ := chain
      obtain rfl : rest = [] := List.map_eq_nil_iff.mp hoperators
      obtain ⟨p, htext, hterm, hfits⟩ := Operand.exists_phrase hformed.1
      refine ⟨p, by simpa [text] using htext, fun rank hrank _ => ?_,
        fun next hnext _ => hfits next hnext⟩
      rwa [hterm]
    · obtain ⟨left, op, right, hsplits⟩ := exists_splitsAt hoperators
      have hjoin := hsplits.eq_join
      subst hjoin
      obtain ⟨hleft, hright⟩ := wellFormed_join_iff.mp hformed
      have hsum : left.rest.length + (right.rest.length + 1) = length := by
        simpa [join] using hlength
      obtain ⟨l, hl⟩ := ih left.rest.length (by omega) hleft rfl
      obtain ⟨r, hr⟩ := ih right.rest.length (by omega) hright rfl
      exact ⟨.binary op l r, hsplits.spells hl hr⟩

end OperatorChain

/-! ## The tree of a chain -/

namespace Phrase.Spells

variable {p : Phrase} {chain : OperatorChain} {raw : String}

theorem fits_none (h : p.Spells chain) : p.Fits none :=
  h.fits none (by simp) (stops_none _)

theorem parse_eq (h : p.Spells chain)
    (htext : normalize raw = normalize (String.ofList chain.text)) :
    parse raw = (Reading.formula p.text).result :=
  parse_eq_of_text (by rw [htext, toList_normalize, String.toList_ofList, h.text_eq])

/-- A part that is within the limits is read by itself. -/
theorem parse_of_within (h : p.Spells chain) (hlimits : p.Within maxDepth) :
    parse (String.ofList chain.text) = .ok p.tree := by
  rw [h.parse_eq rfl, h.fits_none.result_of_within hlimits]

end Phrase.Spells

theorem Phrase.Within.of_binary {op : Operator} {l r : Phrase} {room : Nat}
    (h : (Phrase.binary op l r).Within room) : l.Within room ∧ r.Within room := by
  obtain ⟨hl, hr⟩ := Nat.max_le.mp h.depth_le
  obtain ⟨hl', hr'⟩ := Nat.max_le.mp (Nat.max_le.mp h.peak_le).1
  exact ⟨⟨hl, hl'⟩, ⟨hr, hr'⟩⟩

/-- The root of the tree for a chain is the last operator of its loosest tier, and the chains
before and behind it are read as its children by themselves. -/
theorem parse_chain (raw : String) (chain : OperatorChain) (tree : Expr)
    (hformed : chain.WellFormed) (hoperators : chain.operators ≠ [])
    (htext : normalize raw = normalize (String.ofList chain.text))
    (hparse : parse raw = .ok tree) :
    (∃ left op right, chain.SplitsAt left op right) ∧
      ∀ left op right, chain.SplitsAt left op right →
        ∃ l r, tree = .binary op l r ∧ parse (String.ofList left.text) = .ok l ∧
          parse (String.ofList right.text) = .ok r := by
  refine ⟨OperatorChain.exists_splitsAt hoperators, fun left op right hsplits => ?_⟩
  obtain ⟨hleft, hright⟩ := OperatorChain.wellFormed_join_iff.mp (hsplits.eq_join ▸ hformed)
  obtain ⟨l, hl⟩ := OperatorChain.exists_spells hleft
  obtain ⟨r, hr⟩ := OperatorChain.exists_spells hright
  have hchain := hsplits.spells hl hr
  rw [hchain.parse_eq htext] at hparse
  obtain ⟨hlimits, rfl⟩ := hchain.fits_none.within_of_result hparse
  obtain ⟨hlimits, hlimits'⟩ := hlimits.of_binary
  exact ⟨l.tree, r.tree, rfl, hl.parse_of_within hlimits, hr.parse_of_within hlimits'⟩

/-- The chain `-2+3*-4^2`. -/
def signedSum : OperatorChain where
  first := .minus (.number ['2'])
  rest := [(.add, .number ['3']), (.multiply, .minus (.number ['4'])), (.power, .number ['2'])]

/-- The chain `(5-x)%+6`. -/
def groupRemainder : OperatorChain where
  first := .group "5-x"
  rest := [(.modulo, .plus (.number ['6']))]

/-- The tree of `signedSum`, where the power is in the product and the signs are in the powers. -/
def signedSumTree : Expr :=
  .binary .add (.negate (.constant 2.0))
    (.binary .multiply (.constant 3.0) (.binary .power (.negate (.constant 4.0)) (.constant 2.0)))

/-- The tree of `groupRemainder`. -/
def groupRemainderTree : Expr :=
  .binary .modulo (.binary .subtract (.constant 5.0) (.var "x")) (.constant 6.0)

theorem Operand.wellFormed_digit {digit : Char} (hdigit : isNumeral digit = true)
    (hvalue : (readLiteral? [digit]).isSome = true) : (number [digit]).WellFormed :=
  ⟨List.forall_mem_singleton.mpr hdigit, hvalue⟩

theorem wellFormed_signedSum : signedSum.WellFormed := by
  have htwo : (Operand.number ['2']).WellFormed := Operand.wellFormed_digit (by decide) (by decide)
  have hthree : (Operand.number ['3']).WellFormed :=
    Operand.wellFormed_digit (by decide) (by decide)
  have hfour : (Operand.number ['4']).WellFormed :=
    Operand.wellFormed_digit (by decide) (by decide)
  simp only [OperatorChain.WellFormed, signedSum, List.forall_mem_cons]
  exact ⟨htwo, hthree, hfour, htwo, List.forall_mem_nil _⟩

theorem wellFormed_groupRemainder : groupRemainder.WellFormed := by
  have hgroup : parse "5-x" = .ok (.binary .subtract (.constant 5.0) (.var "x")) := by
    decide +kernel
  have hsix : (Operand.number ['6']).WellFormed := Operand.wellFormed_digit (by decide) (by decide)
  exact ⟨⟨⟨_, hgroup⟩, by decide⟩, List.forall_mem_singleton.mpr hsix⟩

/-- The root of `-2+3*-4^2 - (5-x)%+6` is the last `-` outside of the parentheses. The operators
of the chain in the loosest row are this one and the first `+`, and every other `+` and `-` is a
sign or part of an operand. -/
theorem parse_chain_mixed :
    (signedSum.join .subtract groupRemainder).SplitsAt signedSum .subtract groupRemainder ∧
      parse "-2+3*-4^2 - (5-x)%+6" = .ok (.binary .subtract signedSumTree groupRemainderTree) ∧
      parse "-2+3*-4^2" = .ok signedSumTree ∧ parse "(5-x)%+6" = .ok groupRemainderTree := by
  have hsplits : (signedSum.join .subtract groupRemainder).SplitsAt signedSum .subtract
      groupRemainder := ⟨rfl, by decide, by decide⟩
  have hparse : parse "-2+3*-4^2 - (5-x)%+6" =
      .ok (.binary .subtract signedSumTree groupRemainderTree) := by decide +kernel
  obtain ⟨l, r, htree, hl, hr⟩ := (parse_chain _ (signedSum.join .subtract groupRemainder) _
    (OperatorChain.wellFormed_join_iff.mpr ⟨wellFormed_signedSum, wellFormed_groupRemainder⟩)
    (by decide) (by decide +kernel) hparse).2 _ _ _ hsplits
  obtain ⟨-, rfl, rfl⟩ := Expr.binary.inj htree
  exact ⟨hsplits, hparse, hl, hr⟩

end Formula
