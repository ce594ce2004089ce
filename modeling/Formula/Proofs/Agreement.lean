import Formula.Proofs.Limits

/-!
# Two readings that differ in dropped terms

A term that stands behind a variable is dropped, so it should not matter which one it is. Here
two readings are compared whose tokens are the same but for the terms behind some variables
(`SameButDropped`). They agree : both give the same tree, or both fail with the same error at
places of their own, unless one of them is too deep (`Agrees`). `Reading.Respects.chain` passes
from the operands of a tier to its chains, and `Reading.respectsTerm`, by induction on the room
for terms, from terms of a level to those of the level above.
-/

namespace Formula

/-! ## Outcomes that agree -/

namespace ParseError

/-- The same error at another place. -/
def moveTo (position : Nat) : ParseError → ParseError
  | unexpectedChar found _ => unexpectedChar found position
  | unexpectedEnd _ => unexpectedEnd position
  | invalidNumber literal _ => invalidNumber literal position
  | trailingInput found _ => trailingInput found position
  | tooDeep _ => tooDeep position

/-- The errors are the same but for their places. -/
def SameKind (e e' : ParseError) : Prop :=
  e.moveTo e'.position = e'

end ParseError

/-- Both outcomes are values that are related, or both are the same error at places of their own,
unless one of them is that reading is too deep. -/
inductive Agrees {α β : Type} (R : α → β → Prop) :
    Except ParseError α → Except ParseError β → Prop
  | ok {a : α} {b : β} (h : R a b) : Agrees R (.ok a) (.ok b)
  | error {e e' : ParseError} (h : e.SameKind e') : Agrees R (.error e) (.error e')
  | deepLeft (place : Nat) (s : Except ParseError β) : Agrees R (.error (.tooDeep place)) s
  | deepRight (r : Except ParseError α) (place : Nat) : Agrees R r (.error (.tooDeep place))

theorem Agrees.mono {α β : Type} {R S : α → β → Prop} {r : Except ParseError α}
    {s : Except ParseError β} (h : Agrees R r s) (hle : ∀ a b, R a b → S a b) : Agrees S r s := by
  cases h with
  | ok h => exact .ok (hle _ _ h)
  | error h => exact .error h
  | deepLeft place s => exact .deepLeft place s
  | deepRight r place => exact .deepRight r place

/-- What follows readings that agree agrees if it does for related values. -/
theorem Agrees.bind {α β γ δ : Type} {R : α → β → Prop} {S : γ → δ → Prop} {r : Reading α}
    {s : Reading β} {f : α → Reading γ} {g : β → Reading δ} (h : Agrees R r.result s.result)
    (hnext : ∀ a b, R a b → Agrees S (f a).result (g b).result) :
    Agrees S (r >>= f).result (s >>= g).result := by
  rw [Reading.result_bind, Reading.result_bind]
  generalize r.result = r at h
  generalize s.result = s at h
  cases h with
  | ok h => exact hnext _ _ h
  | error h => exact .error h
  | deepLeft place s => exact .deepLeft place _
  | deepRight r place => exact .deepRight _ place

/-! ## Tokens that differ in dropped terms -/

namespace Reading

/-- Wherever the text stands, it is read as a term up to its end, or reading is too deep. -/
def Passes (text : List Char) : Prop :=
  ∀ room position rest,
    (∃ place, (term room (.of position (text ++ rest))).result = .error (.tooDeep place)) ∨
      ∃ p, (term room (.of position (text ++ rest))).result = .ok (some p) ∧
        p.next.tokens = Token.scan rest

end Reading

/-- The tokens are the same but for terms that stand behind a variable. -/
inductive SameButDropped : List Token → List Token → Prop
  | nil : SameButDropped [] []
  | cons (t : Token) {tokens tokens' : List Token} (h : SameButDropped tokens tokens') :
      SameButDropped (t :: tokens) (t :: tokens')
  | dropped {first : Char} {more dropped dropped' rest rest' : List Char}
      (hname : Builtin.ofName? (String.ofList (first :: more)) = none)
      (hpasses : Reading.Passes dropped) (hpasses' : Reading.Passes dropped')
      (h : SameButDropped (Token.scan rest) (Token.scan rest')) :
      SameButDropped (.word first more :: Token.scan (dropped ++ rest))
        (.word first more :: Token.scan (dropped' ++ rest'))

namespace SameButDropped

variable {tokens tokens' rest : List Token}

theorem refl : ∀ tokens : List Token, SameButDropped tokens tokens
  | [] => .nil
  | t :: tokens => .cons t (refl tokens)

theorem append (h : SameButDropped tokens tokens') :
    ∀ front : List Token, SameButDropped (front ++ tokens) (front ++ tokens')
  | [] => h
  | t :: front => .cons t (h.append front)

theorem symm (h : SameButDropped tokens tokens') : SameButDropped tokens' tokens := by
  induction h with
  | nil => exact .nil
  | cons t _ ih => exact .cons t ih
  | dropped hname hpasses hpasses' _ ih => exact .dropped hname hpasses' hpasses ih

/-- Both end, or both go on with the same token. -/
theorem nil_or_cons (h : SameButDropped tokens tokens') :
    (tokens = [] ∧ tokens' = []) ∨
      ∃ t rest rest', tokens = t :: rest ∧ tokens' = t :: rest' := by
  cases h with
  | nil => exact .inl ⟨rfl, rfl⟩
  | cons t => exact .inr ⟨t, _, _, rfl, rfl⟩
  | dropped => exact .inr ⟨_, _, _, rfl, rfl⟩

/-- Behind a token that is no name the tokens are the same but for dropped terms. -/
theorem of_cons {t : Token} (h : SameButDropped tokens tokens') (htokens : tokens = t :: rest)
    (hword : ∀ first more, t ≠ .word first more) :
    ∃ rest', tokens' = t :: rest' ∧ SameButDropped rest rest' := by
  cases h with
  | nil => cases htokens
  | cons t h =>
    cases htokens
    exact ⟨_, rfl, h⟩
  | dropped =>
    cases htokens
    exact absurd rfl (hword _ _)

end SameButDropped

namespace Reading

/-- The trees are the same, and reading goes on at tokens that are the same but for dropped
terms. -/
structure Matches {c c' : Cursor} (p : Parsed c) (q : Parsed c') : Prop where
  tree_eq : p.tree = q.tree
  next : SameButDropped p.next.tokens q.next.tokens

/-- The reader agrees with itself on tokens that are the same but for dropped terms. -/
def Respects (operand : (c : Cursor) → Reading (Parsed c)) : Prop :=
  ∀ c c' : Cursor, SameButDropped c.tokens c'.tokens →
    Agrees Matches (operand c).result (operand c').result

/-- The same for terms that may be missing. -/
def RespectsTerm (room : Nat) : Prop :=
  ∀ c c' : Cursor, SameButDropped c.tokens c'.tokens →
    Agrees (Option.Rel Matches) (term room c).result (term room c').result

variable {c c' start start' : Cursor} {tier : Tier} {room : Nat}
  {operand : (c : Cursor) → Reading (Parsed c)}

theorem agrees_bounded (position position' : Nat) {tree tree' : Expr} {height height' : Nat}
    (h : height = tree.height) (h' : height' = tree'.height) (htree : tree = tree') :
    Agrees (fun node node' : Bounded => node.tree = node'.tree)
      (bounded position tree height h).result (bounded position' tree' height' h').result := by
  subst htree
  by_cases hle : tree.height ≤ maxDepth
  · obtain ⟨node, hnode, heq⟩ := exists_bounded_eq_pure position h hle
    obtain ⟨node', hnode', heq'⟩ := exists_bounded_eq_pure position' h' hle
    rw [heq, heq']
    exact .ok (hnode.trans hnode'.symm)
  · rw [result_bounded_eq_error_iff.mpr ⟨Nat.lt_of_not_le hle, rfl⟩]
    exact .deepLeft _ _

/-! ## Chains -/

theorem Respects.extend (h : Respects operand) {left : Parsed start} {left' : Parsed start'}
    (hleft : Matches left left') :
    Agrees Matches (Reading.extend tier operand left).result
      (Reading.extend tier operand left').result := by
  -- The two chains take their steps together, because they meet the same operators.
  induction left using extend_induction tier generalizing left' with
  | stop left hstop =>
    have hstop' : ∀ op rest, left'.next.tokens = .operator op :: rest → op.tier ≠ tier := by
      intro op rest' hc'
      obtain ⟨rest, hc, -⟩ := hleft.next.symm.of_cons hc' nofun
      exact hstop op rest hc
    rw [extend_eq_pure hstop, extend_eq_pure hstop']
    exact .ok hleft
  | step left op rest hc hop ih =>
    obtain ⟨rest', hc', hrest⟩ := hleft.next.of_cons hc nofun
    obtain ⟨join, hjoin, heq⟩ := exists_extend_eq_bind operand hc hop
    obtain ⟨join', hjoin', heq'⟩ := exists_extend_eq_bind operand hc' hop
    rw [heq, heq']
    refine (h _ _ hrest).bind fun right right' hright => ?_
    refine (agrees_bounded _ _ _ _ ?_).bind fun node node' hnode => ?_
    · rw [hleft.tree_eq, hright.tree_eq]
    obtain ⟨hjoined, hafter⟩ := hjoin right node
    obtain ⟨hjoined', hafter'⟩ := hjoin' right' node'
    refine ih _ (hafter ▸ right.shorter) ⟨?_, ?_⟩
    · rw [hjoined, hjoined', hnode]
    · rw [hafter, hafter']
      exact hright.next

theorem Respects.chain (h : Respects operand) : Respects (Reading.chain tier operand) :=
  fun c c' hc => (h c c' hc).bind fun _ _ hleft => h.extend hleft

theorem Respects.sum (h : Respects operand) : Respects (Reading.sum operand) :=
  h.chain.chain.chain

/-! ## Terms -/

theorem unexpected_sameKind (h : SameButDropped c.tokens c'.tokens) :
    (unexpected c).SameKind (unexpected c') := by
  unfold unexpected
  obtain ⟨hc, hc'⟩ | ⟨t, _, _, hc, hc'⟩ := h.nil_or_cons
  · rw [hc, hc']
    rfl
  · rw [hc, hc']
    rfl

theorem RespectsTerm.required (h : RespectsTerm room) : Respects (required (term room)) := by
  intro c c' hc
  refine (h c c' hc).bind fun p q hpq => ?_
  cases hpq with
  | some hpq => exact .ok hpq
  | none => exact .error (unexpected_sameKind hc)

theorem SameButDropped.afterClosing (h : SameButDropped c.tokens c'.tokens) :
    SameButDropped (afterClosing c).tokens (afterClosing c').tokens := by
  by_cases hclosing : ∃ rest, c.tokens = .closing :: rest
  · obtain ⟨rest, hc⟩ := hclosing
    obtain ⟨rest', hc', hrest⟩ := h.of_cons hc nofun
    rw [afterClosing_of_closing hc, afterClosing_of_closing hc']
    exact hrest
  · have hne : ∀ rest, c.tokens ≠ .closing :: rest := not_exists.mp hclosing
    have hne' : ∀ rest, c'.tokens ≠ .closing :: rest := by
      intro rest' hc'
      obtain ⟨rest, hc, -⟩ := h.symm.of_cons hc' nofun
      exact hne rest hc
    rw [afterClosing_of_ne hne, afterClosing_of_ne hne']
    exact h

theorem Matches.closeGroup {inner : Parsed start} {inner' : Parsed start'}
    (h : Matches inner inner') :
    Agrees Matches (Reading.closeGroup inner).result (Reading.closeGroup inner').result := by
  have hyields {start : Cursor} (inner : Parsed start) :
      (Reading.closeGroup inner).Yields inner.tree (Reading.afterClosing inner.next) :=
    yields_closeGroup_iff.mpr ⟨rfl, rfl⟩
  obtain ⟨group, hgroup, htree, hnext⟩ := hyields inner
  obtain ⟨group', hgroup', htree', hnext'⟩ := hyields inner'
  rw [hgroup, hgroup']
  refine .ok ⟨by rw [htree, htree', h.tree_eq], ?_⟩
  rw [hnext, hnext']
  exact SameButDropped.afterClosing h.next

variable {position position' : Nat} {tokens tokens' : List Token}

/-- The tokens behind the slot after a variable, whether a term is in it or not. -/
def behindSlot {c : Cursor} (slot : Option (Parsed c)) : List Token :=
  slot.elim c.tokens (·.next.tokens)

/-- A variable agrees with itself if what follows its slot does. -/
theorem agrees_variable {first : Char} {more : List Char}
    (hname : Builtin.ofName? (String.ofList (first :: more)) = none)
    (hslot : Agrees (fun slot slot' => SameButDropped (behindSlot slot) (behindSlot slot'))
      (term room ⟨position + (first :: more).length, tokens⟩).result
      (term room ⟨position' + (first :: more).length, tokens'⟩).result) :
    Agrees (Option.Rel Matches) (term (room + 1) ⟨position, .word first more :: tokens⟩).result
      (term (room + 1) ⟨position', .word first more :: tokens'⟩).result := by
  simp only [term, hname]
  rw [result_bind_of_eq_ok (result_report _), result_bind_of_eq_ok (result_report _)]
  refine hslot.bind fun slot slot' hbehind => ?_
  cases slot <;> cases slot' <;> exact .ok (.some ⟨rfl, hbehind⟩)

theorem RespectsTerm.word (h : RespectsTerm room) (first : Char) (more : List Char)
    (hc : SameButDropped tokens tokens') :
    Agrees (Option.Rel Matches) (term (room + 1) ⟨position, .word first more :: tokens⟩).result
      (term (room + 1) ⟨position', .word first more :: tokens'⟩).result := by
  cases hname : Builtin.ofName? (String.ofList (first :: more)) with
  | some function =>
    simp only [term, hname]
    rw [result_bind_of_eq_ok (result_report _), result_bind_of_eq_ok (result_report _)]
    refine (h.required _ _ hc).bind fun argument argument' hargument => ?_
    refine (agrees_bounded _ _ _ _ ?_).bind fun node node' hnode => ?_
    · rw [hargument.tree_eq]
    · exact .ok (.some ⟨hnode, hargument.next⟩)
  | none =>
    refine agrees_variable hname ((h _ _ hc).mono fun slot slot' hslot => ?_)
    cases hslot with
    | none => exact hc
    | some hdropped => exact hdropped.next

/-- Whichever terms are dropped, reading goes on behind them. -/
theorem Passes.agrees {dropped dropped' rest rest' : List Char} (h : Passes dropped)
    (h' : Passes dropped') (hrest : SameButDropped (Token.scan rest) (Token.scan rest')) :
    Agrees (fun slot slot' => SameButDropped (behindSlot slot) (behindSlot slot'))
      (term room (.of position (dropped ++ rest))).result
      (term room (.of position' (dropped' ++ rest'))).result := by
  obtain ⟨place, hdeep⟩ | ⟨p, hp, hnext⟩ := h room position rest
  · rw [hdeep]
    exact .deepLeft place _
  obtain ⟨place, hdeep⟩ | ⟨q, hq, hnext'⟩ := h' room position' rest'
  · rw [hdeep]
    exact .deepRight _ place
  rw [hp, hq]
  refine .ok ?_
  rw [behindSlot, behindSlot, Option.elim_some, Option.elim_some, hnext, hnext']
  exact hrest

/-- What stands behind a variable is dropped, whether it is the same or not. -/
theorem respectsTerm : ∀ room : Nat, RespectsTerm room
  | 0 => fun c c' _ => .deepLeft _ _
  | room + 1 => by
    have h := respectsTerm room
    -- The two terms begin with the same token, and behind it either the tokens are alike again, or
    -- the token is a variable and the terms that it drops differ.
    rintro ⟨position, tokens⟩ ⟨position', tokens'⟩ hc
    cases hc with
    | nil => exact .ok .none
    | dropped hname hpasses hpasses' hc =>
      exact agrees_variable hname (hpasses.agrees hpasses' hc)
    | cons t hc =>
      cases t with
      | number first more =>
        simp only [term]
        rw [result_bind_of_eq_ok (result_report _), result_bind_of_eq_ok (result_report _)]
        split
        · exact .ok (.some ⟨rfl, hc⟩)
        · exact .error rfl
      | word first more => exact h.word first more hc
      | operator op =>
        cases op with
        | add =>
          exact (h.required _ _ hc).bind fun _ _ hinner =>
            .ok (.some ⟨hinner.tree_eq, hinner.next⟩)
        | subtract =>
          refine (h.required _ _ hc).bind fun inner inner' hinner => ?_
          refine (agrees_bounded _ _ _ _ ?_).bind fun node node' hnode => ?_
          · rw [hinner.tree_eq]
          · exact .ok (.some ⟨hnode, hinner.next⟩)
        | multiply | divide | modulo | power | nthRoot => exact .ok .none
      | opening =>
        refine (h.required.sum _ _ hc).bind fun inner inner' hinner => ?_
        exact hinner.closeGroup.bind fun _ _ hgroup => .ok (.some ⟨hgroup.tree_eq, hgroup.next⟩)
      | closing => exact .ok .none
      | stray c => exact .error rfl

/-! ## Whole texts -/

/-- Texts whose tokens are the same but for dropped terms are read as the same tree, or both
refused for the same reason, unless one of them is too deep. -/
theorem agrees_formula {text text' : List Char}
    (h : SameButDropped (Token.scan text) (Token.scan text')) :
    Agrees Eq (formula text).result (formula text').result := by
  refine ((respectsTerm maxDepth).required.sum ⟨0, _⟩ ⟨0, _⟩ h).bind fun p q hpq => ?_
  obtain ⟨hp, hq⟩ | ⟨t, _, _, hp, hq⟩ := hpq.next.nil_or_cons
  · rw [hp, hq]
    exact .ok hpq.tree_eq
  · rw [hp, hq]
    exact .error rfl

end Reading

end Formula
