import Formula.Proofs.Failures
import Formula.Proofs.Front

/-!
# The reader fails at obstacles

A reader `Refuses` the blocked texts of its goal if it fails on just these, with the error of
the obstacle. `Refuses.chain` passes from the operands of a tier to its chains, and
`refusesTerm`, by induction on the room for terms, from terms of a level to those of the
level above. Both directions follow the step lemmas of `Failures` : a failure builds its
front from the outside, and a front directs the reading to the obstacle.

`result_formula_eq_error_iff` is the result for whole texts : reading fails if the text is
blocked, or if a whole sum is read and something follows it.
-/

namespace Formula

namespace Reading

/-- The reader fails on just the texts that are blocked. -/
def Refuses (rank room : Nat) (operand : (c : Cursor) → Reading (Parsed c)) : Prop :=
  ∀ position text e,
    (operand (.of position text)).result = .error e ↔ Blocked ⟨rank, room, false⟩ position text e

/-- The same for terms that may be missing. -/
def RefusesTerm (room : Nat) : Prop :=
  ∀ position text e,
    (term room (.of position text)).result = .error e ↔ Blocked ⟨3, room, true⟩ position text e

variable {tier : Tier} {room position : Nat} {operand : (c : Cursor) → Reading (Parsed c)}
  {text : List Char} {e : ParseError}

/-! ## Chains -/

/-- A chain that has come to the end of a phrase and fails makes a blocked text of it. -/
theorem Refuses.blocked_of_sticks (hx : Exact (tier.rank + 1) room operand)
    (h : Refuses (tier.rank + 1) room operand) {tree : Expr} {c : Cursor}
    (hsticks : Sticks tier operand tree c e) :
    ∀ {p : Phrase} {rest : List Char}, p.Stands tier.rank room rest.head? → p.tree = tree →
      c = .of (position + p.text.length) rest →
        Blocked ⟨tier.rank, room, false⟩ position (p.text ++ rest) e := by
  have hscan {p : Phrase} {rest : List Char} {op : Operator} {tokens : List Token}
      (hc : (Cursor.of (position + p.text.length) rest).tokens = .operator op :: tokens) :
      ∃ after, rest = op.symbol :: after ∧ tokens = Token.scan after := by
    obtain ⟨after, rfl, rfl, -⟩ := Token.exists_of_scan_eq_cons hc
    exact ⟨after, rfl, rfl⟩
  induction hsticks with
  | operand hc hop hfails =>
    rintro p rest hp rfl rfl
    obtain ⟨after, rfl, rfl⟩ := hscan hc
    have hafter := (h _ _ _).mp hfails
    rw [← Operator.rank_eq_iff.mpr hop] at hp hafter ⊢
    exact .operand (Nat.le_refl _) hp hafter
  | @high _ _ _ _ op _ hc hop hright hheight =>
    rintro p rest hp rfl rfl
    obtain ⟨after, rfl, rfl⟩ := hscan hc
    obtain ⟨q, rest, rfl, hq, hstops, rfl, rfl⟩ := (hx _ _ _ _).mp hright
    rw [← Operator.rank_eq_iff.mpr hop] at hp hq hstops ⊢
    exact .binary (Nat.le_refl _) hp hq hstops hheight
  | @step _ _ _ _ op _ _ hc hop hright hheight _ ih =>
    rintro p rest hp rfl rfl
    obtain ⟨after, rfl, rfl⟩ := hscan hc
    obtain ⟨q, rest, rfl, hq, hstops, rfl, rfl⟩ := (hx _ _ _ _).mp hright
    have hbinary : (Phrase.binary op p q).Stands tier.rank room rest.head? :=
      .binary (Operator.rank_eq_iff.mpr hop) hp hq hstops hheight
    have hblocked := ih hbinary rfl (by
      simp [Cursor.of, Phrase.text]
      omega)
    simpa [Phrase.text] using hblocked

theorem Exact.result_chain_of_sticks (h : Exact (tier.rank + 1) room operand) {p : Phrase}
    {rest : List Char} (hp : p.Stands tier.rank room rest.head?)
    (hstops : Stops (tier.rank + 1) rest.head?)
    (hsticks : Sticks tier operand p.tree (.of (position + p.text.length) rest) e) :
    (Reading.chain tier operand (.of position (p.text ++ rest))).result = .error e := by
  obtain ⟨left, _, htree, hnext, hleads, -⟩ := h.exists_leads p hp hstops
  rw [hleads.result_eq, result_extend_eq_error_iff, htree, hnext]
  exact hsticks

/-- A blocked text directs the chain to the obstacle. -/
theorem Refuses.result_chain_of_blocked (hx : Exact (tier.rank + 1) room operand)
    (h : Refuses (tier.rank + 1) room operand)
    (hblocked : Blocked ⟨tier.rank, room, false⟩ position text e) :
    (chain tier operand (.of position text)).result = .error e := by
  obtain hfirst | ⟨op, left, after, hrank, rfl, hleft, hafter⟩ :=
    (blocked_chain_iff tier.rank_lt_three).mp hblocked
  · exact result_chain_eq_error_iff.mpr (.inl ((h _ _ _).mpr hfirst))
  have hstops : Stops (tier.rank + 1) (some op.symbol) :=
    stops_symbol_iff.mpr (Nat.lt_succ_of_le (Nat.le_of_eq hrank))
  have hop : op.tier = tier := Operator.rank_eq_iff.mp hrank
  refine hx.result_chain_of_sticks hleft hstops ?_
  have hc : (Cursor.of (position + left.text.length) (op.symbol :: after)).tokens =
      .operator op :: Token.scan after := Token.scan_symbol op after
  obtain hoperand | ⟨right, rest, rfl, hright, hstops, hheight, rfl⟩ := hafter
  · exact .operand hc hop ((h _ _ _).mpr hoperand)
  · exact .high hc hop (hx.yields hright hstops rfl) hheight

/-- A chain fails on just the blocked texts if its operands do. -/
theorem Refuses.chain (hx : Exact (tier.rank + 1) room operand)
    (h : Refuses (tier.rank + 1) room operand) :
    Refuses tier.rank room (Reading.chain tier operand) := by
  refine fun position text e => ⟨fun hfails => ?_, h.result_chain_of_blocked hx⟩
  obtain hfails | ⟨_, _, hfirst, hsticks⟩ := result_chain_eq_error_iff.mp hfails
  · exact ((h _ _ _).mp hfails).weaken (Nat.le_succ _)
  · obtain ⟨p, rest, rfl, hp, -, htree, rfl⟩ := (hx _ _ _ _).mp hfirst
    exact h.blocked_of_sticks hx hsticks
      ⟨Nat.le_of_succ_le hp.rank_le, hp.fits, hp.depth_le, hp.peak_le⟩ htree rfl

theorem Refuses.sum (hx : Exact 3 room operand) (h : Refuses 3 room operand) :
    Refuses 0 room (sum operand) :=
  (sum_of_chain (P := fun rank operand => Exact rank room operand ∧ Refuses rank room operand)
    (fun _ _ h => ⟨Exact.chain h.1, Refuses.chain h.1 h.2⟩) ⟨hx, h⟩).2

/-! ## Terms -/

/-- The error for a missing term names the next character, or the end. -/
theorem unexpected_of (position : Nat) (text : List Char) :
    unexpected (.of position text) = .unexpected text.head? position := by
  cases hscan : Token.scan text with
  | nil =>
    obtain rfl := Token.scan_eq_nil_iff.mp hscan
    rfl
  | cons t tokens =>
    obtain ⟨rest, rfl, -, -⟩ := Token.exists_of_scan_eq_cons hscan
    simp only [unexpected, Cursor.of, hscan]
    rfl

/-- If it is known where optional terms fail, it is known where required ones do. -/
theorem RefusesTerm.required (h : RefusesTerm room) : Refuses 3 room (required (term room)) := by
  intro position text e
  rw [result_required_eq_error_iff, blocked_required_iff, h, result_slot_eq_none_iff,
    unexpected_of, and_assoc]

theorem RefusesTerm.blocked_word (h : RefusesTerm room) {first : Char} {more rest : List Char}
    (hrun : IsRun isAlphabetic (first :: more) rest.head?)
    (hfails : (term (room + 1) ⟨position, .word first more :: Token.scan rest⟩).result =
      .error e) : Blocked ⟨3, room + 1, true⟩ position (first :: more ++ rest) e := by
  cases hname : Builtin.ofName? (String.ofList (first :: more)) with
  | some function =>
    have hletters : first :: more = function.name.toList := by
      rw [Builtin.ofName?_eq_some_iff.mp hname, String.toList_ofList]
    obtain hfails | ⟨_, _, hargument, hheight, rfl⟩ :=
      (result_builtin_eq_error_iff hname).mp hfails
    · have hargument := (h.required _ _ _).mp hfails
      rw [hletters] at hrun hargument ⊢
      exact .step (.call (Nat.le_refl 3) hrun) hargument
    · obtain ⟨p, rest, rfl, hp, -, rfl, rfl⟩ := (exact_term room _ _ _ _).mp hargument
      rw [hletters] at hrun ⊢
      exact .call (Nat.le_refl 3) hrun hp hheight
  | none =>
    have hslot := (h _ _ _).mp ((result_variable_eq_error_iff hname).mp hfails)
    exact .step (.slot (Nat.le_refl 3) ⟨hrun, hname⟩) hslot

theorem RefusesTerm.blocked_operator (h : RefusesTerm room) {op : Operator} {rest : List Char}
    (hfails : (term (room + 1) ⟨position, .operator op :: Token.scan rest⟩).result =
      .error e) : Blocked ⟨3, room + 1, true⟩ position (op.symbol :: rest) e := by
  cases op with
  | add =>
    have hinner := (h.required _ _ _).mp (result_plus_eq_error_iff.mp hfails)
    exact .step (.plus (Nat.le_refl 3)) hinner
  | subtract =>
    obtain hfails | ⟨_, _, hinner, hheight, rfl⟩ := result_minus_eq_error_iff.mp hfails
    · exact .step (.minus (Nat.le_refl 3)) ((h.required _ _ _).mp hfails)
    · obtain ⟨p, rest, rfl, hp, -, rfl, rfl⟩ := (exact_term room _ _ _ _).mp hinner
      exact .minus (Nat.le_refl 3) hp hheight
  | multiply | divide | modulo | power | nthRoot => cases hfails

theorem RefusesTerm.blocked_of_result (h : RefusesTerm room)
    (hfails : (term (room + 1) (.of position text)).result = .error e) :
    Blocked ⟨3, room + 1, true⟩ position text e := by
  unfold Cursor.of at hfails
  cases hscan : Token.scan text with
  | nil =>
    rw [hscan] at hfails
    cases hfails
  | cons t tokens =>
    obtain ⟨rest, rfl, rfl, hlex⟩ := Token.exists_of_scan_eq_cons hscan
    rw [hscan] at hfails
    cases t with
    | number first more =>
      obtain ⟨hvalue, rfl⟩ := result_number_eq_error_iff.mp hfails
      exact .here (.malformed (first :: more)) ⟨Nat.succ_pos _, hlex, hvalue⟩
    | word first more => exact h.blocked_word hlex hfails
    | operator op => exact h.blocked_operator hfails
    | opening =>
      have hinner := ((h.required.sum (exact_term room)) _ _ _).mp
        (result_opening_eq_error_iff.mp hfails)
      exact .step (.group (Nat.le_refl 3)) hinner
    | closing => cases hfails
    | stray c =>
      obtain rfl := result_stray_eq_error_iff.mp hfails
      exact .here .stray ⟨Nat.succ_pos _, c, rfl, hlex⟩

/-- The reader of a term fails at an obstacle. -/
theorem result_term_of_at {obstacle : Obstacle} {rest : List Char}
    (hat : obstacle.At ⟨3, room + 1, true⟩ rest.head?) :
    (term (room + 1) (.of position (obstacle.text ++ rest))).result =
      .error (obstacle.error position rest.head?) := by
  unfold Cursor.of
  cases obstacle with
  | deep => cases hat
  | missing => cases hat.2.1
  | stray =>
    obtain ⟨-, c, hc, hlex⟩ := hat
    obtain ⟨rest, rfl⟩ := List.head?_eq_some_iff.mp hc
    rw [Obstacle.text, List.nil_append, Token.scan_stray hlex]
    rfl
  | malformed literal =>
    obtain ⟨-, hrun, hvalue⟩ := hat
    obtain ⟨first, more, rfl⟩ := List.exists_cons_of_ne_nil hrun.1
    rw [Obstacle.text, Token.scan_number hrun]
    exact result_number_eq_error_iff.mpr ⟨hvalue, rfl⟩
  | high part =>
    obtain ⟨hrank, hfits, hdepth, hovergrown⟩ := hat
    have hx := exact_term room
    cases hovergrown with
    | @minus inner hpeak hheight =>
      obtain ⟨hterm, hfits⟩ := hfits
      rw [Obstacle.text, Phrase.text, List.cons_append, Token.scan_minus]
      refine result_minus_eq_error_iff.mpr (.inr ⟨_, .of (position + (inner.text.length + 1)) rest,
        hx.yields_of_isTerm hterm hfits hdepth hpeak ?_, hheight, rfl⟩)
      omega
    | @call function argument hpeak hheight =>
      obtain ⟨hrun, hterm, hfits⟩ := hfits
      obtain ⟨first, more, hletters, hname⟩ := exists_word_of_isRun hrun
      rw [← Phrase.head?_text_append hfits rest, hletters] at hrun
      rw [Obstacle.text, Phrase.text, hletters, List.append_assoc, Token.scan_word hrun]
      refine (result_builtin_eq_error_iff hname).mpr (.inr ⟨_, .of (position +
        (Phrase.call function argument).text.length) rest,
        hx.yields_of_isTerm hterm hfits hdepth hpeak ?_, hheight, rfl⟩)
      rw [Phrase.text, hletters, List.length_append, Nat.add_assoc]
    | binary => exact absurd hrank (Nat.not_le.mpr (Operator.rank_lt_three _))

/-- The reader of a term fails where a part of it does. -/
theorem RefusesTerm.result_of_opens (h : RefusesTerm room) {f : Frame} {g : Goal}
    (hopens : Opens ⟨3, room + 1, true⟩ f g text.head?)
    (hblocked : Blocked g (position + f.text.length) text e) :
    (term (room + 1) (.of position (f.text ++ text))).result = .error e := by
  unfold Cursor.of
  cases hopens with
  | @slot _ _ _ letters _ _ hname =>
    obtain ⟨hrun, hname⟩ := hname
    obtain ⟨first, more, rfl⟩ := List.exists_cons_of_ne_nil hrun.1
    rw [Frame.text, Token.scan_word hrun]
    exact (result_variable_eq_error_iff hname).mpr ((h _ _ _).mpr hblocked)
  | @call _ _ _ function _ _ hrun =>
    obtain ⟨first, more, hletters, hname⟩ := exists_word_of_isRun hrun
    rw [Frame.text, hletters] at hblocked ⊢
    rw [hletters] at hrun
    rw [Token.scan_word hrun]
    exact (result_builtin_eq_error_iff hname).mpr (.inl ((h.required _ _ _).mpr hblocked))
  | plus =>
    rw [Frame.text, List.singleton_append, Token.scan_plus]
    exact result_plus_eq_error_iff.mpr ((h.required _ _ _).mpr hblocked)
  | minus =>
    rw [Frame.text, List.singleton_append, Token.scan_minus]
    exact result_minus_eq_error_iff.mpr (.inl ((h.required _ _ _).mpr hblocked))
  | group =>
    rw [Frame.text, List.singleton_append, Token.scan_opening]
    exact result_opening_eq_error_iff.mpr
      ((h.required.sum (exact_term room) _ _ _).mpr hblocked)
  | operand rank_le => exact absurd rank_le (Nat.not_le.mpr (Operator.rank_lt_three _))

/-- By induction on the room, terms fail on just the blocked texts. -/
theorem refusesTerm : ∀ room : Nat, RefusesTerm room
  | 0 => by
    intro position text e
    rw [blocked_term_zero_iff, result_term_zero, Except.error.injEq, eq_comm]
    rfl
  | room + 1 => by
    have h := refusesTerm room
    refine fun position text e => ⟨h.blocked_of_result, fun hblocked => ?_⟩
    obtain ⟨obstacle, rest, rfl, hat, rfl⟩ | ⟨f, g, after, rfl, hopens, hafter⟩ :=
      blocked_iff.mp hblocked
    · exact result_term_of_at hat
    · exact h.result_of_opens hopens hafter

/-! ## Whole texts -/

/-- Reading a whole text fails if the text is blocked, or if something follows a sum. -/
theorem result_formula_eq_error_iff {text : List Char} :
    (formula text).result = .error e ↔
      Blocked ⟨0, maxDepth, false⟩ 0 text e ∨
        ∃ (p : Phrase) (c : Char) (rest : List Char), text = p.text ++ c :: rest ∧
          p.Stands 0 maxDepth (some c) ∧ Stops 0 (some c) ∧ e = .trailingInput c p.text.length := by
  have hx : Exact 0 maxDepth (sum (required (term maxDepth))) := (exact_term maxDepth).sum
  have hr : Refuses 0 maxDepth (sum (required (term maxDepth))) :=
    (refusesTerm maxDepth).required.sum (exact_term maxDepth)
  rw [formula, result_bind_eq_error_iff, ← hr]
  refine or_congr_right ⟨?_, ?_⟩
  · rintro ⟨q, hq, hfails⟩
    obtain ⟨p, rest, rfl, hp, hstops, -, hnext⟩ := (hx _ _ _ _).mp ⟨q, hq, rfl, rfl⟩
    rw [hnext, Nat.zero_add] at hfails
    cases hscan : Token.scan rest with
    | nil =>
      simp only [Cursor.of, hscan] at hfails
      cases hfails
    | cons t tokens =>
      obtain ⟨rest, rfl, rfl, -⟩ := Token.exists_of_scan_eq_cons hscan
      simp only [Cursor.of, hscan] at hfails
      cases hfails
      exact ⟨p, t.first, t.more ++ rest, rfl, hp, hstops, rfl⟩
  · rintro ⟨p, c, rest, rfl, hp, hstops, rfl⟩
    have hy : (sum (required (term maxDepth)) (.of 0 (p.text ++ c :: rest))).Yields p.tree
        (.of p.text.length (c :: rest)) := hx.yields hp hstops (Nat.zero_add _).symm
    obtain ⟨q, hq, -, hnext⟩ := hy
    refine ⟨q, hq, ?_⟩
    rw [hnext]
    cases hscan : Token.scan (c :: rest) with
    | nil => cases Token.scan_eq_nil_iff.mp hscan
    | cons t tokens =>
      obtain ⟨after, htext, -, -⟩ := Token.exists_of_scan_eq_cons hscan
      obtain rfl : c = t.first := (List.cons_eq_cons.mp htext).1
      simp only [Cursor.of, hscan]
      rfl

end Reading

end Formula
