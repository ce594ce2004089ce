import Formula.Proofs.HeadContract

/-!
# The routines keep the contract

One lemma for each routine, and one for each way in which a term can begin, shows that the code
meets the contract of the reader. What a called routine does is taken from the contract, and what
the reader of tokens does at the same place from the lemma about that construct : `Extends` and
`Sticks` for the rounds of a chain, the `yields` and `error` lemmas for terms.
-/

namespace Formula

open Reading Routine

variable {text : List Char} {h h' entry : Head} {reply : Reply} {r routine : Routine}

/-- A tree that is asked for is gone on with. An error is handed on, and there is nothing else. -/
theorem meets_ask {next : Head → Expr → Code} (hb : entry.Balanced text h)
    (hstarts : routine.Starts text h) (hdescends : r.Descends text entry routine h)
    (hnone : ∀ h', ¬routine.Reads text h h' (.ok none))
    (herror : ∀ h' e, routine.Reads text h h' (.error e) → r.Reads text entry h' (.error e))
    (htree : ∀ h' e, entry.Balanced text h' → routine.Ends text h h' (.ok (some e)) →
      routine.Reads text h h' (.ok (some e)) →
        (next h' e).Meets text (.reader text) r entry h') :
    (Code.ask routine next).Meets text (.reader text) r entry h := by
  refine ⟨hstarts, hdescends, ?_⟩
  rintro h' reply ⟨hends, hreads⟩
  have hb' := hb.trans hends.balanced
  match reply with
  | .ok (some e) => exact htree h' e hb' hends hreads
  | .ok none => exact absurd hreads (hnone h')
  | .error e => exact ⟨.of_error hb', herror h' e hreads⟩

/-- A chain reads its first operand and hands over to the rounds behind it. -/
theorem meets_chain (tier : Tier) (hstarts : (Routine.chain tier).Starts text h) :
    ((Routine.chain tier).code text h).Meets text (.reader text) (.chain tier) h h := by
  refine meets_ask (.refl hstarts.le_length)
    (starts_operand tier hstarts.le_length hstarts.depth_le)
    (.inr ⟨rfl, rank_operand_lt tier⟩) (fun h' hreads => (reads_operand_iff.mp hreads).ne_none rfl)
    (fun h' e hreads => result_chain_eq_error_iff.mpr (.inl (reads_operand_iff.mp hreads))) ?_
  intro h₁ left hb hends hreads
  obtain ⟨hlt, hbehind⟩ := hends.of_operand
  rw [reads_operand_iff] at hreads
  refine ⟨starts_rest hb hstarts.depth_le hbehind, descends_of_lt hlt hb.le_length, ?_⟩
  rintro h₂ reply ⟨hends', hreads'⟩
  exact ⟨hends'.hand_on hb hreads'.ne_none hlt (Nat.le_refl _),
    hreads'.readsAs_chain hb.room_eq hreads⟩

/-- A round of a chain takes an operator of the tier and an operand, or ends the chain. -/
theorem meets_rest (tier : Tier) (left : Expr) (hstarts : (Routine.rest tier left).Starts text h) :
    ((Routine.rest tier left).code text h).Meets text (.reader text) (.rest tier left) h h := by
  have hbehind := hstarts.behind tier left rfl
  rw [Routine.code]
  split
  next op hop =>
    obtain ⟨hcurrent, htier⟩ := Head.operator?_eq_some_iff.mp hop
    have hlt := Head.lt_length_of_current hcurrent
    have htokens := tokens_of_symbol hcurrent
    have hoperand : tier.operand.Starts text ⟨h.position + 1, h.depth⟩ :=
      starts_operand tier hlt hstarts.depth_le
    refine Code.meets_advance hlt (meets_ask (Head.balanced_advance hlt) hoperand
      (descends_of_lt (Nat.lt_succ_self _) hlt)
      (fun h' hreads => (reads_operand_iff.mp hreads).ne_none rfl)
      (fun h' e hreads => .operand htokens htier (reads_operand_iff.mp hreads)) ?_)
    intro h₁ right hb hends hreads
    obtain ⟨hlt₁, hbehind₁⟩ := hends.of_operand
    rw [reads_operand_iff] at hreads
    refine Code.meets_bounded (fun hheight => ⟨starts_rest hb hstarts.depth_le hbehind₁,
      descends_of_lt (Nat.lt_of_succ_lt hlt₁) hb.le_length, ?_⟩)
      fun hheight => ⟨.of_error hb, .high htokens htier hreads hheight⟩
    rintro h₂ reply ⟨hends', hreads'⟩
    exact ⟨hends'.hand_on hb hreads'.ne_none hb.position_le (Nat.le_refl _),
      hreads'.step hb.room_eq hcurrent htier hreads hheight⟩
  next hop =>
    have hstops := stops_of_operator?_eq_none hop hbehind
    refine ⟨.of_tree (.refl hstarts.le_length) (Nat.le_refl _) hstops, .stop fun op rest hc => ?_⟩
    rw [← Head.head?_rest] at hstops
    exact tier_ne_of_stops hstops hc

/-- A term that is required is an optional one that is there. -/
theorem meets_term (hstarts : Routine.term.Starts text h) :
    (Routine.term.code text h).Meets text (.reader text) .term h h := by
  refine ⟨⟨hstarts.le_length, hstarts.depth_le, nofun, nofun⟩, .inr ⟨rfl, by decide⟩, ?_⟩
  rintro h₁ reply ⟨hends, hreads⟩
  match reply with
  | .ok (some e) =>
    exact ⟨.of_tree hends.balanced (hends.takes e rfl) (stops_three _), hreads⟩
  | .ok none =>
    obtain ⟨-, rfl, -⟩ := hends.nothing rfl
    refine ⟨.of_error hends.balanced, result_required_eq_error_iff.mpr (.inr ⟨hreads, ?_⟩)⟩
    rw [Head.cursor, unexpected_of, Head.head?_rest]
  | .error e =>
    exact ⟨.of_error hends.balanced, result_required_eq_error_iff.mpr (.inl hreads)⟩

/-- What a scan one level deeper gives back, a term that may be missing gives back. -/
theorem ensures_optional {h₁ : Head} (hlt : h.depth < maxDepth)
    (hends : Routine.scan.Ends text (h.after text .enter) h₁ reply)
    (hreads : Routine.scan.Reads text (h.after text .enter) h₁ reply) :
    Routine.optional.Ends text h ⟨h₁.position, h.depth⟩ reply ∧
      Routine.optional.Reads text h ⟨h₁.position, h.depth⟩ reply := by
  obtain ⟨⟨-, hposition, hlength⟩, htakes, -, hnothing⟩ := hends
  have hroom : (h.after text .enter).room + 1 = h.room := by
    simp only [Head.after, Head.room]
    omega
  refine ⟨⟨⟨rfl, hposition, hlength⟩, htakes, fun _ _ => stops_three _, fun hnone => ?_⟩, ?_⟩
  · obtain ⟨-, rfl, hslot⟩ := hnothing hnone
    exact ⟨.inl rfl, rfl, hslot⟩
  · change ReadsTerm text (Head.room _ + 1) _ _ reply at hreads
    rw [hroom] at hreads
    exact hreads

/-- The level of a term is entered before the scan and left behind it, whatever the scan gives
back. -/
theorem meets_optional (hstarts : Routine.optional.Starts text h) :
    (Routine.optional.code text h).Meets text (.reader text) .optional h h := by
  rw [Routine.code]
  split
  next hlt =>
    refine ⟨hlt, ⟨hstarts.le_length, hlt, nofun, nofun⟩, .inr ⟨rfl, by decide⟩, ?_⟩
    rintro h₁ reply ⟨hends, hreads⟩
    have hdepth : h₁.depth = h.depth + 1 := hends.balanced.depth_eq
    have hback : h₁.after text .leave = ⟨h₁.position, h.depth⟩ := by
      rw [Head.after, hdepth]
      rfl
    refine ⟨show 0 < h₁.depth by omega, ?_⟩
    rw [hback]
    exact ensures_optional hlt hends hreads
  next hge =>
    have hroom : h.room = 0 := by
      unfold Head.room
      omega
    refine ⟨.of_error (.refl hstarts.le_length), ?_⟩
    change (Reading.term h.room (h.cursor text)).result = .error (.tooDeep h.position)
    rw [hroom]
    exact result_term_zero

/-! ### Scanning a term -/

section Scan

variable {c : Char}

theorem reads_tree {cursor : Cursor} {e : Expr} (hcursor : h.cursor text = cursor)
    (hy : (required (Reading.term (h.room + 1)) cursor).Yields e (h'.cursor text)) :
    Routine.scan.Reads text h h' (.ok (some e)) := by
  subst hcursor
  exact hy

theorem reads_error {cursor : Cursor} {e : ParseError} (hcursor : h.cursor text = cursor)
    (hfails : (Reading.term (h.room + 1) cursor).result = .error e) :
    Routine.scan.Reads text h h' (.error e) := by
  subst hcursor
  exact hfails

theorem starts_term (hle : h.position ≤ text.length) (hdepth : h.depth ≤ maxDepth) :
    Routine.term.Starts text h :=
  ⟨hle, hdepth, nofun, nofun⟩

/-- A node on top of a tree that was read ends a term, or is too high. -/
theorem meets_node {e : Expr} (hb : entry.Balanced text h) (htakes : entry.position < h.position)
    (hread : e.height ≤ maxDepth → Routine.scan.Reads text entry h (.ok (some e)))
    (hhigh : maxDepth < e.height →
      Routine.scan.Reads text entry h (.error (.tooDeep h.position))) :
    (Code.bounded h e .tree).Meets text (.reader text) .scan entry h :=
  Code.meets_bounded (fun hheight => ⟨.of_tree hb htakes (stops_three _), hread hheight⟩)
    fun hheight => ⟨.of_error hb, hhigh hheight⟩

/-- Behind a plus sign the scan gives back the term as it is. -/
theorem meets_plus (hstarts : Routine.scan.Starts text h) (hcurrent : h.current text = some '+') :
    plus.Meets text (.reader text) .scan h h := by
  have hlt := Head.lt_length_of_current hcurrent
  have hcursor := Head.cursor_eq_cons hcurrent Token.scan_plus
  refine Code.meets_advance hlt
    ⟨starts_term hlt hstarts.depth_le, descends_of_lt (Nat.lt_succ_self _) hlt, ?_⟩
  rintro h₁ reply ⟨hends, hreads⟩
  refine ⟨hends.hand_on (Head.balanced_advance hlt) (ReadsAs.ne_none hreads) (Nat.le_succ _)
    (Nat.le_refl _), ?_⟩
  match reply with
  | .ok (some e) => exact reads_tree hcursor (yields_plus_iff.mpr hreads)
  | .ok none => exact hreads.elim
  | .error e => exact reads_error hcursor (result_plus_eq_error_iff.mpr hreads)

/-- Behind a minus sign it gives back the negation of the term. -/
theorem meets_minus (hstarts : Routine.scan.Starts text h) (hcurrent : h.current text = some '-') :
    minus.Meets text (.reader text) .scan h h := by
  have hlt := Head.lt_length_of_current hcurrent
  have hcursor := Head.cursor_eq_cons hcurrent Token.scan_minus
  refine Code.meets_advance hlt (meets_ask (Head.balanced_advance hlt)
    (starts_term hlt hstarts.depth_le) (descends_of_lt (Nat.lt_succ_self _) hlt)
    (fun _ => id)
    (fun h₁ e hreads => reads_error hcursor (result_minus_eq_error_iff.mpr (.inl hreads))) ?_)
  intro h₁ inner hb hends hreads
  refine meets_node hb (Nat.le_trans (Nat.le_succ _) (hends.takes inner rfl)) ?_ ?_
  · intro hheight
    exact reads_tree hcursor (yields_minus_iff.mpr ⟨inner, hreads, rfl, hheight⟩)
  · intro hheight
    exact reads_error hcursor
      (result_minus_eq_error_iff.mpr (.inr ⟨inner, _, hreads, hheight, rfl⟩))

/-- A group is the sum behind its parenthesis, and the other parenthesis is taken if it is there.
-/
theorem meets_group (hstarts : Routine.scan.Starts text h) (hcurrent : h.current text = some '(') :
    (group text).Meets text (.reader text) .scan h h := by
  have hlt := Head.lt_length_of_current hcurrent
  have hcursor := Head.cursor_eq_cons hcurrent Token.scan_opening
  refine Code.meets_advance hlt (meets_ask (Head.balanced_advance hlt)
    ⟨hlt, hstarts.depth_le, nofun, nofun⟩ (descends_of_lt (Nat.lt_succ_self _) hlt)
    (fun _ => id)
    (fun h₁ e hreads => reads_error hcursor (result_opening_eq_error_iff.mpr hreads)) ?_)
  intro h₁ inner hb hends hreads
  have htakes : h.position + 1 ≤ h₁.position :=
    Nat.le_trans (Nat.le_succ _) (hends.takes inner rfl)
  have hgroup {h₂ : Head} (hnext : h₂.cursor text = afterClosing (h₁.cursor text)) :
      Routine.scan.Reads text h h₂ (.ok (some inner)) :=
    reads_tree hcursor (yields_opening_iff.mpr ⟨_, hreads, hnext⟩)
  split
  next hclosing =>
    have hlt₁ := Head.lt_length_of_current hclosing
    have hafter : afterClosing (h₁.cursor text) =
        Head.cursor text ⟨h₁.position + 1, h₁.depth⟩ := by
      rw [Head.cursor, Head.rest_eq_cons hclosing h₁.depth]
      exact afterClosing_closing _ _
    exact Code.meets_advance hlt₁ ⟨.of_tree (hb.trans (Head.balanced_advance hlt₁))
      (Nat.le_succ_of_le htakes) (stops_three _), hgroup hafter.symm⟩
  next hne =>
    rw [← Head.head?_rest] at hne
    exact ⟨.of_tree hb htakes (stops_three _), hgroup (afterClosing_of_head?_ne hne).symm⟩

/-- A run of digits and points is taken as a whole, be it a number or not. -/
theorem meets_number (hstarts : Routine.scan.Starts text h) (hcurrent : h.current text = some c)
    (hc : isNumeral c = true) :
    (Routine.number text h).Meets text (.reader text) .scan h h := by
  obtain ⟨first, more, hrun, hcursor⟩ := Head.cursor_eq_run hcurrent hc Token.scan_number
  have hle := Head.add_length_run_le isNumeral hstarts.le_length
  have hb := Head.balanced_skip hle
  refine Code.meets_skip hle ?_
  rw [hrun] at hb ⊢
  split
  next value hvalue =>
    exact ⟨.of_tree hb (Nat.add_le_add_left (Nat.succ_pos _) _) (stops_three _),
      reads_tree hcursor (yields_number_iff.mpr ⟨value, hvalue, rfl, rfl⟩)⟩
  next hvalue =>
    exact ⟨.of_error hb, reads_error hcursor (result_number_eq_error_iff.mpr ⟨hvalue, rfl⟩)⟩

section Word

variable {first : Char} {more : List Char}
  (hcursor : h.cursor text = ⟨h.position, .word first more ::
    (Head.cursor text ⟨h.position + (first :: more).length, h.depth⟩).tokens⟩)
  (hle : h.position + (first :: more).length ≤ text.length) (hdepth : h.depth ≤ maxDepth)

include hcursor hle hdepth

/-- Behind the name of a builtin its argument is read. -/
theorem meets_call {function : Builtin}
    (hname : Builtin.ofName? (String.ofList (first :: more)) = some function) :
    (Code.ask .term fun h argument => .bounded h (.call function argument) .tree).Meets text
      (.reader text) .scan h ⟨h.position + (first :: more).length, h.depth⟩ := by
  have hlt : h.position < h.position + (first :: more).length :=
    Nat.lt_add_of_pos_right (Nat.succ_pos _)
  refine meets_ask (Head.balanced_skip hle) (starts_term hle hdepth) (descends_of_lt hlt hle)
    (fun _ => id) (fun h₁ e hreads =>
      reads_error hcursor ((result_builtin_eq_error_iff hname).mpr (.inl hreads))) ?_
  intro h₁ argument hb hends hreads
  refine meets_node hb (Nat.lt_of_lt_of_le hlt hends.balanced.position_le) ?_ ?_
  · intro hheight
    exact reads_tree hcursor ((yields_builtin_iff hname).mpr ⟨argument, hreads, rfl, hheight⟩)
  · intro hheight
    exact reads_error hcursor
      ((result_builtin_eq_error_iff hname).mpr (.inr ⟨argument, _, hreads, hheight, rfl⟩))

/-- Behind the name of a variable a term is read and dropped, if there is one. -/
theorem meets_variable (hname : Builtin.ofName? (String.ofList (first :: more)) = none) :
    (Code.call .optional fun _ reply =>
      .done (reply.map fun _ => some (.var (String.ofList (first :: more))))).Meets text
        (.reader text) .scan h ⟨h.position + (first :: more).length, h.depth⟩ := by
  have hlt : h.position < h.position + (first :: more).length :=
    Nat.lt_add_of_pos_right (Nat.succ_pos _)
  refine ⟨⟨hle, hdepth, nofun, nofun⟩, descends_of_lt hlt hle, ?_⟩
  rintro h₁ reply ⟨hends, hreads⟩
  have hb := (Head.balanced_skip hle).trans hends.balanced
  have hlt₁ : h.position < h₁.position := Nat.lt_of_lt_of_le hlt hends.balanced.position_le
  match reply with
  | .ok (some dropped) =>
    exact ⟨.of_tree hb hlt₁ (stops_three _),
      reads_tree hcursor ((yields_variable_iff hname).mpr ⟨rfl, .inl ⟨dropped, hreads⟩⟩)⟩
  | .ok none =>
    -- the slot is empty, and the head stands right behind the name
    obtain ⟨-, rfl, -⟩ := hends.nothing rfl
    exact ⟨.of_tree hb hlt₁ (stops_three _),
      reads_tree hcursor ((yields_variable_iff hname).mpr ⟨rfl, .inr ⟨hreads, rfl⟩⟩)⟩
  | .error e =>
    exact ⟨.of_error hb, reads_error hcursor ((result_variable_eq_error_iff hname).mpr hreads)⟩

end Word

/-- A run of letters is taken as a whole, and goes on by what it names. -/
theorem meets_identifier (hstarts : Routine.scan.Starts text h)
    (hcurrent : h.current text = some c) (hc : isAlphabetic c = true) :
    (Routine.identifier text h).Meets text (.reader text) .scan h h := by
  obtain ⟨first, more, hrun, hcursor⟩ := Head.cursor_eq_run hcurrent hc Token.scan_word
  have hle := Head.add_length_run_le isAlphabetic hstarts.le_length
  refine Code.meets_skip hle ?_
  rw [hrun] at hle ⊢
  split
  next function hname => exact meets_call hcursor hle hstarts.depth_le hname
  next hname => exact meets_variable hcursor hle hstarts.depth_le hname

/-- A closing parenthesis and an operator that is no sign leave a slot empty. -/
theorem emptySlot_of_mark (hplus : c ≠ '+') (hminus : c ≠ '-')
    (hc : c = ')' ∨ (Operator.ofSymbol? c).isSome) : EmptySlot (some c) := by
  obtain rfl | hop := hc
  · exact .inr (.inl rfl)
  · obtain ⟨op, hop⟩ := Option.isSome_iff_exists.mp hop
    obtain rfl := Operator.ofSymbol?_eq_some_iff.mp hop
    refine emptySlot_iff.mpr (.inr (.inr ⟨op, rfl, ?_⟩))
    cases op with
    | add => exact absurd rfl hplus
    | subtract => exact absurd rfl hminus
    | multiply | divide | modulo | power | nthRoot => decide

/-- In front of what leaves a slot empty a scan gives back nothing. -/
theorem meets_nothing (hstarts : Routine.scan.Starts text h)
    (hslot : EmptySlot (h.current text)) :
    (Code.done (.ok none)).Meets text (.reader text) .scan h h := by
  refine ⟨⟨.refl hstarts.le_length, nofun, nofun, fun _ => ⟨.inr rfl, rfl, hslot⟩⟩, ?_⟩
  rw [← Head.head?_rest] at hslot
  exact result_slot_eq_none_iff.mpr ⟨Nat.succ_pos _, hslot⟩

/-- The character under the head decides which of these it is. -/
theorem meets_scan (hstarts : Routine.scan.Starts text h) :
    (Routine.scan.code text h).Meets text (.reader text) .scan h h := by
  rw [Routine.code]
  split
  next hcurrent => exact meets_nothing hstarts (.inl hcurrent)
  next c hcurrent =>
    split_ifs with hplus hminus hopening hnumeral hletter hempty
    · exact meets_plus hstarts (hplus ▸ hcurrent)
    · exact meets_minus hstarts (hminus ▸ hcurrent)
    · exact meets_group hstarts (hopening ▸ hcurrent)
    · exact meets_number hstarts hcurrent hnumeral
    · exact meets_identifier hstarts hcurrent hletter
    · refine meets_nothing hstarts ?_
      rw [hcurrent]
      exact emptySlot_of_mark hplus hminus hempty
    · obtain ⟨hclosing, hop⟩ := not_or.mp hempty
      have hlex : (Token.stray c).Lexes none :=
        ⟨by simpa using hnumeral, by simpa using hletter,
          fun op hsymbol => hop (by simp [hsymbol]), hopening, hclosing⟩
      exact ⟨.of_error (.refl hstarts.le_length), reads_error
        (Head.cursor_eq_cons hcurrent (Token.scan_stray hlex)) (result_stray_eq_error_iff.mpr rfl)⟩

end Scan

/-- What a whole text is read as, from what its first sum is read as. -/
theorem result_formula_of_yields {tree : Expr} {position : Nat} {rest : List Char}
    (hy : (sum (required (Reading.term maxDepth)) (.of 0 text)).Yields tree (.of position rest)) :
    (Reading.formula text).result =
      match rest.head? with
      | some found => .error (.trailingInput found position)
      | none => .ok tree := by
  obtain ⟨p, hp, rfl, hnext⟩ := hy
  rw [Reading.formula]
  refine (result_bind_of_eq_ok hp).trans ?_
  rw [hnext]
  cases rest with
  | nil => rfl
  | cons c rest =>
    obtain ⟨t, tokens, hscan⟩ := List.exists_cons_of_ne_nil
      fun hnil => List.cons_ne_nil c rest (Token.scan_eq_nil_iff.mp hnil)
    obtain ⟨after, htext, -, -⟩ := Token.exists_of_scan_eq_cons hscan
    obtain rfl : c = t.first := (List.cons_eq_cons.mp htext).1
    simp only [Cursor.of, hscan]
    rfl

theorem reads_formula {result : Except ParseError Expr}
    (hresult : (Reading.formula text).result = result) :
    Routine.formula.Reads text h h' (result.map some) :=
  congrArg (Except.map some) hresult.symm

/-- A whole text is a sum, with nothing behind it. -/
theorem meets_formula (hstarts : Routine.formula.Starts text h) :
    (Routine.formula.code text h).Meets text (.reader text) .formula h h := by
  obtain rfl := hstarts.at_front rfl
  refine meets_ask (.refl hstarts.le_length) ⟨hstarts.le_length, hstarts.depth_le, nofun, nofun⟩
    (.inr ⟨rfl, by decide⟩) (fun _ => id)
    (fun h₁ e hreads => reads_formula (result_bind_eq_error_iff.mpr (.inl hreads))) ?_
  intro h₁ tree hb hends hreads
  have hresult : (Reading.formula text).result = _ := result_formula_of_yields hreads
  rw [Head.head?_rest] at hresult
  split
  next found hfound =>
    rw [hfound] at hresult
    exact ⟨.of_error hb, reads_formula hresult⟩
  next hnone =>
    rw [hnone] at hresult
    exact ⟨.of_tree hb (hends.takes tree rfl) (hends.stops tree rfl), reads_formula hresult⟩

/-- The code of the routines meets the contract. -/
theorem Contract.reader_holds (text : List Char) : (Contract.reader text).Holds text := by
  intro r h hstarts
  cases r with
  | formula => exact meets_formula hstarts
  | chain tier => exact meets_chain tier hstarts
  | rest tier left => exact meets_rest tier left hstarts
  | term => exact meets_term hstarts
  | optional => exact meets_optional hstarts
  | scan => exact meets_scan hstarts

end Formula
