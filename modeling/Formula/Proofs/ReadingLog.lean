import Formula.Proofs.ReadingGrammar

/-!
# What a successful reading reports

The readers of the tiers and of terms report just the log of the phrase that they read
(`Phrase.log`), given that their operands do (`Reports`). Most readers pass on what the reader
inside them reports and add an event or two of their own, whatever comes of it. Only a chain
and a group have to know the phrase, since they go on where their parts end.

So the log of a typed text is the log of its phrase between the reports of its normal form
and of its tree (`Reading.events_typed`).
-/

namespace Formula

namespace Reading

/-! ## Events of the readers -/

section Events

variable {α β : Type} {room position : Nat} {rest : List Token}

/-- What reports nothing adds no events. -/
theorem events_bind_of_silent {r : Reading α} {f : α → Reading β} (h : ∀ a, (f a).events = []) :
    (r >>= f).events = r.events := by
  rw [events_bind]
  cases r.result with
  | ok a => simp [h]
  | error e => simp

/-- A node is reported nowhere, be it too high or not. -/
theorem events_bounded {height : Nat} {tree : Expr} {h : height = tree.height} :
    (bounded position tree height h).events = [] := by
  unfold bounded
  split <;> rfl

/-- To require a term reports nothing beyond the term. -/
@[simp] theorem events_required (optional : (c : Cursor) → Reading (Option (Parsed c)))
    (c : Cursor) : (required optional c).events = (optional c).events :=
  events_bind_of_silent fun
    | some _ => rfl
    | none => rfl

/-- A node above a term is reported nowhere. -/
theorem events_bounded_bind {height : Nat} {tree : Expr} {h : height = tree.height}
    {f : Bounded → Reading β} (hf : ∀ node, (f node).events = []) :
    (bounded position tree height h >>= f).events = [] := by
  rw [events_bind_of_silent hf, events_bounded]

/-- A sign is no event. -/
theorem events_plus :
    (term (room + 1) ⟨position, .operator .add :: rest⟩).events =
      (term room ⟨position + 1, rest⟩).events := by
  rw [term, events_bind_of_silent fun _ => rfl, events_required]

theorem events_minus :
    (term (room + 1) ⟨position, .operator .subtract :: rest⟩).events =
      (term room ⟨position + 1, rest⟩).events := by
  rw [term, events_bind_of_silent fun _ => events_bounded_bind fun _ => rfl, events_required]

/-- A literal is reported before it is known whether it is a number. -/
theorem events_number {first : Char} {more : List Char} :
    (term (room + 1) ⟨position, .number first more :: rest⟩).events =
      [.literal (String.ofList (first :: more)) position] := by
  rw [term, events_bind_of_silent, events_report]
  intro _
  split <;> rfl

/-- The name of a builtin is reported before its argument. -/
theorem events_builtin {first : Char} {more : List Char} {function : Builtin}
    (h : Builtin.ofName? (String.ofList (first :: more)) = some function) :
    (term (room + 1) ⟨position, .word first more :: rest⟩).events =
      .identifier (String.ofList (first :: more)) position ::
        (term room ⟨position + (first :: more).length, rest⟩).events := by
  simp only [term, h]
  rw [events_bind_of_eq_ok (result_report _),
    events_bind_of_silent fun _ => events_bounded_bind fun _ => rfl, events_required]
  rfl

/-- A variable is reported before the term that it drops, and the loss of the term behind it. -/
theorem events_variable_of_dropped {first : Char} {more : List Char}
    (h : Builtin.ofName? (String.ofList (first :: more)) = none)
    {dropped : Parsed ⟨position + (first :: more).length, rest⟩}
    (hdropped : (term room ⟨position + (first :: more).length, rest⟩).result =
      .ok (some dropped)) :
    (term (room + 1) ⟨position, .word first more :: rest⟩).events =
      .identifier (String.ofList (first :: more)) position ::
        ((term room ⟨position + (first :: more).length, rest⟩).events ++
          [.droppedTerm (String.ofList (first :: more)) position dropped.tree]) := by
  simp only [term, h]
  rw [events_bind_of_eq_ok (result_report _), events_bind_of_eq_ok hdropped]
  rfl

/-- Before an empty slot only the name is reported. -/
theorem events_variable_of_none {first : Char} {more : List Char}
    (h : Builtin.ofName? (String.ofList (first :: more)) = none)
    (hslot : (term room ⟨position + (first :: more).length, rest⟩).result = .ok none) :
    (term (room + 1) ⟨position, .word first more :: rest⟩).events =
      .identifier (String.ofList (first :: more)) position ::
        (term room ⟨position + (first :: more).length, rest⟩).events := by
  simp only [term, h]
  rw [events_bind_of_eq_ok (result_report _), events_bind_of_eq_ok hslot, events_pure,
    List.append_nil]
  rfl

theorem events_closeGroup_of_closing {start : Cursor} {inner : Parsed start}
    (h : inner.next.tokens = .closing :: rest) : (closeGroup inner).events = [] := by
  unfold closeGroup
  split
  · rfl
  next hne => exact absurd h (hne rest)

/-- A missing parenthesis is reported at the place where the sum in the group ends. -/
theorem events_closeGroup_of_ne {start : Cursor} {inner : Parsed start}
    (h : ∀ rest, inner.next.tokens ≠ .closing :: rest) :
    (closeGroup inner).events = [.unclosedGroup inner.next.position] := by
  unfold closeGroup
  split
  next rest hclosing => exact absurd hclosing (h rest)
  · rfl

/-- A group that is read reports its sum first, and then how it was closed. -/
theorem events_opening {inner : Parsed ⟨position + 1, rest⟩}
    (hinner : (sum (required (term room)) ⟨position + 1, rest⟩).result = .ok inner) :
    (term (room + 1) ⟨position, .opening :: rest⟩).events =
      (sum (required (term room)) ⟨position + 1, rest⟩).events ++ (closeGroup inner).events := by
  rw [term, events_bind_of_eq_ok hinner, events_bind_of_silent fun _ => rfl]

/-- Where there is no term nothing is reported. -/
theorem NoTerm.events_term : ∀ {tokens : List Token}, NoTerm tokens →
    (term (room + 1) ⟨position, tokens⟩).events = []
  | [], _ => rfl
  | .closing :: _, _ => rfl
  | .operator op :: _, h => by
    cases op with
    | add | subtract => exact absurd rfl h
    | multiply | divide | modulo | power | nthRoot => rfl

end Events

/-! ## Logs of phrases -/

variable {tier : Tier} {room position : Nat} {operand : (c : Cursor) → Reading (Parsed c)}

/-- A chain reports its phrase if its operands report theirs : to join two trees is no event. -/
theorem Reports.chain (hx : Exact (tier.rank + 1) room operand)
    (h : Reports (tier.rank + 1) room operand) :
    Reports tier.rank room (Reading.chain tier operand) := by
  intro position p rest hp hstops
  obtain ⟨left, events, -, hnext, hleads, hevents⟩ :=
    hx.exists_leads p hp (hstops.mono (Nat.le_succ _))
  have hends : extend tier operand left = pure left :=
    extend_eq_pure fun op tokens hc => tier_ne_of_stops hstops (by rwa [hnext] at hc)
  rw [hleads.events_eq, hends, events_pure, List.append_nil, hevents h]

theorem Reports.sum (hx : Exact 3 room operand) (h : Reports 3 room operand) :
    Reports 0 room (sum operand) :=
  (sum_of_chain (P := fun rank operand => Exact rank room operand ∧ Reports rank room operand)
    (fun _ _ h => ⟨Exact.chain h.1, Reports.chain h.1 h.2⟩) ⟨hx, h⟩).2

/-- A phrase that is a term is logged, one level above its parts. -/
theorem Reports.events_of_isTerm (h : Reports 3 room (required (term room))) {p : Phrase}
    {rest : List Char} (hterm : p.IsTerm) (hfits : p.Fits rest.head?)
    (hdepth : p.depth + 1 ≤ room + 1) (hpeak : p.peak ≤ maxDepth) :
    (term room (.of position (p.text ++ rest))).events = p.log position := by
  rw [← events_required]
  exact h ⟨Nat.le_of_eq hterm.symm, hfits, Nat.le_of_succ_le_succ hdepth, hpeak⟩ (stops_three _)

/-- Up to its end a group reports the log of the sum in it, one character on. -/
theorem Reports.events_group (h : Reports 3 room (required (term room))) {inner : Phrase}
    {rest : List Char} (hinner : inner.Stands 0 room rest.head?) (hstops : Stops 0 rest.head?) :
    ∃ p : Parsed (.of (position + 1) (inner.text ++ rest)),
      p.next = .of (position + 1 + inner.text.length) rest ∧
        (term (room + 1) ⟨position, .opening :: Token.scan (inner.text ++ rest)⟩).events =
          inner.log (position + 1) ++ (closeGroup p).events := by
  obtain ⟨p, hp, -, hnext⟩ := (exact_term room).sum.yields hinner hstops rfl
  refine ⟨p, hnext, (events_opening hp).trans ?_⟩
  exact congrArg (· ++ _) (h.sum (exact_term room) hinner hstops)

/-- A term reports its phrase if the terms one level below report theirs. -/
theorem Reports.events_of_stands (h : Reports 3 room (required (term room))) {p : Phrase}
    {rest : List Char} (hp : p.Stands 3 (room + 1) rest.head?) :
    (term (room + 1) (.of position (p.text ++ rest))).events = p.log position := by
  have hterm := isTerm_of_stands hp
  obtain ⟨-, hfits, hdepth, hpeak⟩ := hp
  have hx := exact_term room
  unfold Cursor.of
  cases p with
  | number literal value =>
    obtain ⟨first, more, rfl⟩ := List.exists_cons_of_ne_nil hfits.1.1
    rw [Phrase.text, Token.scan_number hfits.1, events_number, Phrase.log]
  | name letters =>
    obtain ⟨⟨hrun, hname⟩, hempty⟩ := hfits
    obtain ⟨first, more, rfl⟩ := List.exists_cons_of_ne_nil hrun.1
    obtain ⟨room, rfl⟩ : ∃ n, room = n + 1 :=
      Nat.exists_eq_add_of_le' (Nat.le_of_succ_le_succ hdepth)
    have hslot : NoTerm (Token.scan rest) := noTerm_scan_iff.mpr hempty
    rw [Phrase.text, Token.scan_word hrun, events_variable_of_none hname hslot.result_term,
      hslot.events_term, Phrase.log]
  | nameBefore letters dropped =>
    obtain ⟨⟨hrun, hname⟩, hdropped, hfits⟩ := hfits
    obtain ⟨first, more, rfl⟩ := List.exists_cons_of_ne_nil hrun.1
    obtain ⟨q, hq, htree, -⟩ := yields_required_iff.mp
      (hx.yields_of_isTerm hdropped hfits hdepth hpeak rfl)
    rw [← Phrase.head?_text_append hfits rest] at hrun
    have hevents : (term room ⟨position + (first :: more).length,
        Token.scan (dropped.text ++ rest)⟩).events = dropped.log _ :=
      h.events_of_isTerm hdropped hfits hdepth hpeak
    rw [Phrase.text, List.append_assoc, Token.scan_word hrun, events_variable_of_dropped hname hq,
      hevents, htree, Phrase.log]
  | call function argument =>
    obtain ⟨hrun, hargument, hfits⟩ := hfits
    obtain ⟨first, more, hletters, hname⟩ := exists_word_of_isRun hrun
    rw [← Phrase.head?_text_append hfits rest, hletters] at hrun
    rw [Phrase.text, Phrase.log, hletters, List.append_assoc, Token.scan_word hrun,
      events_builtin hname, Builtin.ofName?_eq_some_iff.mp hname]
    exact congrArg _ (h.events_of_isTerm hargument hfits hdepth (Nat.max_le.mp hpeak).1)
  | plus inner =>
    rw [Phrase.text, List.cons_append, Token.scan_plus, events_plus]
    exact h.events_of_isTerm hfits.1 hfits.2 hdepth hpeak
  | minus inner =>
    rw [Phrase.text, List.cons_append, Token.scan_minus, events_minus]
    exact h.events_of_isTerm hfits.1 hfits.2 hdepth (Nat.max_le.mp hpeak).1
  | group inner closed =>
    have hroom : inner.depth ≤ room := Nat.le_of_succ_le_succ hdepth
    cases closed with
    | true =>
      have hinner : inner.Stands 0 room (')' :: rest).head? :=
        ⟨Nat.zero_le _, hfits, hroom, hpeak⟩
      obtain ⟨q, hnext, hevents⟩ := h.events_group hinner (stops_closing 0)
      rw [Phrase.text, List.cons_append, List.append_assoc, Token.scan_opening, Phrase.log]
      refine hevents.trans ?_
      rw [events_closeGroup_of_closing (by rw [hnext]; exact Token.scan_closing rest),
        List.append_nil]
    | false =>
      obtain ⟨hclosing, hstops, hfits⟩ := hfits
      obtain ⟨q, hnext, hevents⟩ := h.events_group ⟨Nat.zero_le _, hfits, hroom, hpeak⟩ hstops
      rw [Phrase.text, List.cons_append, Token.scan_opening, Phrase.log]
      refine hevents.trans ?_
      rw [events_closeGroup_of_ne (by rw [hnext]; exact scan_ne_closing hclosing), hnext]
      rfl
  | binary op left right => exact absurd hterm (Nat.ne_of_lt (Operator.rank_lt_three _))

/-- By induction on the room, every term reports its phrase. -/
theorem reports_term : ∀ room : Nat, Reports 3 room (required (term room))
  | 0 => fun _ p _ hp _ => absurd hp.depth_le (Nat.not_le.mpr p.depth_pos)
  | room + 1 => fun _ _ _ hp _ => by
    rw [events_required, (reports_term room).events_of_stands hp]

/-! ## Whole texts -/

/-- Behind its sum a whole text reports nothing. -/
theorem events_formula (text : List Char) :
    (formula text).events = (sum (required (term maxDepth)) (.of 0 text)).events := by
  refine events_bind_of_silent fun p => ?_
  split <;> rfl

/-- What reading a typed text reports : its normal form, the log of its phrase and its tree. -/
theorem events_typed {raw : String} {p : Phrase} (htext : p.text = (normalize raw).toList)
    (hp : p.Stands 0 maxDepth none) :
    (typed raw).events = .normalized raw (normalize raw) :: .parsing (normalize raw) ::
      (p.log 0 ++ [.parsed p.tree]) := by
  have hformula : (formula (normalize raw).toList).events = p.log 0 := by
    rw [events_formula, ← htext, ← List.append_nil p.text]
    exact (reports_term maxDepth).sum (exact_term maxDepth) hp (stops_none 0)
  have hresult : (formula (normalize raw).toList).result = .ok p.tree :=
    result_formula_eq_ok_iff.mpr ⟨p, htext, rfl, hp.fits, hp.depth_le, hp.peak_le⟩
  have hnormal : result (liftM (Logged.normalize raw)) = .ok (normalize raw) := rfl
  rw [typed, events_bind_of_eq_ok hnormal, events_bind_of_eq_ok (result_report _),
    events_bind_of_eq_ok hresult, hformula]
  rfl

end Reading

end Formula
