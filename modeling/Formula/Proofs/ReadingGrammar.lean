import Formula.Proofs.Phrase
import Formula.Proofs.Yields

/-!
# The reader reads the grammar

A reader is `Exact` for a tier if it yields what the phrases of the tier at the front of
the text stand for, and nothing else. `Exact.chain` passes from the operands of a tier to
its chains, and `exact_term`, by induction on the room for terms, from terms of a level
to those of the level above. Both directions follow the step lemmas of `Yields` : a
reading builds its phrase from the front, and a phrase directs the reading (`Exact.exists_leads`
for the chains).

`parse_eq_ok_iff_derives` is the result for whole texts.
-/

namespace Formula

/-- The place in front of `text`, with `position` characters before it. -/
def Cursor.of (position : Nat) (text : List Char) : Cursor :=
  ⟨position, Token.scan text⟩

@[simp] theorem Cursor.position_of (position : Nat) (text : List Char) :
    (Cursor.of position text).position = position :=
  rfl

/-- The phrase is of the grammar where `next` follows it, of a tier from `rank` on, and
within the limits if there is room for `room` levels of terms. -/
structure Phrase.Stands (p : Phrase) (rank room : Nat) (next : Option Char) : Prop where
  rank_le : rank ≤ p.rank
  fits : p.Fits next
  depth_le : p.depth ≤ room
  peak_le : p.peak ≤ maxDepth

/-- A chain, an operator of its tier and an operand are a chain. -/
theorem Phrase.Stands.binary {op : Operator} {left right : Phrase} {rank room : Nat}
    {next : Option Char} (hrank : op.rank = rank) (hleft : left.Stands rank room (some op.symbol))
    (hright : right.Stands (rank + 1) room next) (hstops : Stops (rank + 1) next)
    (hheight : (Expr.binary op left.tree right.tree).height ≤ maxDepth) :
    (Phrase.binary op left right).Stands rank room next where
  rank_le := Nat.le_of_eq hrank.symm
  fits := by
    rw [← hrank] at hleft hright hstops
    exact ⟨hleft.rank_le, hleft.fits, hright.rank_le, hright.fits, hstops⟩
  depth_le := Nat.max_le.mpr ⟨hleft.depth_le, hright.depth_le⟩
  peak_le := Nat.max_le.mpr ⟨Nat.max_le.mpr ⟨hleft.peak_le, hright.peak_le⟩, hheight⟩

/-- The text begins with a phrase for the tree that stops where `next` goes on. -/
def Begins (rank room position : Nat) (text : List Char) (tree : Expr) (next : Cursor) : Prop :=
  ∃ (p : Phrase) (rest : List Char), text = p.text ++ rest ∧ p.Stands rank room rest.head? ∧
    Stops rank rest.head? ∧ p.tree = tree ∧ next = .of (position + p.text.length) rest

namespace Reading

/-- The reader yields just what the phrases at the front of the text stand for. -/
def Exact (rank room : Nat) (operand : (c : Cursor) → Reading (Parsed c)) : Prop :=
  ∀ position text tree next,
    (operand (.of position text)).Yields tree next ↔ Begins rank room position text tree next

/-- The reader reports the log of the phrase that it reads. -/
def Reports (rank room : Nat) (operand : (c : Cursor) → Reading (Parsed c)) : Prop :=
  ∀ ⦃position : Nat⦄ ⦃p : Phrase⦄ ⦃rest : List Char⦄, p.Stands rank room rest.head? →
    Stops rank rest.head? → (operand (.of position (p.text ++ rest))).events = p.log position

variable {tier : Tier} {room position : Nat} {operand : (c : Cursor) → Reading (Parsed c)}

/-- A phrase is yielded where it stands. -/
theorem Exact.yields {rank after : Nat} (h : Exact rank room operand) {p : Phrase}
    {rest : List Char} (hp : p.Stands rank room rest.head?) (hstops : Stops rank rest.head?)
    (hafter : after = position + p.text.length) :
    (operand (.of position (p.text ++ rest))).Yields p.tree (.of after rest) :=
  (h _ _ _ _).mpr ⟨p, rest, rfl, hp, hstops, rfl, by rw [hafter]⟩

/-! ## Chains -/

/-- No operator of the tier follows where chains of the tier stop. -/
theorem tier_ne_of_stops {rest : List Char} (h : Stops tier.rank rest.head?) {op : Operator}
    {tokens : List Token} (hscan : Token.scan rest = .operator op :: tokens) : op.tier ≠ tier := by
  obtain ⟨rest', rfl, -, -⟩ := Token.exists_of_scan_eq_cons hscan
  have hlt : op.rank < tier.rank := stops_symbol_iff.mp h
  exact fun htier => Nat.ne_of_lt hlt (Operator.rank_eq_iff.mpr htier)

/-- Chains of the tier stop where those of the next tier do and no operator of the tier
follows. -/
theorem stops_of_tier_ne {rest : List Char} (h : Stops (tier.rank + 1) rest.head?)
    (hne : ∀ op tokens, Token.scan rest = .operator op :: tokens → op.tier ≠ tier) :
    Stops tier.rank rest.head? := by
  refine stops_iff.mpr fun op hnext => ?_
  have hlt := stops_iff.mp h op hnext
  obtain ⟨after, rfl⟩ := List.head?_eq_some_iff.mp hnext
  have hne : op.rank ≠ tier.rank := fun hrank =>
    hne op _ (Token.scan_symbol op after) (Operator.rank_eq_iff.mp hrank)
  omega

/-- A chain that has come to the end of a phrase makes a phrase of what it goes on to. -/
theorem Exact.begins_of_extends (h : Exact (tier.rank + 1) room operand) {tree tree' : Expr}
    {c c' : Cursor} (hext : Extends tier operand tree c tree' c') :
    ∀ {p : Phrase} {rest : List Char}, p.Stands tier.rank room rest.head? →
      Stops (tier.rank + 1) rest.head? → p.tree = tree → c = .of (position + p.text.length) rest →
        Begins tier.rank room position (p.text ++ rest) tree' c' := by
  induction hext with
  | stop hne =>
    rintro p rest hp hstops rfl rfl
    exact ⟨p, rest, rfl, hp, stops_of_tier_ne hstops hne, rfl, rfl⟩
  | @step _ _ _ _ _ _ op _ hc hop hright hheight _ ih =>
    rintro p rest hp - rfl rfl
    obtain ⟨rest, rfl, rfl, -⟩ := Token.exists_of_scan_eq_cons hc
    obtain ⟨q, rest, rfl, hq, hstops, rfl, rfl⟩ := (h _ _ _ _).mp hright
    have hbinary : (Phrase.binary op p q).Stands tier.rank room rest.head? :=
      .binary (Operator.rank_eq_iff.mpr hop) hp hq hstops hheight
    have hbegins := ih hbinary hstops rfl (by
      simp [Cursor.of, Phrase.text]
      omega)
    simpa [Phrase.text, Token.chars, Token.first, Token.more] using hbegins

/-- A phrase directs the chain to its end. If the operands report the logs of their phrases,
the chain has reported the log of its phrase when it comes there. -/
theorem Exact.exists_leads (h : Exact (tier.rank + 1) room operand) (p : Phrase) :
    ∀ {rest : List Char}, p.Stands tier.rank room rest.head? →
      Stops (tier.rank + 1) rest.head? →
        ∃ (left : Parsed (.of position (p.text ++ rest))) (events : List Event),
          left.tree = p.tree ∧ left.next = .of (position + p.text.length) rest ∧
            Leads tier operand left events ∧
              (Reports (tier.rank + 1) room operand → events = p.log position) := by
  -- A phrase of a tighter tier is the first operand. A phrase of the tier itself has a chain
  -- of the tier in front of its operator, and the induction is on this left part.
  have htighter {p : Phrase} {rest : List Char} (hrank : tier.rank < p.rank)
      (hp : p.Stands tier.rank room rest.head?) (hstops : Stops (tier.rank + 1) rest.head?) :
      ∃ (left : Parsed (.of position (p.text ++ rest))) (events : List Event),
        left.tree = p.tree ∧ left.next = .of (position + p.text.length) rest ∧
          Leads tier operand left events ∧
            (Reports (tier.rank + 1) room operand → events = p.log position) := by
    have hstands : p.Stands (tier.rank + 1) room rest.head? :=
      ⟨hrank, hp.fits, hp.depth_le, hp.peak_le⟩
    obtain ⟨left, hleft, htree, hnext⟩ := h.yields hstands hstops rfl
    exact ⟨left, _, htree, hnext, .first hleft, fun hlogs => hlogs hstands hstops⟩
  induction p with
  | binary op l r ihl _ =>
    intro rest hp hstops
    rcases Nat.lt_or_eq_of_le hp.rank_le with hlt | heq
    · exact htighter hlt hp hstops
    obtain ⟨hrank, hfits, hrank', hfits', hstops'⟩ := hp.fits
    obtain ⟨hdepth, hdepth'⟩ := Nat.max_le.mp hp.depth_le
    obtain ⟨hpeak, hheight⟩ := Nat.max_le.mp hp.peak_le
    obtain ⟨hpeak, hpeak'⟩ := Nat.max_le.mp hpeak
    have heq : op.rank = tier.rank := heq.symm
    rw [heq] at hrank hrank' hstops'
    obtain ⟨left, events, htree, hnext, hleads, hlogs⟩ :=
      @ihl (op.symbol :: (r.text ++ rest)) ⟨hrank, hfits, hdepth, hpeak⟩
        (stops_symbol_iff.mpr (Nat.lt_succ_of_le (Nat.le_of_eq heq)))
    have hright : r.Stands (tier.rank + 1) room rest.head? := ⟨hrank', hfits', hdepth', hpeak'⟩
    have hc : left.next.tokens = .operator op :: Token.scan (r.text ++ rest) := by
      rw [hnext]
      exact Token.scan_symbol op _
    have hoperand : Cursor.mk (left.next.position + 1) (Token.scan (r.text ++ rest)) =
        .of (position + l.text.length + 1) (r.text ++ rest) := by
      rw [hnext]
      rfl
    have hyields : (operand ⟨left.next.position + 1, Token.scan (r.text ++ rest)⟩).Yields r.tree
        (.of (position + (Phrase.binary op l r).text.length) rest) := by
      rw [hoperand]
      exact h.yields hright hstops' (Phrase.add_length_text_binary ..)
    obtain ⟨right, hread, htree', hnext'⟩ := hyields
    obtain ⟨joined, hjoined, hafter, hleads⟩ := hleads.step hc (Operator.rank_eq_iff.mp heq) hread
      (by rwa [htree, htree'])
    rw [hoperand] at hleads
    rw [Phrase.text_binary_append]
    refine ⟨joined, _, by rw [hjoined, htree, htree']; rfl, hafter.trans hnext', hleads,
      fun hreports => ?_⟩
    rw [hlogs hreports, hreports hright hstops', Phrase.log]
  | _ => exact fun hp hstops => htighter tier.rank_lt_three hp hstops

/-- A phrase directs the chain to its end, from where the chain goes on. -/
theorem Exact.yields_chain_of_extends (h : Exact (tier.rank + 1) room operand) (p : Phrase)
    {rest : List Char} {tree : Expr} {next : Cursor} (hp : p.Stands tier.rank room rest.head?)
    (hstops : Stops (tier.rank + 1) rest.head?)
    (hext : Extends tier operand p.tree (.of (position + p.text.length) rest) tree next) :
    (chain tier operand (.of position (p.text ++ rest))).Yields tree next := by
  obtain ⟨left, _, htree, hnext, hleads, -⟩ := h.exists_leads p hp hstops
  rw [← htree, ← hnext] at hext
  obtain ⟨q, hq, ht, hn⟩ := yields_extend_iff.mpr hext
  exact ⟨q, hleads.result_eq.trans hq, ht, hn⟩

/-- A chain reads the phrases of its tier if its operands read those of the next one. -/
theorem Exact.chain (h : Exact (tier.rank + 1) room operand) :
    Exact tier.rank room (chain tier operand) := by
  intro position text tree next
  refine ⟨fun hy => ?_, ?_⟩
  · obtain ⟨_, _, hfirst, hext⟩ := yields_chain_iff.mp hy
    obtain ⟨p, rest, rfl, hp, hstops, rfl, rfl⟩ := (h _ _ _ _).mp hfirst
    exact h.begins_of_extends hext
      ⟨Nat.le_of_succ_le hp.rank_le, hp.fits, hp.depth_le, hp.peak_le⟩ hstops rfl rfl
  · rintro ⟨p, rest, rfl, hp, hstops, rfl, rfl⟩
    exact h.yields_chain_of_extends p hp (hstops.mono (Nat.le_succ _))
      (.stop fun _ _ => tier_ne_of_stops hstops)

/-- What passes from the operands of every tier to its chains passes from terms to sums. -/
theorem sum_of_chain {P : Nat → ((c : Cursor) → Reading (Parsed c)) → Prop}
    (hchain : ∀ (tier : Tier) (operand : (c : Cursor) → Reading (Parsed c)),
      P (tier.rank + 1) operand → P tier.rank (Reading.chain tier operand))
    (h : P 3 operand) : P 0 (sum operand) := by
  have hpower : P Tier.power.rank (Reading.chain .power operand) := hchain .power _ h
  have hproduct : P Tier.product.rank (Reading.chain .product _) := hchain .product _ hpower
  exact hchain .sum _ hproduct

theorem Exact.sum (h : Exact 3 room operand) : Exact 0 room (sum operand) :=
  sum_of_chain (P := (Exact · room ·)) (fun _ _ => Exact.chain) h

/-! ## The slot after a variable -/

/-- The tokens start no term just where the characters leave the slot empty. -/
theorem noTerm_scan_iff {text : List Char} :
    NoTerm (Token.scan text) ↔ EmptySlot text.head? := by
  refine ⟨fun h => ?_, fun h => ?_⟩
  · cases hscan : Token.scan text with
    | nil =>
      have := Token.flatMap_chars_scan text
      rw [hscan] at this
      exact .inl (by simp [← this])
    | cons t tokens =>
      rw [hscan] at h
      obtain ⟨rest, rfl, -, -⟩ := Token.exists_of_scan_eq_cons hscan
      cases t with
      | closing => exact .inr (.inl rfl)
      | operator op =>
        exact emptySlot_iff.mpr (.inr (.inr ⟨op, rfl, Operator.rank_pos_iff.mpr h⟩))
      | number | word | opening | stray => exact h.elim
  · obtain h | h | ⟨op, hnext, hrank⟩ := emptySlot_iff.mp h
    · rw [List.head?_eq_none_iff.mp h]
      trivial
    · obtain ⟨rest, rfl⟩ := List.head?_eq_some_iff.mp h
      rw [Token.scan_closing]
      trivial
    · obtain ⟨rest, rfl⟩ := List.head?_eq_some_iff.mp hnext
      rw [Token.scan_symbol]
      exact Operator.rank_pos_iff.mp hrank

/-- With room for a term, there is none just where the slot is empty. -/
theorem result_slot_eq_none_iff {text : List Char} :
    (term room (.of position text)).result = .ok none ↔ 0 < room ∧ EmptySlot text.head? := by
  rw [← noTerm_scan_iff]
  cases room with
  | zero => exact ⟨(nomatch ·), fun h => absurd h.1 (Nat.lt_irrefl _)⟩
  | succ room =>
    exact ⟨fun h => ⟨Nat.succ_pos _, noTerm_of_result_term h⟩, fun h => h.2.result_term⟩

/-! ## Terms -/

variable {text : List Char} {tree : Expr} {next : Cursor}

theorem begins_of_isTerm (p : Phrase) {rest : List Char} (hterm : p.IsTerm)
    (hfits : p.Fits rest.head?) (hdepth : p.depth ≤ room) (hpeak : p.peak ≤ maxDepth)
    (htext : text = p.text ++ rest) (hposition : next.position = position + p.text.length)
    (htokens : next.tokens = Token.scan rest) : Begins 3 room position text p.tree next :=
  ⟨p, rest, htext, ⟨Nat.le_of_eq hterm.symm, hfits, hdepth, hpeak⟩, stops_three _, rfl,
    by rw [Cursor.of, ← hposition, ← htokens]⟩

/-- The name of a builtin is a word that names it. -/
theorem exists_word_of_isRun {function : Builtin} {after : Option Char}
    (h : IsRun isAlphabetic function.name.toList after) :
    ∃ first more, function.name.toList = first :: more ∧
      Builtin.ofName? (String.ofList (first :: more)) = some function := by
  obtain ⟨first, more, hletters⟩ := List.exists_cons_of_ne_nil h.1
  refine ⟨first, more, hletters, ?_⟩
  rw [← hletters, String.ofList_toList, Builtin.ofName?_name]

/-- What stands where a term has to is one. -/
theorem isTerm_of_stands {p : Phrase} {after : Option Char} (h : p.Stands 3 room after) :
    p.IsTerm :=
  Nat.le_antisymm p.rank_le_three h.rank_le

theorem afterClosing_closing (position : Nat) (rest : List Char) :
    afterClosing (.of position (')' :: rest)) = .of (position + 1) rest :=
  afterClosing_of_closing (Token.scan_closing rest)

theorem scan_ne_closing {rest : List Char} (h : rest.head? ≠ some ')') (tokens : List Token) :
    Token.scan rest ≠ .closing :: tokens := by
  intro hscan
  obtain ⟨rest, rfl, -, -⟩ := Token.exists_of_scan_eq_cons hscan
  exact h rfl

theorem afterClosing_of_head?_ne {rest : List Char} (h : rest.head? ≠ some ')') :
    afterClosing (.of position rest) = .of position rest :=
  afterClosing_of_ne (scan_ne_closing h)

/-! What a term yields at a level with a level below it is a phrase. -/

/-- What is read from a word is a call, or a variable with or without a dropped term. -/
theorem Exact.begins_word (h : Exact 3 room (required (term room))) {first : Char}
    {more rest : List Char} (hrun : IsRun isAlphabetic (first :: more) rest.head?)
    (hy : (required (term (room + 1)) ⟨position, .word first more :: Token.scan rest⟩).Yields
      tree next) : Begins 3 (room + 1) position (first :: more ++ rest) tree next := by
  cases hname : Builtin.ofName? (String.ofList (first :: more)) with
  | some function =>
    obtain ⟨_, harg, rfl, hheight⟩ := (yields_builtin_iff hname).mp hy
    obtain ⟨p, rest, rfl, hp, -, rfl, rfl⟩ := (h _ _ _ _).mp harg
    rw [Phrase.head?_text_append hp.fits] at hrun
    have hletters : first :: more = function.name.toList := by
      rw [Builtin.ofName?_eq_some_iff.mp hname, String.toList_ofList]
    rw [hletters] at hrun ⊢
    refine begins_of_isTerm (.call function p) rfl ⟨hrun, isTerm_of_stands hp, hp.fits⟩
      (Nat.succ_le_succ hp.depth_le) (Nat.max_le.mpr ⟨hp.peak_le, hheight⟩) ?_ ?_ rfl
    · simp only [Phrase.text, List.append_assoc]
    · simp only [Cursor.of, Phrase.text, List.length_append]
      omega
  | none =>
    obtain ⟨rfl, ⟨_, hdropped⟩ | ⟨hslot, rfl⟩⟩ := (yields_variable_iff hname).mp hy
    · obtain ⟨p, rest, rfl, hp, -, -, rfl⟩ := (h _ _ _ _).mp hdropped
      rw [Phrase.head?_text_append hp.fits] at hrun
      refine begins_of_isTerm (.nameBefore (first :: more) p) rfl
        ⟨⟨hrun, hname⟩, isTerm_of_stands hp, hp.fits⟩ (Nat.succ_le_succ hp.depth_le)
        hp.peak_le ?_ ?_ rfl
      · simp only [Phrase.text, List.append_assoc]
      · simp only [Cursor.of, Phrase.text, List.length_append]
        omega
    · obtain ⟨hroom, hempty⟩ := result_slot_eq_none_iff.mp hslot
      exact begins_of_isTerm (.name (first :: more)) rfl ⟨⟨hrun, hname⟩, hempty⟩
        (Nat.succ_le_succ hroom) (Nat.succ_pos _) rfl rfl rfl

/-- What is read from an operator is a signed term, so the operator is a sign. -/
theorem Exact.begins_operator (h : Exact 3 room (required (term room))) {op : Operator}
    {rest : List Char}
    (hy : (required (term (room + 1)) ⟨position, .operator op :: Token.scan rest⟩).Yields
      tree next) : Begins 3 (room + 1) position (op.symbol :: rest) tree next := by
  cases op with
  | add =>
    obtain ⟨p, rest, rfl, hp, -, rfl, rfl⟩ := (h _ _ _ _).mp (yields_plus_iff.mp hy)
    refine begins_of_isTerm (.plus p) rfl ⟨isTerm_of_stands hp, hp.fits⟩
      (Nat.succ_le_succ hp.depth_le) hp.peak_le rfl ?_ rfl
    simp only [Cursor.of, Phrase.text, List.length_cons]
    omega
  | subtract =>
    obtain ⟨_, hinner, rfl, hheight⟩ := yields_minus_iff.mp hy
    obtain ⟨p, rest, rfl, hp, -, rfl, rfl⟩ := (h _ _ _ _).mp hinner
    refine begins_of_isTerm (.minus p) rfl ⟨isTerm_of_stands hp, hp.fits⟩
      (Nat.succ_le_succ hp.depth_le) (Nat.max_le.mpr ⟨hp.peak_le, hheight⟩) rfl ?_ rfl
    simp only [Cursor.of, Phrase.text, List.length_cons]
    omega
  | multiply | divide | modulo | power | nthRoot =>
    exact absurd (by simp [NoTerm, Operator.tier]) (not_noTerm_of_yields hy)

/-- What is read from a parenthesis is a group, closed if its parenthesis is there. -/
theorem Exact.begins_opening (h : Exact 3 room (required (term room))) {rest : List Char}
    (hy : (required (term (room + 1)) ⟨position, .opening :: Token.scan rest⟩).Yields tree next) :
    Begins 3 (room + 1) position ('(' :: rest) tree next := by
  obtain ⟨_, hinner, rfl⟩ := yields_opening_iff.mp hy
  obtain ⟨p, rest, rfl, hp, hstops, rfl, rfl⟩ := (h.sum _ _ _ _).mp hinner
  by_cases hclosing : rest.head? = some ')'
  · obtain ⟨rest, rfl⟩ := List.head?_eq_some_iff.mp hclosing
    rw [afterClosing_closing]
    refine begins_of_isTerm (.group p true) rfl hp.fits (Nat.succ_le_succ hp.depth_le)
      hp.peak_le ?_ ?_ rfl
    · simp [Phrase.text]
    · simp only [Cursor.of, Phrase.text, List.length_append, List.length_cons, List.length_nil]
      omega
  · rw [afterClosing_of_head?_ne hclosing]
    refine begins_of_isTerm (.group p false) rfl ⟨hclosing, hstops, hp.fits⟩
      (Nat.succ_le_succ hp.depth_le) hp.peak_le rfl ?_ rfl
    simp only [Cursor.of, Phrase.text, List.length_cons]
    omega

theorem Exact.begins_of_yields (h : Exact 3 room (required (term room)))
    (hy : (required (term (room + 1)) (.of position text)).Yields tree next) :
    Begins 3 (room + 1) position text tree next := by
  unfold Cursor.of at hy
  cases hscan : Token.scan text with
  | nil =>
    rw [hscan] at hy
    exact absurd trivial (not_noTerm_of_yields hy)
  | cons t tokens =>
    obtain ⟨rest, rfl, rfl, hlex⟩ := Token.exists_of_scan_eq_cons hscan
    rw [hscan] at hy
    cases t with
    | number first more =>
      obtain ⟨value, hvalue, rfl, rfl⟩ := yields_number_iff.mp hy
      exact begins_of_isTerm (.number (first :: more) value) rfl ⟨hlex, hvalue⟩
        (Nat.succ_pos _) (Nat.succ_pos _) rfl rfl rfl
    | word first more => exact h.begins_word hlex hy
    | operator op => exact h.begins_operator hy
    | opening => exact h.begins_opening hy
    | closing => exact absurd trivial (not_noTerm_of_yields hy)
    | stray c => exact absurd hy not_yields_stray

/-! A phrase that is a term directs the reading of a term, one level above its parts. -/

theorem Exact.yields_of_isTerm {after : Nat} (h : Exact 3 room operand) {p : Phrase}
    {rest : List Char} (hterm : p.IsTerm) (hfits : p.Fits rest.head?)
    (hdepth : p.depth + 1 ≤ room + 1) (hpeak : p.peak ≤ maxDepth)
    (hafter : after = position + p.text.length) :
    (operand (.of position (p.text ++ rest))).Yields p.tree (.of after rest) :=
  h.yields ⟨Nat.le_of_eq hterm.symm, hfits, Nat.le_of_succ_le_succ hdepth, hpeak⟩
    (stops_three _) hafter

theorem Exact.yields_of_stands (h : Exact 3 room (required (term room))) {p : Phrase}
    {rest : List Char} (hp : p.Stands 3 (room + 1) rest.head?) :
    (required (term (room + 1)) (.of position (p.text ++ rest))).Yields p.tree
      (.of (position + p.text.length) rest) := by
  have hterm := isTerm_of_stands hp
  obtain ⟨-, hfits, hdepth, hpeak⟩ := hp
  unfold Cursor.of
  cases p with
  | number literal value =>
    obtain ⟨hrun, hvalue⟩ := hfits
    obtain ⟨first, more, rfl⟩ := List.exists_cons_of_ne_nil hrun.1
    rw [Phrase.text, Token.scan_number hrun]
    exact yields_number_iff.mpr ⟨value, hvalue, rfl, rfl⟩
  | name letters =>
    obtain ⟨⟨hrun, hname⟩, hempty⟩ := hfits
    obtain ⟨first, more, rfl⟩ := List.exists_cons_of_ne_nil hrun.1
    rw [Phrase.text, Token.scan_word hrun]
    refine (yields_variable_iff hname).mpr ⟨rfl, .inr ⟨?_, rfl⟩⟩
    exact result_slot_eq_none_iff.mpr ⟨Nat.le_of_succ_le_succ hdepth, hempty⟩
  | nameBefore letters dropped =>
    obtain ⟨⟨hrun, hname⟩, hdropped, hfits⟩ := hfits
    obtain ⟨first, more, rfl⟩ := List.exists_cons_of_ne_nil hrun.1
    rw [← Phrase.head?_text_append hfits rest] at hrun
    rw [Phrase.text, List.append_assoc, Token.scan_word hrun]
    refine (yields_variable_iff hname).mpr ⟨rfl, .inl ⟨dropped.tree, ?_⟩⟩
    refine h.yields_of_isTerm hdropped hfits hdepth hpeak ?_
    rw [List.length_append, Nat.add_assoc]
  | call function argument =>
    obtain ⟨hrun, hargument, hfits⟩ := hfits
    obtain ⟨hpeak, hheight⟩ := Nat.max_le.mp hpeak
    obtain ⟨first, more, hletters, hname⟩ := exists_word_of_isRun hrun
    rw [← Phrase.head?_text_append hfits rest, hletters] at hrun
    rw [Phrase.text, hletters, List.append_assoc, Token.scan_word hrun]
    refine (yields_builtin_iff hname).mpr ⟨argument.tree, ?_, rfl, hheight⟩
    refine h.yields_of_isTerm hargument hfits hdepth hpeak ?_
    rw [List.length_append, Nat.add_assoc]
  | plus inner =>
    obtain ⟨hinner, hfits⟩ := hfits
    rw [Phrase.text, List.cons_append, Token.scan_plus]
    refine yields_plus_iff.mpr (h.yields_of_isTerm hinner hfits hdepth hpeak ?_)
    rw [List.length_cons]
    omega
  | minus inner =>
    obtain ⟨hinner, hfits⟩ := hfits
    obtain ⟨hpeak, hheight⟩ := Nat.max_le.mp hpeak
    rw [Phrase.text, List.cons_append, Token.scan_minus]
    refine yields_minus_iff.mpr ⟨inner.tree, ?_, rfl, hheight⟩
    refine h.yields_of_isTerm hinner hfits hdepth hpeak ?_
    rw [List.length_cons]
    omega
  | group inner closed =>
    have hroom : inner.depth ≤ room := Nat.le_of_succ_le_succ hdepth
    cases closed with
    | true =>
      rw [Phrase.text, List.cons_append, List.append_assoc, Token.scan_opening]
      refine yields_opening_iff.mpr ⟨_, h.sum.yields ⟨Nat.zero_le _, hfits, hroom, hpeak⟩
        (stops_closing 0) rfl, ?_⟩
      rw [List.singleton_append, afterClosing_closing, Cursor.of, List.length_cons,
        List.length_append, List.length_singleton]
      congr 1
      omega
    | false =>
      obtain ⟨hclosing, hstops, hfits⟩ := hfits
      rw [Phrase.text, List.cons_append, Token.scan_opening]
      refine yields_opening_iff.mpr ⟨_, h.sum.yields ⟨Nat.zero_le _, hfits, hroom, hpeak⟩
        hstops rfl, ?_⟩
      rw [afterClosing_of_head?_ne hclosing, Cursor.of, List.length_cons]
      congr 1
      omega
  | binary op left right => exact absurd hterm (Nat.ne_of_lt op.rank_lt_three)

/-- By induction on the room, what is yielded for a term is just what the phrases stand for. -/
theorem exact_term : ∀ room : Nat, Exact 3 room (required (term room))
  | 0 => by
    intro position text tree next
    refine ⟨fun h => absurd h not_yields_term_zero, ?_⟩
    rintro ⟨p, rest, -, hp, -⟩
    exact absurd hp.depth_le (Nat.not_le.mpr p.depth_pos)
  | room + 1 => by
    have h := exact_term room
    intro position text tree next
    refine ⟨h.begins_of_yields, ?_⟩
    rintro ⟨p, rest, rfl, hp, -, rfl, rfl⟩
    exact h.yields_of_stands hp

/-! ## Whole texts -/

/-- Reading a whole text succeeds if the sum at its front is the whole of it. -/
theorem result_formula_eq_ok_iff_yields {text : List Char} {tree : Expr} :
    (formula text).result = .ok tree ↔
      ∃ next, (sum (required (term maxDepth)) (.of 0 text)).Yields tree next ∧
        next.tokens = [] := by
  refine ⟨fun h => ?_, ?_⟩
  · obtain ⟨q, hq, h⟩ := result_bind_eq_ok_iff.mp h
    split at h
    next hnext =>
      cases h
      exact ⟨q.next, ⟨q, hq, rfl, rfl⟩, hnext⟩
    · cases h
  · rintro ⟨_, ⟨q, hq, rfl, rfl⟩, hnext⟩
    refine result_bind_eq_ok_iff.mpr ⟨q, hq, ?_⟩
    rw [hnext]
    rfl

theorem result_formula_eq_ok_iff {text : List Char} {tree : Expr} :
    (formula text).result = .ok tree ↔ Derives text tree := by
  have hsum : Exact 0 maxDepth (sum (required (term maxDepth))) := (exact_term maxDepth).sum
  rw [result_formula_eq_ok_iff_yields]
  refine ⟨?_, ?_⟩
  · rintro ⟨next, hy, hnext⟩
    obtain ⟨p, rest, rfl, hp, -, htree, rfl⟩ := (hsum _ _ _ _).mp hy
    obtain rfl : rest = [] := Token.scan_eq_nil_iff.mp hnext
    exact ⟨p, (List.append_nil _).symm, htree, hp.fits, hp.depth_le, hp.peak_le⟩
  · rintro ⟨p, rfl, rfl, hfits, hdepth, hpeak⟩
    have hp : p.Stands 0 maxDepth none := ⟨Nat.zero_le _, hfits, hdepth, hpeak⟩
    refine ⟨.of p.text.length [], (hsum _ _ _ _).mpr ⟨p, [], ?_⟩, rfl⟩
    exact ⟨(List.append_nil _).symm, hp, stops_none 0, rfl, by rw [Nat.zero_add]⟩

end Reading

theorem parse_eq_result_formula (raw : String) :
    parse raw = (Reading.formula (normalize raw).toList).result := by
  have hnormal : Reading.result (liftM (Logged.normalize raw)) = .ok (normalize raw) := rfl
  rw [parse, Reading.typed, Reading.result_bind_of_eq_ok hnormal,
    Reading.result_bind_of_eq_ok (Reading.result_report _), Reading.result_bind]
  cases (Reading.formula (normalize raw).toList).result <;> rfl

theorem parse_eq_of_text {raw : String} {p : Phrase} (htext : p.text = (normalize raw).toList) :
    parse raw = (Reading.formula p.text).result := by
  rw [parse_eq_result_formula, htext]

/-- A typed text is read as a tree just if the grammar assigns the tree to its normal form. -/
theorem parse_eq_ok_iff_derives (raw : String) (tree : Expr) :
    parse raw = .ok tree ↔ Derives (normalize raw).toList tree := by
  rw [parse_eq_result_formula, Reading.result_formula_eq_ok_iff]

end Formula
