import Formula.Proofs.PlainText
import Formula.Proofs.ReadingGrammar

/-!
# Open groups

A group may lack its parenthesis only where the text ends. In front of a closing parenthesis
or an operator no group of a phrase is open (`Phrase.Fits.openGroups_eq_zero`), because the
group would have taken the one and its sum would have gone on with the other.

So the open groups of a phrase are those that its text opens and does not close
(`Phrase.Fits.nested`), and all of them end where the phrase does. A parenthesis written
behind the phrase closes the innermost of them and changes nothing else
(`Phrase.Fits.exists_closed`). A formula with none of them (`IsClosedFormula`) may stand in
parentheses.
-/

namespace Formula

/-! ## Nesting -/

/-- No front of the text closes more parentheses than it opens, and the whole text opens
`excess` more than it closes. -/
structure Nested (text : List Char) (excess : Nat) : Prop where
  front_le : ∀ front, front <+: text → front.count ')' ≤ front.count '('
  count_eq : text.count '(' = text.count ')' + excess

/-- A text without parentheses opens none and closes none. -/
theorem nested_of_free {text : List Char} (h : ∀ c ∈ text, c ≠ '(' ∧ c ≠ ')') : Nested text 0 := by
  have hopening : text.count '(' = 0 := List.count_eq_zero.mpr fun hmem => (h _ hmem).1 rfl
  have hclosing : text.count ')' = 0 := List.count_eq_zero.mpr fun hmem => (h _ hmem).2 rfl
  refine ⟨fun front hfront => ?_, by rw [hopening, hclosing]⟩
  have hle := hfront.sublist.count_le ')'
  omega

/-- Texts one behind the other open together what each of them opens. -/
theorem Nested.append {front rest : List Char} {m n : Nat} (hfront : Nested front m)
    (hrest : Nested rest n) : Nested (front ++ rest) (m + n) := by
  have hcount := hfront.count_eq
  refine ⟨fun piece hpiece => ?_, ?_⟩
  · obtain hle | ⟨more, rfl⟩ :=
      List.prefix_or_prefix_of_prefix hpiece (List.prefix_append front rest)
    · exact hfront.front_le piece hle
    · have hmore := hrest.front_le more ((List.prefix_append_right_inj front).mp hpiece)
      rw [List.count_append, List.count_append]
      omega
  · rw [List.count_append, List.count_append, hcount, hrest.count_eq]
    omega

theorem Nested.append_of_zero {front rest : List Char} {n : Nat} (hfront : Nested front 0)
    (hrest : Nested rest n) : Nested (front ++ rest) n := by
  simpa using hfront.append hrest

/-- A parenthesis in front of a text is open behind it. -/
theorem Nested.opening {text : List Char} {excess : Nat} (h : Nested text excess) :
    Nested ('(' :: text) (excess + 1) := by
  have hone : Nested ['('] 1 :=
    ⟨fun _ hfront => Nat.le_trans (hfront.sublist.count_le ')') (Nat.zero_le _), rfl⟩
  rw [Nat.add_comm]
  exact hone.append h

/-- A parenthesis behind a text closes one that is open. -/
theorem Nested.closing {text : List Char} {excess : Nat} (h : Nested text (excess + 1)) :
    Nested (text ++ [')']) excess := by
  have hcount := h.count_eq
  have hopening : (text ++ [')']).count '(' = text.count '(' := by simp
  have hclosing : (text ++ [')']).count ')' = text.count ')' + 1 := by simp
  refine ⟨fun front hfront => ?_, by omega⟩
  obtain rfl | hfront := List.prefix_concat_iff.mp hfront
  · omega
  · exact h.front_le front hfront

/-- The runs have no parentheses in them. -/
theorem IsRun.nested {p : Char → Bool} {run : List Char} {next : Option Char}
    (h : IsRun p run next) (hopening : p '(' = false) (hclosing : p ')' = false) :
    Nested run 0 := by
  refine nested_of_free fun c hc => ⟨?_, ?_⟩ <;> rintro rfl
  · exact absurd (h.2.1 _ hc) (by simp [hopening])
  · exact absurd (h.2.1 _ hc) (by simp [hclosing])

theorem Operator.nested_symbol (op : Operator) : Nested [op.symbol] 0 :=
  nested_of_free fun c hc => by
    obtain rfl : c = op.symbol := by simpa using hc
    cases op <;> decide

namespace Phrase

/-- How many groups of a phrase lack their parenthesis. -/
def openGroups : Phrase → Nat
  | number _ _ => 0
  | name _ => 0
  | nameBefore _ dropped => dropped.openGroups
  | call _ argument => argument.openGroups
  | plus inner => inner.openGroups
  | minus inner => inner.openGroups
  | group inner true => inner.openGroups
  | group inner false => inner.openGroups + 1
  | binary _ left right => left.openGroups + right.openGroups

/-- No group is open in front of a closing parenthesis or an operator. -/
theorem Fits.openGroups_eq_zero : ∀ {p : Phrase} {next : Option Char}, p.Fits next →
    ¬(next ≠ some ')' ∧ Stops 0 next) → p.openGroups = 0
  | number _ _, _, _, _ => rfl
  | name _, _, _, _ => rfl
  | nameBefore _ _, _, h, hnext => h.2.2.openGroups_eq_zero hnext
  | call _ _, _, h, hnext => h.2.2.openGroups_eq_zero hnext
  | plus _, _, h, hnext => h.2.openGroups_eq_zero hnext
  | minus _, _, h, hnext => h.2.openGroups_eq_zero hnext
  | group inner true, _, h, _ =>
    openGroups_eq_zero (p := inner) h fun hclosing => hclosing.1 rfl
  | group _ false, _, h, hnext => absurd ⟨h.1, h.2.1⟩ hnext
  | binary _ _ _, _, h, hnext =>
    have hleft := h.2.1.openGroups_eq_zero fun hstops =>
      absurd (stops_symbol_iff.mp hstops.2) (Nat.not_lt_zero _)
    Nat.add_eq_zero_iff.mpr ⟨hleft, h.2.2.2.1.openGroups_eq_zero hnext⟩

/-- In front of an operator no group is open. -/
theorem Fits.openGroups_left {op : Operator} {left right : Phrase} {next : Option Char}
    (h : (binary op left right).Fits next) : left.openGroups = 0 :=
  h.2.1.openGroups_eq_zero fun hstops =>
    absurd (stops_symbol_iff.mp hstops.2) (Nat.not_lt_zero _)

theorem Fits.openGroups_inner {inner : Phrase} {next : Option Char}
    (h : (group inner true).Fits next) : inner.openGroups = 0 :=
  openGroups_eq_zero (p := inner) h fun hclosing => hclosing.1 rfl

/-- The open groups of a phrase are those that its text opens and does not close. -/
theorem Fits.nested : ∀ {p : Phrase} {next : Option Char}, p.Fits next →
    Nested p.text p.openGroups
  | number _ _, _, h => h.1.nested isNumeral_opening isNumeral_closing
  | name _, _, h => h.1.1.nested isAlphabetic_opening isAlphabetic_closing
  | nameBefore _ _, _, h =>
    (h.1.1.nested isAlphabetic_opening isAlphabetic_closing).append_of_zero h.2.2.nested
  | call _ _, _, h =>
    (h.1.nested isAlphabetic_opening isAlphabetic_closing).append_of_zero h.2.2.nested
  | plus _, _, h => (Operator.nested_symbol .add).append_of_zero h.2.nested
  | minus _, _, h => (Operator.nested_symbol .subtract).append_of_zero h.2.nested
  | group inner true, _, h =>
    have hinner : Nested inner.text inner.openGroups := nested (p := inner) h
    hinner.opening.closing
  | group _ false, _, h => h.2.2.nested.opening
  | binary op _ _, _, h =>
    h.2.1.nested.append ((Operator.nested_symbol op).append_of_zero h.2.2.2.1.nested)

/-! ## Closing groups -/

/-- A phrase with no open group may have a closing parenthesis behind it. -/
theorem Fits.before_closing : ∀ {p : Phrase}, p.Fits none → p.openGroups = 0 → p.Fits (some ')')
  | number _ _, h, _ => ⟨⟨h.1.1, h.1.2.1, by simp⟩, h.2⟩
  | name _, h, _ =>
    ⟨⟨⟨h.1.1.1, h.1.1.2.1, by simp [isAlphabetic_closing]⟩, h.1.2⟩, .inr (.inl rfl)⟩
  | nameBefore _ _, h, hclosed => ⟨h.1, h.2.1, h.2.2.before_closing hclosed⟩
  | call _ _, h, hclosed => ⟨h.1, h.2.1, h.2.2.before_closing hclosed⟩
  | plus _, h, hclosed => ⟨h.1, h.2.before_closing hclosed⟩
  | minus _, h, hclosed => ⟨h.1, h.2.before_closing hclosed⟩
  | group _ true, h, _ => h
  | group _ false, _, hclosed => nomatch hclosed
  | binary _ _ _, h, hclosed =>
    ⟨h.1, h.2.1, h.2.2.1, h.2.2.2.1.before_closing (Nat.eq_zero_of_add_eq_zero hclosed).2,
      stops_closing _⟩

/-- The phrase `q` is `p` with `count` of its open groups closed behind it. -/
structure Closed (p : Phrase) (count : Nat) (q : Phrase) : Prop where
  text_eq : q.text = p.text ++ List.replicate count ')'
  fits : q.Fits none
  openGroups_eq : q.openGroups + count = p.openGroups
  rank_eq : q.rank = p.rank
  tree_eq : q.tree = p.tree
  depth_eq : q.depth = p.depth
  peak_eq : q.peak = p.peak

theorem Closed.isTerm {p q : Phrase} {count : Nat} (h : Closed p count q) (hterm : p.IsTerm) :
    q.IsTerm :=
  h.rank_eq.trans hterm

theorem Closed.head?_eq {p q : Phrase} {count : Nat} {next : Option Char} (h : Closed p count q)
    (hp : p.Fits next) : q.text.head? = p.text.head? := by
  rw [h.text_eq, head?_text_append hp]

/-- The innermost open group can be closed. -/
theorem Fits.exists_closed_one {p : Phrase} (h : p.Fits none) (hopen : 0 < p.openGroups) :
    ∃ q, Closed p 1 q := by
  induction p with
  | number | name => exact absurd hopen (Nat.lt_irrefl 0)
  | nameBefore letters dropped ih =>
    obtain ⟨hname, hterm, hfits⟩ := h
    obtain ⟨q, hq⟩ := ih hfits hopen
    rw [← hq.head?_eq hfits] at hname
    exact ⟨nameBefore letters q, by simp only [text, hq.text_eq, List.append_assoc],
      ⟨hname, hq.isTerm hterm, hq.fits⟩, hq.openGroups_eq, rfl, rfl,
      congrArg (· + 1) hq.depth_eq, hq.peak_eq⟩
  | call function argument ih =>
    obtain ⟨hrun, hterm, hfits⟩ := h
    obtain ⟨q, hq⟩ := ih hfits hopen
    rw [← hq.head?_eq hfits] at hrun
    exact ⟨call function q, by simp only [text, hq.text_eq, List.append_assoc],
      ⟨hrun, hq.isTerm hterm, hq.fits⟩, hq.openGroups_eq, rfl,
      congrArg (Expr.call function) hq.tree_eq, congrArg (· + 1) hq.depth_eq,
      by simp only [peak, hq.peak_eq, hq.tree_eq]⟩
  | plus inner ih =>
    obtain ⟨hterm, hfits⟩ := h
    obtain ⟨q, hq⟩ := ih hfits hopen
    exact ⟨plus q, by simp only [text, hq.text_eq, List.cons_append], ⟨hq.isTerm hterm, hq.fits⟩,
      hq.openGroups_eq, rfl, hq.tree_eq, congrArg (· + 1) hq.depth_eq, hq.peak_eq⟩
  | minus inner ih =>
    obtain ⟨hterm, hfits⟩ := h
    obtain ⟨q, hq⟩ := ih hfits hopen
    exact ⟨minus q, by simp only [text, hq.text_eq, List.cons_append], ⟨hq.isTerm hterm, hq.fits⟩,
      hq.openGroups_eq, rfl, congrArg Expr.negate hq.tree_eq, congrArg (· + 1) hq.depth_eq,
      by simp only [peak, hq.peak_eq, hq.tree_eq]⟩
  | group inner closed ih =>
    cases closed with
    | true => exact absurd h.openGroups_inner (Nat.ne_of_gt hopen)
    | false =>
      obtain ⟨-, hstops, hfits⟩ := h
      rcases Nat.eq_zero_or_pos inner.openGroups with hzero | hinner
      · exact ⟨group inner true, rfl, hfits.before_closing hzero, rfl, rfl, rfl, rfl, rfl⟩
      · obtain ⟨q, hq⟩ := ih hfits hinner
        exact ⟨group q false, by simp only [text, hq.text_eq, List.cons_append],
          ⟨(Option.some_ne_none _).symm, hstops, hq.fits⟩, congrArg (· + 1) hq.openGroups_eq, rfl,
          hq.tree_eq, congrArg (· + 1) hq.depth_eq, hq.peak_eq⟩
  | binary op left right _ ih =>
    have hzero := h.openGroups_left
    obtain ⟨hleft, hfits, hright, hfits', hstops⟩ := h
    rw [openGroups, hzero, Nat.zero_add] at hopen
    obtain ⟨q, hq⟩ := ih hfits' hopen
    exact ⟨binary op left q, by simp only [text, hq.text_eq, List.append_assoc, List.cons_append],
      ⟨hleft, hfits, hq.rank_eq ▸ hright, hq.fits, hstops⟩,
      by simp only [openGroups, ← hq.openGroups_eq, Nat.add_assoc], rfl,
      congrArg (Expr.binary op left.tree) hq.tree_eq, by simp only [depth, hq.depth_eq],
      by simp only [peak, hq.peak_eq, hq.tree_eq]⟩

/-- Any number of the open groups can be closed, the innermost first. -/
theorem Fits.exists_closed {p : Phrase} (h : p.Fits none) {count : Nat}
    (hcount : count ≤ p.openGroups) : ∃ q, Closed p count q := by
  induction count with
  | zero => exact ⟨p, by simp, h, rfl, rfl, rfl, rfl, rfl⟩
  | succ count ih =>
    obtain ⟨q, hq⟩ := ih (Nat.le_of_succ_le hcount)
    have hopen : 0 < q.openGroups := by
      have := hq.openGroups_eq
      omega
    obtain ⟨r, hr⟩ := hq.fits.exists_closed_one hopen
    refine ⟨r, ?_, hr.fits, ?_, hr.rank_eq.trans hq.rank_eq, hr.tree_eq.trans hq.tree_eq,
      hr.depth_eq.trans hq.depth_eq, hr.peak_eq.trans hq.peak_eq⟩
    · rw [hr.text_eq, hq.text_eq, List.append_assoc, ← List.replicate_append_replicate]
    · have := hq.openGroups_eq
      have := hr.openGroups_eq
      omega

end Phrase

/-! ## Formulas in parentheses -/

/-- The typed text is a formula, with as many opening parentheses as closing ones. -/
def IsClosedFormula (raw : String) : Prop :=
  (∃ tree, parse raw = .ok tree) ∧ raw.toList.count '(' = raw.toList.count ')'

/-- A closed formula may stand in parentheses. -/
theorem IsClosedFormula.exists_phrase {raw : String} (h : IsClosedFormula raw) :
    ∃ p : Phrase, p.text = normalizeChars raw.toList ∧ p.Fits (some ')') := by
  obtain ⟨⟨tree, hparse⟩, hcount⟩ := h
  rw [parse_eq_result_formula, toList_normalize] at hparse
  obtain ⟨p, htext, -, hfits, -⟩ := Reading.result_formula_eq_ok_iff.mp hparse
  have hopen : p.openGroups = 0 := by
    have hnested := hfits.nested.count_eq
    rw [htext, count_normalizeChars (.inl rfl), count_normalizeChars (.inr rfl)] at hnested
    omega
  exact ⟨p, htext, hfits.before_closing hopen⟩

end Formula
