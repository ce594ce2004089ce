import Formula.Proofs.Limits
import Formula.Proofs.PlainText

/-!
# Errors are reported at the earliest place

An error comes as early as it can. What stands in front of it could still become a formula
(`ParseError.Viable`) : a front becomes a phrase when its place is filled
(`Descends.exists_phrase`), and a phrase of the grammar is read unless it is too deep
(`Phrase.Fits.result_formula`). And what stands there settles the matter : an obstacle depends
on nothing behind the character that shows it, so a text with the same beginning fails with
the same error (`Blocked.of_take_eq`). `ParseError.extent` counts the characters up to
that one.
-/

namespace Formula

/-! ## Fronts become phrases -/

section Fill

variable {g g' h : Goal} {f : Frame} {next next' : Option Char}

theorem IsRun.of_next {p : Char → Bool} {run : List Char} (hrun : IsRun p run next)
    (hnext : ∀ c ∈ next', p c = false) : IsRun p run next' :=
  ⟨hrun.1, hrun.2.1, hnext⟩

/-- A frame depends on what follows it only as far as a name might go on. -/
theorem Opens.of_next (hopens : Opens g f g' next) (hnext : ∀ c ∈ next', isAlphabetic c = false) :
    Opens g f g' next' := by
  cases hopens with
  | slot rank_le hname => exact .slot rank_le ⟨hname.1.of_next hnext, hname.2⟩
  | call rank_le hrun => exact .call rank_le (hrun.of_next hnext)
  | plus rank_le => exact .plus rank_le
  | minus rank_le => exact .minus rank_le
  | group rank_le => exact .group rank_le
  | operand rank_le hleft => exact .operand rank_le hleft

/-- The phrase is one for the goal, where the text ends behind it. -/
structure Phrase.Meets (p : Phrase) (g : Goal) : Prop where
  rank_le : g.rank ≤ p.rank
  fits : p.Fits none
  depth_le : p.depth ≤ g.room

/-- A frame makes a phrase of a phrase. -/
theorem Opens.meets_fill {p : Phrase} (hopens : Opens g f g' p.text.head?) (hp : p.Meets g') :
    (f.fill p).Meets g := by
  obtain ⟨hrank, hfits, hdepth⟩ := hp
  have hterm (h3 : 3 ≤ p.rank) : p.IsTerm := Nat.le_antisymm p.rank_le_three h3
  cases hopens with
  | slot rank_le hname => exact ⟨rank_le, ⟨hname, hterm hrank, hfits⟩, Nat.succ_le_succ hdepth⟩
  | call rank_le hrun => exact ⟨rank_le, ⟨hrun, hterm hrank, hfits⟩, Nat.succ_le_succ hdepth⟩
  | plus rank_le => exact ⟨rank_le, ⟨hterm hrank, hfits⟩, Nat.succ_le_succ hdepth⟩
  | minus rank_le => exact ⟨rank_le, ⟨hterm hrank, hfits⟩, Nat.succ_le_succ hdepth⟩
  | group rank_le => exact ⟨rank_le, ⟨nofun, stops_none 0, hfits⟩, Nat.succ_le_succ hdepth⟩
  | operand rank_le hleft =>
    exact ⟨rank_le, ⟨hleft.rank_le, hleft.fits, hrank, hfits, stops_none _⟩,
      Nat.max_le.mpr ⟨hleft.depth_le, hdepth⟩⟩

/-- A front becomes a phrase with a phrase in its place that no name runs on into. -/
theorem Descends.exists_phrase {front : List Frame} (hdescends : Descends g front h next)
    {p : Phrase} (hp : p.Meets h) (hhead : ∀ c ∈ p.text.head?, isAlphabetic c = false) :
    ∃ q : Phrase, q.text = frontText front ++ p.text ∧ q.Meets g := by
  induction hdescends with
  | here => exact ⟨p, rfl, hp⟩
  | @step outer inner _ f front _ hopens _ ih =>
    obtain ⟨q, htext, hq⟩ := ih hp
    have hopens' : Opens outer f inner q.text.head? := by
      rw [htext, List.head?_append]
      cases hfront : (frontText front).head? with
      | none => exact hopens.of_next hhead
      | some c =>
        rw [hfront] at hopens
        exact hopens
    exact ⟨f.fill q, by rw [f.text_fill, htext, frontText_cons, List.append_assoc],
      hopens'.meets_fill hq⟩

theorem Opens.rank_le_three (hopens : Opens g f g' next) : g'.rank ≤ 3 := by
  cases hopens with
  | slot | call | plus | minus => exact Nat.le_refl 3
  | group => exact Nat.zero_le 3
  | operand => exact Operator.rank_lt_three _

theorem Descends.rank_le_three {front : List Frame} (hdescends : Descends g front h next)
    (hg : g.rank ≤ 3) : h.rank ≤ 3 := by
  induction hdescends with
  | here => exact hg
  | step hopens _ ih => exact ih hopens.rank_le_three

end Fill

/-- A text of the grammar is read, unless it is too deep. -/
theorem Phrase.Fits.result_formula {p : Phrase} (h : p.Fits none) :
    (∃ tree, (Reading.formula p.text).result = .ok tree) ∨
      ∃ place, (Reading.formula p.text).result = .error (.tooDeep place) := by
  by_cases hlimits : p.Within maxDepth
  · exact .inl ⟨p.tree, h.result_of_within hlimits⟩
  · exact .inr (h.result_of_not_within hlimits)

/-! ## Texts that agree up to the obstacle -/

/-- How many characters of the text settle an error : those up to the one that shows it. -/
def ParseError.extent : ParseError → Nat
  | unexpectedChar _ position => position + 1
  | unexpectedEnd position => position + 1
  | invalidNumber literal position => position + literal.length + 1
  | trailingInput _ position => position + 1
  | tooDeep position => position + 1

theorem Obstacle.extent_error (obstacle : Obstacle) (front : List Char) (next : Option Char) :
    (obstacle.error front.length next).extent = (front ++ obstacle.text).length + 1 := by
  cases obstacle with
  | missing | stray => cases next <;> simp [error, ParseError.unexpected, ParseError.extent, text]
  | deep | malformed | high => simp [error, ParseError.extent, text]

/-- A text that begins like another one up to a character and with it. -/
theorem exists_append_of_take_eq {front rest other : List Char}
    (hle : front.length + 1 ≤ (front ++ rest).length)
    (htake : other.take (front.length + 1) = (front ++ rest).take (front.length + 1)) :
    ∃ rest', other = front ++ rest' ∧ rest'.head? = rest.head? := by
  obtain _ | ⟨c, rest⟩ := rest
  · rw [List.append_nil] at hle
    exact absurd hle (Nat.not_succ_le_self _)
  · rw [List.take_length_add_append, List.take_succ_cons, List.take_zero] at htake
    refine ⟨c :: other.drop (front.length + 1), ?_, rfl⟩
    conv_lhs => rw [← List.take_append_drop (front.length + 1) other, htake]
    simp

/-- An obstacle depends on nothing behind the character that shows it. -/
theorem Blocked.of_take_eq {g : Goal} {text other : List Char} {e : ParseError}
    (h : Blocked g 0 text e) (hle : e.extent ≤ text.length)
    (htake : other.take e.extent = text.take e.extent) : Blocked g 0 other e := by
  obtain ⟨front, g', obstacle, rest, rfl, hdescends, hat, rfl⟩ := h
  rw [Nat.zero_add, Obstacle.extent_error, ← List.append_assoc] at hle htake
  obtain ⟨rest', rfl, hhead⟩ := exists_append_of_take_eq hle htake
  rw [List.head?_append, ← hhead, ← List.head?_append] at hdescends
  refine ⟨front, g', obstacle, rest', List.append_assoc _ _ _, hdescends, hhead ▸ hat, ?_⟩
  rw [hhead]

theorem result_formula_of_take_eq {text other : List Char} {e : ParseError}
    (h : (Reading.formula text).result = .error e) (hle : e.extent ≤ text.length)
    (htake : other.take e.extent = text.take e.extent) :
    (Reading.formula other).result = .error e := by
  obtain h | ⟨p, c, rest, rfl, hp, hstops, rfl⟩ := Reading.result_formula_eq_error_iff.mp h
  · exact Reading.result_formula_eq_error_iff.mpr (.inl (h.of_take_eq hle htake))
  · obtain ⟨rest', rfl, hhead⟩ := exists_append_of_take_eq hle htake
    obtain ⟨rest', rfl⟩ := List.head?_eq_some_iff.mp hhead
    exact Reading.result_formula_eq_error_iff.mpr (.inr ⟨p, c, rest', rfl, hp, hstops, rfl⟩)

/-! ## The part in front of an error -/

/-- The text is read, or it is only too deep. -/
def ReadOrTooDeep (text : List Char) : Prop :=
  (∃ tree, parse (String.ofList text) = .ok tree) ∨
    ∃ place, parse (String.ofList text) = .error (.tooDeep place)

/-- What stands in front of the error could become a formula, and where the error shows a
character there is one. -/
def ParseError.Viable (text : List Char) : ParseError → Prop
  | unexpectedChar _ position =>
    position < text.length ∧ ReadOrTooDeep (text.take position ++ ['1'])
  | unexpectedEnd position => ReadOrTooDeep (text.take position ++ ['1'])
  | invalidNumber _ _ => True
  | trailingInput _ position =>
    position < text.length ∧ ∃ tree, parse (String.ofList (text.take position)) = .ok tree
  | tooDeep _ => True

/-- A phrase is one where the text ends behind it, too. -/
theorem Phrase.Fits.at_end : ∀ {p : Phrase} {next : Option Char}, p.Fits next → p.Fits none
  | .number _ _, _, h => ⟨h.1.of_next nofun, h.2⟩
  | .name _, _, h => ⟨⟨h.1.1.of_next nofun, h.1.2⟩, .inl rfl⟩
  | .nameBefore _ _, _, h => ⟨h.1, h.2.1, h.2.2.at_end⟩
  | .call _ _, _, h => ⟨h.1, h.2.1, h.2.2.at_end⟩
  | .plus _, _, h => ⟨h.1, h.2.at_end⟩
  | .minus _, _, h => ⟨h.1, h.2.at_end⟩
  | .group _ true, _, h => h
  | .group _ false, _, h => ⟨nofun, stops_none 0, h.2.2.at_end⟩
  | .binary _ _ _, _, h => ⟨h.1, h.2.1, h.2.2.1, h.2.2.2.1.at_end, stops_none _⟩

theorem parse_ofList {text : List Char} (h : ∀ c ∈ text, IsPlain c) :
    parse (String.ofList text) = (Reading.formula text).result := by
  rw [parse_eq_result_formula, toList_normalize, String.toList_ofList,
    normalizeChars_of_isPlain h]

/-- A front with room for a term becomes a formula with a digit behind it. -/
theorem Descends.readOrTooDeep {front : List Frame} {h : Goal} {next : Option Char}
    (hdescends : Descends ⟨0, maxDepth, false⟩ front h next) (hroom : 0 < h.room)
    (hplain : ∀ c ∈ frontText front, IsPlain c) : ReadOrTooDeep (frontText front ++ ['1']) := by
  obtain ⟨value, hvalue⟩ : ∃ value, readLiteral? ['1'] = some value := ⟨_, rfl⟩
  have hone : isNumeral '1' = true := by decide
  have hdigit : (Phrase.number ['1'] value).Meets h :=
    ⟨hdescends.rank_le_three (Nat.zero_le 3), ⟨.single hone nofun, hvalue⟩, hroom⟩
  obtain ⟨p, htext, hp⟩ := hdescends.exists_phrase hdigit fun c hc => by
    obtain rfl : '1' = c := by simpa [Phrase.text] using hc
    exact isAlphabetic_eq_false_of_isNumeral hone
  have hplain' : ∀ c ∈ frontText front ++ ['1'], IsPlain c := by
    simp only [List.forall_mem_append, List.forall_mem_singleton]
    exact ⟨hplain, isPlain_of_isNumeral hone⟩
  unfold ReadOrTooDeep
  rw [parse_ofList hplain', show frontText front ++ ['1'] = p.text from htext.symm]
  exact hp.fits.result_formula

theorem viable_unexpected {front rest : List Char} (h : ReadOrTooDeep (front ++ ['1'])) :
    (ParseError.unexpected rest.head? front.length).Viable (front ++ rest) := by
  have htake : (front ++ rest).take front.length = front := List.take_left
  cases rest with
  | nil =>
    simp only [List.head?_nil, ParseError.unexpected, ParseError.Viable, htake]
    exact h
  | cons c rest =>
    have hlt : front.length < (front ++ c :: rest).length := by simp
    simp only [List.head?_cons, ParseError.unexpected, ParseError.Viable, htake]
    exact ⟨hlt, h⟩

theorem Blocked.viable {text : List Char} {e : ParseError}
    (h : Blocked ⟨0, maxDepth, false⟩ 0 text e) (hplain : ∀ c ∈ text, IsPlain c) :
    e.Viable text := by
  obtain ⟨front, g, obstacle, rest, rfl, hdescends, hat, rfl⟩ := h
  have hfront : ∀ c ∈ frontText front, IsPlain c := fun c hc =>
    hplain c (List.mem_append_left _ hc)
  rw [Nat.zero_add]
  cases obstacle with
  | deep | malformed | high => trivial
  | missing => exact viable_unexpected (hdescends.readOrTooDeep hat.1 hfront)
  | stray => exact viable_unexpected (hdescends.readOrTooDeep hat.1 hfront)

/-- An error of a normal form has in front of it what could become a formula, and every normal
form that agrees up to the character that shows it fails with the same error. -/
theorem parse_error_earliest (text : String) (hnormal : IsNormal text) (e : ParseError)
    (h : parse text = .error e) :
    e.Viable text.toList ∧
      (e.extent ≤ text.toList.length → ∀ other : String, IsNormal other →
        other.toList.take e.extent = text.toList.take e.extent → parse other = .error e) := by
  have hplain : ∀ c ∈ text.toList, IsPlain c := isNormal_iff.mp hnormal
  rw [parse_eq_result_formula, hnormal.normalize_eq] at h
  refine ⟨?_, fun hle other hother htake => ?_⟩
  · obtain hblocked | ⟨p, c, rest, htext, hp, -, rfl⟩ := Reading.result_formula_eq_error_iff.mp h
    · exact hblocked.viable hplain
    · have hfront : ∀ d ∈ p.text, IsPlain d := fun d hd =>
        hplain d (htext ▸ List.mem_append_left _ hd)
      have hread : parse (String.ofList p.text) = .ok p.tree := by
        rw [parse_ofList hfront]
        exact Reading.result_formula_eq_ok_iff.mpr
          ⟨p, rfl, rfl, hp.fits.at_end, hp.depth_le, hp.peak_le⟩
      rw [htext]
      refine ⟨by simp, p.tree, ?_⟩
      rwa [List.take_left]
  · rw [parse_eq_result_formula, hother.normalize_eq]
    exact result_formula_of_take_eq h hle htake

/-- In `2*sin)` the parenthesis stands where a term has to start : `2*sin1` is a formula, and
no text that begins with `2*sin)` is one. -/
theorem parse_error_earliest_call : IsNormal "2*sin)" ∧
    parse "2*sin)" = .error (.unexpectedChar ')' 5) ∧ ReadOrTooDeep "2*sin1".toList ∧
      parse "2*sin)+x" = .error (.unexpectedChar ')' 5) := by
  have hnormal : IsNormal "2*sin)" := ⟨"2*sin)", by decide +kernel⟩
  have hother : IsNormal "2*sin)+x" := ⟨"2*sin)+x", by decide +kernel⟩
  have h : parse "2*sin)" = .error (.unexpectedChar ')' 5) := by decide +kernel
  obtain ⟨hviable, hsettled⟩ := parse_error_earliest _ hnormal _ h
  exact ⟨hnormal, h, hviable.2, hsettled (by decide) _ hother (by decide)⟩

end Formula
