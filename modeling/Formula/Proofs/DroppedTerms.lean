import Formula.Proofs.Agreement
import Formula.Proofs.OpenGroups

/-!
# What follows a variable

A formula in parentheses may stand behind a variable. It is read and dropped, and no trace of it
is left : with another formula in the parentheses the text is read as the same tree, or refused
for the same reason, unless one of the two texts nests too deeply (`parse_dropped_group`).

Wherever such a group stands it is read up to its end (`Reading.passes_group`), because it is a
phrase that fits in front of anything. And a name that does not go on from the text in front of
it is a token of its own, so the tokens of the two texts are the same but for the group
(`sameButDropped_scan`).
-/

namespace Formula

/-- A closed group is read up to its end wherever it stands, unless reading is too deep. -/
theorem Reading.passes_group {p : Phrase} (h : p.Fits (some ')')) :
    Passes (Phrase.group p true).text := by
  intro room position rest
  have hfits : (Phrase.group p true).Fits rest.head? := h
  by_cases hlimits : (Phrase.group p true).Within room
  · have hstands : (Phrase.group p true).Stands 3 room rest.head? :=
      hlimits.stands (Nat.le_refl 3) hfits
    have hyields : (required (term room) (.of position ((Phrase.group p true).text ++ rest))).Yields
        (Phrase.group p true).tree (.of _ rest) :=
      (exact_term room).yields hstands (stops_three _) rfl
    obtain ⟨q, hq, -, hnext⟩ := yields_required_iff.mp hyields
    exact .inr ⟨q, hq, congrArg Cursor.tokens hnext⟩
  · obtain ⟨place, hblocked⟩ :=
      Phrase.blocked_of_not_within _ (Nat.le_refl 3) hfits hlimits
    exact .inl ⟨place, (refusesTerm room _ _ _).mpr hblocked⟩

/-- A name with a text in parentheses behind it, between two other texts. -/
def withGroup (before name inner behind : String) : String :=
  before ++ name ++ "(" ++ inner ++ ")" ++ behind

variable {before name behind : String}

/-- The name is one of a variable that does not go on from the text before it, and the texts
around it are in normal form. -/
structure IsSlot (before name behind : String) : Prop where
  before_normal : IsNormal before
  behind_normal : IsNormal behind
  not_ends : ∀ c ∈ before.toList.getLast?, isAlphabetic c = false
  ne_nil : name.toList ≠ []
  letters : ∀ c ∈ name.toList, isAlphabetic c = true
  not_builtin : Builtin.ofName? name = none

theorem toList_normalize_withGroup (h : IsSlot before name behind) {inner : String} {p : Phrase}
    (hp : p.text = normalizeChars inner.toList) :
    (normalize (withGroup before name inner behind)).toList =
      before.toList ++ (name.toList ++ ((Phrase.group p true).text ++ behind.toList)) := by
  have hfront : ∀ c ∈ before.toList ++ name.toList, IsPlain c :=
    List.forall_mem_append.mpr ⟨isNormal_iff.mp h.before_normal,
      fun c hc => isPlain_of_isAlphabetic (h.letters c hc)⟩
  have htext : (withGroup before name inner behind).toList =
      (before.toList ++ name.toList) ++ '(' :: (inner.toList ++ ')' :: behind.toList) := by
    simp [withGroup]
  rw [toList_normalize, htext, normalizeChars_append_cons isPlain_opening isAlphabetic_opening,
    normalizeChars_append_cons isPlain_closing isAlphabetic_closing,
    normalizeChars_of_isPlain hfront, normalizeChars_of_isPlain (isNormal_iff.mp h.behind_normal),
    Phrase.text, hp]
  simp

theorem sameButDropped_scan (h : IsSlot before name behind) {p q : Phrase}
    (hp : p.Fits (some ')')) (hq : q.Fits (some ')')) :
    SameButDropped
      (Token.scan (before.toList ++ (name.toList ++ ((Phrase.group p true).text ++ behind.toList))))
      (Token.scan
        (before.toList ++ (name.toList ++ ((Phrase.group q true).text ++ behind.toList)))) := by
  obtain ⟨first, more, hname⟩ := List.exists_cons_of_ne_nil h.ne_nil
  have hletters := h.letters
  rw [hname] at hletters
  have hhead (rest : List Char) : ∀ d ∈ (first :: more ++ rest).head?, isNumeral d = false := by
    rintro d ⟨⟩
    exact isNumeral_eq_false_of_isAlphabetic (hletters first List.mem_cons_self)
  have hrun (p : Phrase) :
      IsRun isAlphabetic (first :: more) ((Phrase.group p true).text ++ behind.toList).head? := by
    refine ⟨List.cons_ne_nil _ _, hletters, ?_⟩
    rintro d ⟨⟩
    exact isAlphabetic_opening
  rw [hname, Token.scan_append (hhead _) h.not_ends, Token.scan_append (hhead _) h.not_ends,
    Token.scan_word (hrun p), Token.scan_word (hrun q)]
  refine SameButDropped.append (.dropped ?_ (Reading.passes_group hp) (Reading.passes_group hq)
    (.refl _)) _
  rw [← hname, String.ofList_toList, h.not_builtin]

/-- What is dropped behind a variable leaves no trace : with another closed formula in its place
the text is read as the same tree, or refused for the same reason. -/
theorem parse_dropped_group (before name behind inner inner' : String)
    (hslot : IsSlot before name behind) (hinner : IsClosedFormula inner)
    (hinner' : IsClosedFormula inner')
    (hdeep : ∀ place, parse (withGroup before name inner behind) ≠ .error (.tooDeep place))
    (hdeep' : ∀ place, parse (withGroup before name inner' behind) ≠ .error (.tooDeep place)) :
    (∃ tree, parse (withGroup before name inner behind) = .ok tree ∧
      parse (withGroup before name inner' behind) = .ok tree) ∨
    ∃ e e', parse (withGroup before name inner behind) = .error e ∧
      parse (withGroup before name inner' behind) = .error e' ∧ e.SameKind e' := by
  obtain ⟨p, hp, hfits⟩ := hinner.exists_phrase
  obtain ⟨q, hq, hfits'⟩ := hinner'.exists_phrase
  have hagrees := Reading.agrees_formula (sameButDropped_scan hslot hfits hfits')
  rw [← toList_normalize_withGroup hslot hp, ← toList_normalize_withGroup hslot hq,
    ← parse_eq_result_formula, ← parse_eq_result_formula] at hagrees
  generalize parse (withGroup before name inner behind) = r at *
  generalize parse (withGroup before name inner' behind) = s at *
  cases hagrees with
  | ok h => exact .inl ⟨_, rfl, h ▸ rfl⟩
  | error h => exact .inr ⟨_, _, rfl, rfl, h⟩
  | deepLeft place => exact absurd rfl (hdeep place)
  | deepRight _ place => exact absurd rfl (hdeep' place)

/-- It makes no difference whether the rate is followed by a sum or by a call. -/
theorem parse_dropped_group_rate :
    parse "2*rate(1+2)^3" = .ok (.binary .multiply (.constant (Float.ofScientific 2 true 0))
      (.binary .power (.var "rate") (.constant (Float.ofScientific 3 true 0)))) ∧
    parse "2*rate(sin(y)/3)^3" = parse "2*rate(1+2)^3" := by
  have hlast : "2*".toList.getLast? = some Operator.multiply.symbol := by decide
  have hletters : "rate".toList.all Char.isLower = true := by decide
  have hslot : IsSlot "2*" "rate" "^3" := by
    refine ⟨⟨"2*", by decide +kernel⟩, ⟨"^3", by decide +kernel⟩, ?_, by decide,
      fun c hc => isAlphabetic_of_isLower (List.all_eq_true.mp hletters c hc), by decide⟩
    rw [hlast]
    rintro c ⟨⟩
    exact Operator.isAlphabetic_symbol _
  have hsum : IsClosedFormula "1+2" :=
    ⟨⟨.binary .add (.constant (Float.ofScientific 1 true 0))
      (.constant (Float.ofScientific 2 true 0)), by decide +kernel⟩, by decide⟩
  have hcall : IsClosedFormula "sin(y)/3" :=
    ⟨⟨.binary .divide (.call .sin (.var "y")) (.constant (Float.ofScientific 3 true 0)),
      by decide +kernel⟩, by decide⟩
  have hread : parse "2*rate(1+2)^3" = .ok (.binary .multiply
      (.constant (Float.ofScientific 2 true 0))
      (.binary .power (.var "rate") (.constant (Float.ofScientific 3 true 0)))) := by
    decide +kernel
  have hread' : ∀ place, parse "2*rate(sin(y)/3)^3" ≠ .error (.tooDeep place) := by
    intro place h
    have hok : (parse "2*rate(sin(y)/3)^3").isOk = true := by decide +kernel
    rw [h] at hok
    cases hok
  refine ⟨hread, ?_⟩
  obtain ⟨tree, h, h'⟩ | ⟨e, _, h, -⟩ :=
    parse_dropped_group "2*" "rate" "^3" "1+2" "sin(y)/3" hslot hsum hcall
      (fun place h => nomatch hread.symm.trans h) hread'
  · exact h'.trans h.symm
  · cases hread.symm.trans h

end Formula
