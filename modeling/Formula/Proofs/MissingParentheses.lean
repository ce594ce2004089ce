import Formula.Proofs.OpenGroups
import Formula.Proofs.PlainText
import Formula.Proofs.ReadingFailures
import Formula.Proofs.ReadingLog

/-!
# Missing parentheses

A group may lack its parenthesis at the end of a text, and reading warns of each that does
(`Phrase.Fits.warnings_log`). To write the parentheses there changes nothing but the
warnings, and one more than are missing is an error (`parse_closed_by_hand`) : each
parenthesis closes the innermost open group (`Phrase.Fits.exists_closed`), and behind a
phrase with no open group one is left over.
-/

namespace Formula

/-- The warnings among some events. -/
def Event.warnings (events : List Event) : List Event :=
  events.filter fun event => event.level = .warn

@[simp] theorem Event.warnings_append (events events' : List Event) :
    warnings (events ++ events') = warnings events ++ warnings events' :=
  List.filter_append ..

/-- Of the log of a phrase the warnings are those of its open groups, which all end where the
phrase does. -/
theorem Phrase.Fits.warnings_log : ∀ {p : Phrase} {next : Option Char}, p.Fits next →
    ∀ position : Nat, Event.warnings (p.log position) =
      List.replicate p.openGroups (.unclosedGroup (position + p.text.length))
  | .number _ _, _, _, _ => rfl
  | .name _, _, _, _ => rfl
  | .nameBefore letters dropped, _, h, position => by
    have ih := h.2.2.warnings_log (position + letters.length)
    rw [text, List.length_append, ← Nat.add_assoc, openGroups, ← ih]
    exact (Event.warnings_append _ _).trans (List.append_nil _)
  | .call function argument, _, h, position => by
    rw [text, List.length_append, ← Nat.add_assoc]
    exact h.2.2.warnings_log _
  | .plus inner, _, h, position => by
    rw [text, List.length_cons, Nat.add_comm inner.text.length, ← Nat.add_assoc]
    exact h.2.warnings_log _
  | .minus inner, _, h, position => by
    rw [text, List.length_cons, Nat.add_comm inner.text.length, ← Nat.add_assoc]
    exact h.2.warnings_log _
  | .group inner true, _, h, position => by
    rw [log, openGroups, warnings_log (p := inner) h, h.openGroups_inner]
    rfl
  | .group inner false, _, h, position => by
    have hlength : position + (Phrase.group inner false).text.length =
        position + 1 + inner.text.length := by
      simp only [text, List.length_cons]
      omega
    rw [log, Event.warnings_append, h.2.2.warnings_log, hlength, openGroups, List.replicate_succ']
    rfl
  | .binary op left right, _, h, position => by
    rw [log, Event.warnings_append, h.2.1.warnings_log, h.2.2.2.1.warnings_log,
      add_length_text_binary, openGroups, h.openGroups_left, Nat.zero_add]
    rfl

/-- As many closing parentheses. -/
def closings (count : Nat) : String :=
  String.ofList (List.replicate count ')')

theorem toList_normalize_append_closings (raw : String) (count : Nat) :
    (normalize (raw ++ closings count)).toList =
      (normalize raw).toList ++ List.replicate count ')' := by
  rw [toList_normalize, toList_normalize, String.toList_append, closings, String.toList_ofList,
    normalizeChars_append_closing]

/-- A typed text that is a phrase is read as its tree, with a warning for each open group. -/
theorem Phrase.Stands.parse_eq {p : Phrase} {raw : String} (hp : p.Stands 0 maxDepth none)
    (htext : p.text = (normalize raw).toList) :
    parse raw = .ok p.tree ∧ Event.warnings (Reading.typed raw).events =
      List.replicate p.openGroups (.unclosedGroup p.text.length) := by
  have hread : (Reading.formula p.text).result = .ok p.tree :=
    Reading.result_formula_eq_ok_iff.mpr ⟨p, rfl, rfl, hp.fits, hp.depth_le, hp.peak_le⟩
  refine ⟨(parse_eq_of_text htext).trans hread, ?_⟩
  have hlog : Event.warnings (p.log 0) =
      List.replicate p.openGroups (.unclosedGroup (0 + p.text.length)) := hp.fits.warnings_log 0
  rw [Nat.zero_add] at hlog
  rw [Reading.events_typed htext hp, ← hlog]
  exact (Event.warnings_append _ _).trans (List.append_nil _)

theorem Phrase.Closed.stands {p q : Phrase} {count rank room : Nat} (hq : p.Closed count q)
    (hp : p.Stands rank room none) : q.Stands rank room none :=
  ⟨hq.rank_eq ▸ hp.rank_le, hq.fits, hq.depth_eq ▸ hp.depth_le, hq.peak_eq ▸ hp.peak_le⟩

theorem Phrase.Closed.length_eq {p q : Phrase} {count : Nat} (hq : p.Closed count q) :
    q.text.length = p.text.length + count := by
  rw [hq.text_eq, List.length_append, List.length_replicate]

/-- A parenthesis for an open group takes its warning away and leaves the tree as it is. -/
theorem Phrase.Stands.parse_closings {p : Phrase} {raw : String} (hp : p.Stands 0 maxDepth none)
    (htext : p.text = (normalize raw).toList) {count : Nat} (hcount : count ≤ p.openGroups) :
    parse (raw ++ closings count) = .ok p.tree ∧
      Event.warnings (Reading.typed (raw ++ closings count)).events =
        List.replicate (p.openGroups - count) (.unclosedGroup (p.text.length + count)) := by
  obtain ⟨q, hq⟩ := hp.fits.exists_closed hcount
  have hnormal : q.text = (normalize (raw ++ closings count)).toList := by
    rw [hq.text_eq, htext, toList_normalize_append_closings]
  have hopen : q.openGroups = p.openGroups - count := Nat.eq_sub_of_add_eq hq.openGroups_eq
  have hread := (hq.stands hp).parse_eq hnormal
  rwa [hq.tree_eq, hopen, hq.length_eq] at hread

/-- With all its groups closed a phrase ends in front of one more parenthesis. -/
theorem Phrase.Stands.parse_closings_succ {p : Phrase} {raw : String}
    (hp : p.Stands 0 maxDepth none) (htext : p.text = (normalize raw).toList) :
    parse (raw ++ closings (p.openGroups + 1)) =
      .error (.trailingInput ')' (p.text.length + p.openGroups)) := by
  obtain ⟨q, hq⟩ := hp.fits.exists_closed (Nat.le_refl p.openGroups)
  have hstands := hq.stands hp
  have hzero : q.openGroups = 0 := by
    have := hq.openGroups_eq
    omega
  have hbefore : q.Stands 0 maxDepth (some ')') :=
    ⟨Nat.zero_le _, hq.fits.before_closing hzero, hstands.depth_le, hstands.peak_le⟩
  have hnormal : (normalize (raw ++ closings (p.openGroups + 1))).toList = q.text ++ [')'] := by
    rw [toList_normalize_append_closings, ← htext, hq.text_eq, List.append_assoc,
      List.replicate_succ']
  rw [parse_eq_result_formula, hnormal]
  exact Reading.result_formula_eq_error_iff.mpr
    (.inr ⟨q, ')', [], rfl, hbefore, stops_closing 0, by rw [hq.length_eq]⟩)

/-- The parentheses that a formula lacks are missing at its end, and reading warns of each of
them there. To write them changes nothing else, and to write one more is an error. -/
theorem parse_closed_by_hand (raw : String) (tree : Expr) (h : parse raw = .ok tree) :
    ∃ excess : Nat, Nested (normalize raw).toList excess ∧
      Event.warnings (Reading.typed raw).events =
        List.replicate excess (.unclosedGroup (normalize raw).toList.length) ∧
      (∀ count ≤ excess, parse (raw ++ closings count) = .ok tree ∧
        Event.warnings (Reading.typed (raw ++ closings count)).events =
          List.replicate (excess - count)
            (.unclosedGroup ((normalize raw).toList.length + count))) ∧
      parse (raw ++ closings (excess + 1)) =
        .error (.trailingInput ')' ((normalize raw).toList.length + excess)) := by
  rw [parse_eq_result_formula] at h
  obtain ⟨p, htext, rfl, hfits, hdepth, hpeak⟩ := Reading.result_formula_eq_ok_iff.mp h
  have hp : p.Stands 0 maxDepth none := ⟨Nat.zero_le _, hfits, hdepth, hpeak⟩
  rw [← htext]
  exact ⟨p.openGroups, hfits.nested, (hp.parse_eq htext).2,
    fun _ hcount => hp.parse_closings htext hcount, hp.parse_closings_succ htext⟩

/-- In `x*(y/sin(z` two parentheses are missing, and a third one is left over. -/
theorem parse_closed_by_hand_nested :
    parse "x*(y/sin(z" = .ok (.binary .multiply (.var "x")
      (.binary .divide (.var "y") (.call .sin (.var "z")))) ∧
    Event.warnings (Reading.typed "x*(y/sin(z").events =
      [.unclosedGroup 10, .unclosedGroup 10] ∧
    parse "x*(y/sin(z))" = parse "x*(y/sin(z" ∧
    parse "x*(y/sin(z)))" = .error (.trailingInput ')' 12) := by
  have h : parse "x*(y/sin(z" = .ok (.binary .multiply (.var "x")
      (.binary .divide (.var "y") (.call .sin (.var "z")))) := by decide +kernel
  obtain ⟨excess, hnested, hwarnings, hclosed, hmore⟩ := parse_closed_by_hand _ _ h
  have hnormal : (normalize "x*(y/sin(z").toList = "x*(y/sin(z".toList := by decide +kernel
  rw [hnormal] at hnested hwarnings hmore
  obtain rfl : 2 = excess := Nat.add_left_cancel hnested.count_eq
  exact ⟨h, hwarnings, (hclosed 2 (Nat.le_refl 2)).1.trans h.symm, hmore⟩

end Formula
