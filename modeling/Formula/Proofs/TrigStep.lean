import Formula.Proofs.Graph
import Formula.Proofs.OnePass
import Formula.Proofs.Origins

/-!
# The step of a trigonometric graph

The step of a graph is chosen by the typed text, before it is read : by whether the letters of
`sin`, `cos` or `tan` stand in it. The tree comes from the normal form, where a call is a run of
letters that is maximal. `trig_step_of_call` says that no call of one of these functions, or of
one of their inverses, is missed.

The run of a call is traced back in two steps. The normal form is cut at the ends of the run,
and so is the text that one pass made it from (`exists_of_replaceGlyphs_eq_append`). The letters
that stand for the square root are never taken apart by that, so the run has all of them or
none, and without them it stands in the text as it is. Then the blanks are put back. They might
come between two letters of the run, which is why no word may be split by blanks (`SplitsWord`).
-/

namespace Formula

/-! ## Runs of letters in a normal form -/

/-- Only the square root becomes more than one character. -/
theorem glyphText_eq_singleton {c : Char} (h : c ≠ '√') : ∃ d, glyphText c = [d] := by
  unfold glyphText
  split
  · exact absurd rfl h
  all_goals exact ⟨_, rfl⟩

/-- A cut through what a character becomes has letters on both sides. -/
theorem isAlphabetic_of_cut {c : Char} {before after : List Char}
    (h : glyphText c = before ++ after) (hbefore : before ≠ []) (hafter : after ≠ []) :
    (∀ d ∈ before, isAlphabetic d = true) ∧ ∀ d ∈ after, isAlphabetic d = true := by
  by_cases hc : c = '√'
  · subst hc
    have hletters : ∀ d ∈ glyphText '√', isAlphabetic d = true := fun d hd =>
      isAlphabetic_of_isLower (List.all_eq_true.mp (by decide) d hd)
    rw [h] at hletters
    exact List.forall_mem_append.mp hletters
  · obtain ⟨d, hd⟩ := glyphText_eq_singleton hc
    rw [hd] at h
    obtain ⟨rfl, -⟩ | ⟨-, rfl⟩ := List.append_eq_singleton_iff.mp h.symm
    · exact absurd rfl hbefore
    · exact absurd rfl hafter

/-- A cut where no two letters meet does not go through what a character becomes. -/
theorem eq_nil_of_cut {c : Char} {before after rest : List Char}
    (h : glyphText c = before ++ after)
    (hcut : (∀ d ∈ before.getLast?, isAlphabetic d = false) ∨
      ∀ d ∈ (after ++ rest).head?, isAlphabetic d = false) : before = [] ∨ after = [] := by
  by_contra hne
  obtain ⟨hbefore, hafter⟩ := not_or.mp hne
  obtain ⟨hletters, hletters'⟩ := isAlphabetic_of_cut h hbefore hafter
  obtain ⟨d, after, rfl⟩ := List.exists_cons_of_ne_nil hafter
  obtain hlast | hhead := hcut
  · have := hlast _ (List.getLast_mem_getLast? hbefore)
    rw [hletters _ (List.getLast_mem hbefore)] at this
    cases this
  · have := hhead d rfl
    rw [hletters' d List.mem_cons_self] at this
    cases this

/-- A normal form that is cut where no two letters meet comes from two texts. -/
theorem exists_of_replaceGlyphs_eq_append {text before rest : List Char}
    (h : replaceGlyphs text = before ++ rest)
    (hcut : (∀ c ∈ before.getLast?, isAlphabetic c = false) ∨
      ∀ c ∈ rest.head?, isAlphabetic c = false) :
    ∃ text₁ text₂, text = text₁ ++ text₂ ∧ replaceGlyphs text₁ = before ∧
      replaceGlyphs text₂ = rest := by
  fun_induction replaceGlyphs text generalizing before with
  | case1 text ih =>
    obtain ⟨rfl, rfl⟩ | ⟨before, rfl, hrest⟩ := List.cons_eq_append_iff.mp h
    · exact ⟨[], _, rfl, rfl, rfl⟩
    obtain ⟨text₁, text₂, rfl, rfl, rfl⟩ := ih hrest (hcut.imp_left fun hlast c hc =>
      hlast c (List.mem_getLast?_cons hc))
    exact ⟨'ⁿ' :: '√' :: 'x' :: text₁, text₂, rfl, rfl, rfl⟩
  | case2 c text hne ih =>
    obtain ⟨before, rfl, hrest⟩ | ⟨after, hglyph, rfl⟩ := List.append_eq_append_iff.mp h
    · obtain ⟨text₁, text₂, rfl, rfl, rfl⟩ := ih hrest (hcut.imp_left fun hlast d hd =>
        hlast d (by rw [List.getLast?_append, Option.mem_def.mp hd]; rfl))
      refine ⟨c :: text₁, text₂, rfl, replaceGlyphs_cons fun rest hc htext => ?_, rfl⟩
      exact hne (rest ++ text₂) hc (by rw [htext]; rfl)
    obtain rfl | rfl := eq_nil_of_cut hglyph hcut
    · rw [List.nil_append] at hglyph
      exact ⟨[], c :: text, rfl, rfl, by rw [replaceGlyphs_cons hne, hglyph]⟩
    · have halone : replaceGlyphs [c] = glyphText c ++ replaceGlyphs [] :=
        replaceGlyphs_cons fun _ _ hnil => absurd hnil.symm (List.cons_ne_nil _ _)
      rw [List.append_nil] at hglyph
      exact ⟨[c], text, rfl, by rw [halone, hglyph]; exact List.append_nil _, rfl⟩
  | case3 =>
    obtain ⟨rfl, rfl⟩ := List.nil_eq_append_iff.mp h
    exact ⟨[], [], rfl, rfl, rfl⟩

/-- Letters without those of the square root stand for themselves. -/
theorem replaceGlyphs_eq_self {text : List Char}
    (h : ∀ c ∈ replaceGlyphs text, isAlphabetic c = true ∧ c ≠ 'q') :
    replaceGlyphs text = text := by
  fun_induction replaceGlyphs text with
  | case1 text ih => exact absurd (h '@' List.mem_cons_self).1 (by decide +kernel)
  | case2 c text hne ih =>
    obtain ⟨hfirst, hrest⟩ := List.forall_mem_append.mp h
    rw [ih hrest]
    unfold glyphText at hfirst ⊢
    split at hfirst
    · exact absurd rfl (hfirst 'q' (by simp)).2
    · exact absurd (hfirst '*' (by simp)).1 (by decide +kernel)
    · exact absurd (hfirst '/' (by simp)).1 (by decide +kernel)
    · rfl
  | case3 => rfl

/-- A maximal run of letters of a normal form stands in the text without blanks, unless the
letters of the square root are among them. -/
theorem RunAt.isInfix_of_replaceGlyphs {text run : List Char} {position : Nat}
    (h : RunAt isAlphabetic (replaceGlyphs text) run position) (hroot : 'q' ∉ run) :
    run <:+: text := by
  obtain ⟨before, after, htext, -, hbefore, -, hletters, hafter⟩ := h
  obtain ⟨text₁, rest, rfl, -, hrest⟩ := exists_of_replaceGlyphs_eq_append htext (.inl hbefore)
  obtain ⟨text₂, text₃, rfl, rfl, -⟩ := exists_of_replaceGlyphs_eq_append hrest (.inr hafter)
  have hself : replaceGlyphs text₂ = text₂ := replaceGlyphs_eq_self fun c hc =>
    ⟨hletters c hc, fun hq => hroot (hq ▸ hc)⟩
  rw [hself]
  exact ⟨text₁, text₃, List.append_assoc _ _ _⟩

/-! ## Words and blanks -/

/-- Blanks stand between two letters of the text. -/
def SplitsWord (text : List Char) : Prop :=
  ∃ before c blanks d after, text = before ++ c :: (blanks ++ d :: after) ∧ blanks ≠ [] ∧
    (∀ b ∈ blanks, isBlank b = true) ∧ isAlphabetic c = true ∧ isAlphabetic d = true

theorem not_splitsWord_nil : ¬SplitsWord [] := by
  rintro ⟨before, c, blanks, d, after, h, -⟩
  exact List.append_ne_nil_of_right_ne_nil before (List.cons_ne_nil c _) h.symm

/-- The blanks stand right behind the first letter, or further on. -/
theorem splitsWord_cons_iff {c : Char} {text : List Char} :
    SplitsWord (c :: text) ↔
      (isAlphabetic c = true ∧ text.head?.any isBlank = true ∧
        (text.dropWhile isBlank).head?.any isAlphabetic = true) ∨ SplitsWord text := by
  rw [Option.any_eq_true, Option.any_eq_true]
  refine ⟨?_, ?_⟩
  · rintro ⟨before, c', blanks, d, after, h, hne, hblanks, hc, hd⟩
    obtain ⟨rfl, h⟩ | ⟨before, rfl, rfl⟩ := List.cons_eq_append_iff.mp h
    · obtain ⟨rfl, rfl⟩ := List.cons_eq_cons.mp h
      obtain ⟨b, blanks, rfl⟩ := List.exists_cons_of_ne_nil hne
      refine .inl ⟨hc, ⟨b, rfl, hblanks b List.mem_cons_self⟩, d, ?_, hd⟩
      rw [List.dropWhile_append_of_pos hblanks, List.dropWhile_cons_of_neg]
      · rfl
      · simp [isBlank_eq_false_of_isAlphabetic hd]
    · exact .inr ⟨before, c', blanks, d, after, rfl, hne, hblanks, hc, hd⟩
  · rintro (⟨hc, ⟨b, hb, hblank⟩, d, hd, hletter⟩ | ⟨before, c', blanks, d, after, rfl, h⟩)
    · obtain ⟨text, rfl⟩ := List.head?_eq_some_iff.mp hb
      obtain ⟨after, hafter⟩ := List.head?_eq_some_iff.mp hd
      refine ⟨[], c, (b :: text).takeWhile isBlank, d, after, ?_, ?_, ?_, hc, hletter⟩
      · rw [← hafter, List.takeWhile_append_dropWhile, List.nil_append]
      · rw [List.takeWhile_cons_of_pos hblank]
        exact List.cons_ne_nil _ _
      · exact fun b hb => List.mem_takeWhile_imp hb
    · exact ⟨c :: before, c', blanks, d, after, rfl, h⟩

instance decidableSplitsWord : DecidablePred SplitsWord
  | [] => isFalse not_splitsWord_nil
  | _ :: text =>
    have : Decidable (SplitsWord text) := decidableSplitsWord text
    decidable_of_iff' _ splitsWord_cons_iff

theorem SplitsWord.of_suffix {text text' : List Char} (h : SplitsWord text)
    (hsuffix : text <:+ text') : SplitsWord text' := by
  obtain ⟨front, rfl⟩ := hsuffix
  obtain ⟨before, c, blanks, d, after, rfl, h⟩ := h
  exact ⟨front ++ before, c, blanks, d, after, (List.append_assoc _ _ _).symm, h⟩

/-- Where no word is split, the letters that follow a letter when the blanks are left out follow
it in the text. -/
theorem isPrefix_of_withoutBlanks {run after : List Char}
    (hrun : ∀ d ∈ run, isAlphabetic d = true) :
    ∀ {c : Char} {text : List Char}, ¬SplitsWord (c :: text) → isAlphabetic c = true →
      withoutBlanks text = run ++ after → run <+: text := by
  induction run with
  | nil => exact fun _ _ _ => List.nil_prefix
  | cons d run ih =>
    intro c text hwords hc htext
    obtain ⟨hd, hrun⟩ := List.forall_mem_cons.mp hrun
    obtain ⟨blanks, text, rfl, hblanks, -, hrest⟩ := List.filter_eq_cons_iff.mp htext
    have hnone : blanks = [] := by
      by_contra hne
      refine hwords ⟨[], c, blanks, d, text, rfl, hne, fun b hb => ?_, hc, hd⟩
      simpa using hblanks b hb
    subst hnone
    have hwords : ¬SplitsWord (d :: text) := fun h => hwords (h.of_suffix (List.suffix_cons c _))
    obtain ⟨rest, rfl⟩ := ih hrun hwords hd hrest
    exact ⟨rest, rfl⟩

/-- Where no word is split, a run of letters that stands in the text without blanks stands in the
text. -/
theorem isInfix_of_withoutBlanks {run text : List Char} (hrun : ∀ c ∈ run, isAlphabetic c = true)
    (hwords : ¬SplitsWord text) (h : run <:+: withoutBlanks text) : run <:+: text := by
  obtain ⟨before, after, h⟩ := h
  rw [List.append_assoc] at h
  obtain ⟨text₁, text₂, rfl, -, h⟩ := List.filter_eq_append_iff.mp h.symm
  cases run with
  | nil => exact List.nil_infix
  | cons c run =>
    obtain ⟨hc, hrun⟩ := List.forall_mem_cons.mp hrun
    obtain ⟨blanks, text, rfl, -, -, h⟩ := List.filter_eq_cons_iff.mp h
    have hwords : ¬SplitsWord (c :: text) := fun hsplit =>
      hwords (hsplit.of_suffix ((List.suffix_append blanks _).trans (List.suffix_append text₁ _)))
    obtain ⟨rest, rfl⟩ := isPrefix_of_withoutBlanks hrun hwords hc h
    exact ⟨text₁ ++ blanks, rest, by simp⟩

/-! ## Calls and mentions -/

theorem dropStart?_isSome_iff {start text : List Char} :
    (dropStart? start text).isSome = true ↔ start <+: text := by
  rw [Option.isSome_iff_exists]
  exact exists_congr fun rest => dropStart?_eq_some_iff.trans eq_comm

theorem occursIn_iff {part text : List Char} : occursIn part text = true ↔ part <:+: text := by
  induction text with
  | nil => rw [occursIn, List.isEmpty_iff, List.infix_nil]
  | cons c text ih =>
    rw [occursIn, Bool.or_eq_true, dropStart?_isSome_iff, ih, List.infix_cons_iff]

/-- The functions for which a graph takes the trigonometric step : those whose names have the
letters that a typed text is searched for. -/
def Builtin.trigonometric : List Builtin :=
  [sin, cos, tan, asin, acos, atan]

/-- The name of a trigonometric function has the letters of one that is looked for. They are
small, and those of the square root are not among them. -/
theorem Builtin.exists_isInfix_name {f : Builtin} (h : f ∈ trigonometric) :
    'q' ∉ f.name.toList ∧ ∃ part ∈ [['s', 'i', 'n'], ['c', 'o', 's'], ['t', 'a', 'n']],
      part.map Char.toLower = part ∧ part <:+: f.name.toList := by
  revert h
  revert f
  decide

/-- A name that stands in a typed text in small letters is a mention. -/
theorem SampleRange.mentionsTrig_of_isInfix {raw : String} {f : Builtin}
    (hf : f ∈ Builtin.trigonometric) (h : f.name.toList <:+: raw.toList) :
    mentionsTrig raw = true := by
  obtain ⟨-, part, hpart, hlower, hname⟩ := Builtin.exists_isInfix_name hf
  have hmention : part <:+: raw.toList.map Char.toLower := by
    rw [← hlower]
    exact (hname.trans h).map Char.toLower
  exact List.any_eq_true.mpr ⟨part, hpart, occursIn_iff.mpr hmention⟩

/-- A call in a tree is one of its items. -/
theorem Expr.call_mem_items {f : Builtin} {argument e : Expr} (h : .call f argument ∈ e.subtrees) :
    .call f ∈ e.items := by
  induction e with
  | constant value => cases List.mem_singleton.mp h
  | var name => cases List.mem_singleton.mp h
  | negate inner ih =>
    obtain h | h := List.mem_cons.mp h
    · cases h
    · exact ih h
  | call g argument' ih =>
    obtain h | h := List.mem_cons.mp h
    · cases h
      exact List.mem_cons_self
    · exact List.mem_cons_of_mem _ (ih h)
  | binary op left right ihl ihr =>
    obtain h | h := List.mem_cons.mp h
    · cases h
    · obtain h | h := List.mem_append.mp h
      · exact List.mem_append_left _ (ihl h)
      · exact List.mem_append_right _ (ihr h)

/-- The function of a call is named in the typed text, if no word is split and its name has not
the letters of the square root. -/
theorem isInfix_name_of_call {raw : String} {tree : Expr} (hwords : ¬SplitsWord raw.toList)
    (hparse : parse raw = .ok tree) {f : Builtin} {argument : Expr}
    (hcall : .call f argument ∈ tree.subtrees) (hroot : 'q' ∉ f.name.toList) :
    f.name.toList <:+: raw.toList := by
  obtain ⟨position, hrun, -⟩ := exists_writtenAt hparse (Expr.call_mem_items hcall)
  obtain ⟨-, -, -, -, -, -, hletters, -⟩ := id hrun
  rw [toList_normalize, normalizeChars_eq_replaceGlyphs] at hrun
  exact isInfix_of_withoutBlanks hletters hwords (hrun.isInfix_of_replaceGlyphs hroot)

/-- Where no word is split by blanks, a text whose tree calls a trigonometric function is sampled
with the trigonometric step, and after every session its graph has the samples of the tree at
the points of that range. -/
theorem trig_step_of_call (config : Config) {raw : String} {tree : Expr}
    (hwords : ¬SplitsWord raw.toList) (hparse : parse raw = .ok tree) {f : Builtin}
    (hf : f ∈ Builtin.trigonometric) {argument : Expr}
    (hcall : .call f argument ∈ tree.subtrees) :
    SampleRange.forText raw config =
      SampleRange.of config.xMin config.xMax config.trigStep ∧
    (∀ calls fault, SampleRange.of config.xMin config.xMax config.trigStep = .error fault →
      Calculator.graphAfter config calls raw = .error (.range fault)) ∧
    ∀ calls range, SampleRange.of config.xMin config.xMax config.trigStep = .ok range →
      range.step = config.trigStep ∧ Calculator.graphAfter config calls raw =
        .ok ((List.range range.size).map (Sampling.ofGraph config tree range).sampleAt).toArray := by
  have hroot := (Builtin.exists_isInfix_name hf).1
  have hmention : SampleRange.mentionsTrig raw = true :=
    SampleRange.mentionsTrig_of_isInfix hf (isInfix_name_of_call hwords hparse hcall hroot)
  have hrange : SampleRange.forText raw config =
      SampleRange.of config.xMin config.xMax config.trigStep := by
    rw [SampleRange.forText, if_pos hmention]
  refine ⟨hrange, fun calls fault hfault => ?_, fun calls range hok => ⟨?_, ?_⟩⟩
  · rw [Calculator.graphAfter_eq, hparse]
    exact Calculator.directSamples_eq_range_error_iff.mpr (hrange.trans hfault)
  · exact (SampleRange.of_eq_ok_iff.mp hok).2.2
  · rw [Calculator.graphAfter_eq, hparse, Calculator.directSamples_of_range (hrange.trans hok)]

/-- The sine is found in the name of its inverse, among a glyph and blanks. -/
theorem trig_step_of_call_inverse :
    ¬SplitsWord "2 × asin( x )".toList ∧
    parse "2 × asin( x )" = .ok (.binary .multiply
      (.constant (Float.ofScientific 2 true 0)) (.call .asin (.var "x"))) ∧
    SampleRange.forText "2 × asin( x )" .standard =
      SampleRange.of Config.standard.xMin Config.standard.xMax Config.standard.trigStep := by
  have hwords : ¬SplitsWord "2 × asin( x )".toList := by decide +kernel
  have hparse : parse "2 × asin( x )" = .ok (.binary .multiply
      (.constant (Float.ofScientific 2 true 0)) (.call .asin (.var "x"))) := by
    decide +kernel
  have hcall : .call .asin (.var "x") ∈ (Expr.binary .multiply
      (.constant (Float.ofScientific 2 true 0)) (.call .asin (.var "x"))).subtrees := by
    simp [Expr.subtrees]
  exact ⟨hwords, hparse, (trig_step_of_call .standard hwords hparse (by decide) hcall).1⟩

end Formula
