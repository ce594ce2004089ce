import Formula.Proofs.PlainText
import Formula.Proofs.ReadingGrammar

/-!
# Normal forms in one pass

`normalize` drops the blanks and then replaces the glyphs kind after kind, each in the whole
text. `replaceGlyphs` goes through a text once, from the left, and replaces each glyph where it
stands. Both come to the same (`normalizeChars_eq_replaceGlyphs`) : only the glyph for a root of
any degree contains another one, it is looked for first, and nothing that is put in is a glyph.

So texts are replaced apart, unless the pieces of a glyph come together at their border
(`replaceGlyphs_append_iff`). `normalize_one_pass` is the result for typed texts.
-/

namespace Formula

/-- What a character becomes that is no part of the glyph for a root of any degree. -/
def glyphText : Char → List Char
  | '√' => ['s', 'q', 'r', 't']
  | '×' => ['*']
  | '÷' => ['/']
  | c => [c]

/-- Replace the glyphs in one pass from the left. -/
def replaceGlyphs : List Char → List Char
  | 'ⁿ' :: '√' :: 'x' :: text => '@' :: replaceGlyphs text
  | c :: text => glyphText c ++ replaceGlyphs text
  | [] => []

/-- The characters of a text that are no blanks. -/
def withoutBlanks (text : List Char) : List Char :=
  text.filter fun c => !isBlank c

/-! ## One pass and one pass for each kind of glyph -/

/-- A single character is replaced where it stands. -/
theorem replaceAll_eq_flatMap (first : Char) (new text : List Char) :
    replaceAll first [] new text = text.flatMap fun c => if c = first then new else [c] := by
  fun_induction replaceAll first [] new text with
  | case1 => rfl
  | case2 text rest hrest ih =>
    obtain rfl : text = rest := dropStart?_eq_some_iff.mp hrest
    rw [List.flatMap_cons, if_pos rfl, ih]
  | case3 text hrest => cases hrest
  | case4 c text hc ih => rw [List.flatMap_cons, if_neg hc, ih, List.singleton_append]

/-- The glyph at the front of a text is replaced. -/
theorem replaceAll_degree_glyph (text : List Char) :
    replaceAll 'ⁿ' ['√', 'x'] ['@'] ('ⁿ' :: '√' :: 'x' :: text) =
      '@' :: replaceAll 'ⁿ' ['√', 'x'] ['@'] text := by
  have hdrop : dropStart? ['√', 'x'] ('√' :: 'x' :: text) = some text :=
    dropStart?_eq_some_iff.mpr rfl
  rw [replaceAll, if_pos rfl]
  split
  next rest hrest =>
    obtain rfl := Option.some.inj (hdrop.symm.trans hrest)
    rfl
  next hnone => cases hdrop.symm.trans hnone

/-- A text that does not begin with the glyph keeps its first character. -/
theorem replaceAll_degree_cons {c : Char} {text : List Char}
    (h : ∀ rest, c = 'ⁿ' → text = '√' :: 'x' :: rest → False) :
    replaceAll 'ⁿ' ['√', 'x'] ['@'] (c :: text) =
      c :: replaceAll 'ⁿ' ['√', 'x'] ['@'] text := by
  rw [replaceAll]
  split_ifs with hc
  · split
    next rest hrest => exact (h rest hc (dropStart?_eq_some_iff.mp hrest)).elim
    · rfl
  · rfl

/-- So does the single pass, if the character is no glyph. -/
theorem replaceGlyphs_cons {c : Char} {text : List Char}
    (h : ∀ rest, c = 'ⁿ' → text = '√' :: 'x' :: rest → False) :
    replaceGlyphs (c :: text) = glyphText c ++ replaceGlyphs text :=
  replaceGlyphs.eq_2 c text h

theorem replaceGlyphs_eq_flatMap (text : List Char) :
    replaceGlyphs text = (replaceAll 'ⁿ' ['√', 'x'] ['@'] text).flatMap glyphText := by
  fun_induction replaceGlyphs text with
  | case1 text ih =>
    rw [replaceAll_degree_glyph, List.flatMap_cons, ih]
    rfl
  | case2 c text h ih => rw [replaceAll_degree_cons h, List.flatMap_cons, ih]
  | case3 => rw [replaceAll, List.flatMap_nil]

/-- What one kind of glyph becomes is no glyph of another kind. -/
theorem flatMap_glyphs (c : Char) :
    (((if c = '√' then ['s', 'q', 'r', 't'] else [c]).flatMap fun c =>
      if c = '×' then ['*'] else [c]).flatMap fun c => if c = '÷' then ['/'] else [c]) =
        glyphText c := by
  by_cases hradical : c = '√'
  · subst hradical
    rfl
  by_cases htimes : c = '×'
  · subst htimes
    rfl
  by_cases hdivided : c = '÷'
  · subst hdivided
    rfl
  · simp [glyphText, hradical, htimes, hdivided]

/-- Replacing kind after kind comes to the same as replacing in one pass. -/
theorem normalizeChars_eq_replaceGlyphs (text : List Char) :
    normalizeChars text = replaceGlyphs (withoutBlanks text) := by
  rw [replaceGlyphs_eq_flatMap]
  simp only [normalizeChars, replaceAll_eq_flatMap, List.flatMap_assoc]
  refine congrArg (List.flatMap · _) (funext fun c => ?_)
  rw [← flatMap_glyphs c, List.flatMap_assoc]

/-! ## Texts one behind the other -/

/-- The glyph for a root of any degree lies across the border of two texts. -/
def Straddles (text tail : List Char) : Prop :=
  ∃ left right, left ≠ [] ∧ right ≠ [] ∧ left ++ right = ['ⁿ', '√', 'x'] ∧ left <:+ text ∧
    right <+: tail

theorem straddles_iff {text tail : List Char} :
    Straddles text tail ↔
      ['ⁿ'] <:+ text ∧ ['√', 'x'] <+: tail ∨ ['ⁿ', '√'] <:+ text ∧ ['x'] <+: tail := by
  refine ⟨?_, ?_⟩
  · rintro ⟨left, right, hleft, hright, hglyph, hsuffix, hprefix⟩
    match left, right, hglyph with
    | [c], right, hglyph =>
      obtain ⟨rfl, rfl⟩ : c = 'ⁿ' ∧ right = ['√', 'x'] := by simpa using hglyph
      exact .inl ⟨hsuffix, hprefix⟩
    | [c, d], right, hglyph =>
      obtain ⟨rfl, rfl, rfl⟩ : c = 'ⁿ' ∧ d = '√' ∧ right = ['x'] := by simpa using hglyph
      exact .inr ⟨hsuffix, hprefix⟩
    | [], _, _ => exact absurd rfl hleft
    | _, [], _ => exact absurd rfl hright
    | _ :: _ :: _ :: _, _ :: _, hglyph => simp at hglyph
  · rintro (⟨hsuffix, hprefix⟩ | ⟨hsuffix, hprefix⟩)
    · exact ⟨_, _, by simp, by simp, rfl, hsuffix, hprefix⟩
    · exact ⟨_, _, by simp, by simp, rfl, hsuffix, hprefix⟩

/-- What lies across the border of the end of a text lies across the border of the text. -/
theorem Straddles.of_suffix {text text' tail : List Char} (h : Straddles text tail)
    (hsuffix : text <:+ text') : Straddles text' tail := by
  obtain ⟨left, right, hleft, hright, hglyph, hend, hstart⟩ := h
  exact ⟨left, right, hleft, hright, hglyph, hend.trans hsuffix, hstart⟩

/-- Where no glyph lies across the border, the two texts are replaced apart. -/
theorem replaceGlyphs_append {text tail : List Char} (h : ¬Straddles text tail) :
    replaceGlyphs (text ++ tail) = replaceGlyphs text ++ replaceGlyphs tail := by
  fun_induction replaceGlyphs text with
  | case1 text ih =>
    have hrest : ¬Straddles text tail := fun hrest =>
      h (hrest.of_suffix (List.suffix_append ['ⁿ', '√', 'x'] text))
    have hglyph : replaceGlyphs ('ⁿ' :: '√' :: 'x' :: text ++ tail) =
        '@' :: replaceGlyphs (text ++ tail) := rfl
    rw [hglyph, ih hrest, List.cons_append]
  | case2 c text hne ih =>
    have hrest : ¬Straddles text tail := fun hrest => h (hrest.of_suffix (List.suffix_cons c text))
    have hfront : ∀ rest, c = 'ⁿ' → text ++ tail = '√' :: 'x' :: rest → False := by
      rintro rest rfl hglyph
      -- The text ends within the glyph, since it does not begin with all of it.
      match text, hglyph with
      | [], hglyph => exact h (straddles_iff.mpr (.inl ⟨List.suffix_refl _, rest, hglyph.symm⟩))
      | [d], hglyph =>
        obtain ⟨rfl, rfl⟩ : d = '√' ∧ tail = 'x' :: rest := by simpa using hglyph
        exact h (straddles_iff.mpr (.inr ⟨List.suffix_refl _, rest, rfl⟩))
      | d :: d' :: text, hglyph =>
        obtain ⟨rfl, rfl, -⟩ : d = '√' ∧ d' = 'x' ∧ text ++ tail = rest := by simpa using hglyph
        exact hne text rfl rfl
    rw [List.cons_append, replaceGlyphs_cons hfront, ih hrest, List.append_assoc]
  | case3 => rfl

/-- No glyph lies across the border in front of its own first character. -/
theorem not_straddles_degree (text tail : List Char) : ¬Straddles text ('ⁿ' :: tail) := by
  rw [straddles_iff]
  rintro (⟨-, rest, hrest⟩ | ⟨-, rest, hrest⟩)
  · exact absurd (List.cons_eq_cons.mp hrest).1 (by decide)
  · exact absurd (List.cons_eq_cons.mp hrest).1 (by decide)

/-- Two texts are replaced apart just if no glyph lies across their border. -/
theorem replaceGlyphs_append_iff {text tail : List Char} :
    replaceGlyphs (text ++ tail) = replaceGlyphs text ++ replaceGlyphs tail ↔
      ¬Straddles text tail := by
  refine ⟨fun heq hacross => ?_, replaceGlyphs_append⟩
  -- Together the pieces of the glyph become an operator, apart the first one stays.
  obtain ⟨⟨before, rfl⟩, after, rfl⟩ | ⟨⟨before, rfl⟩, after, rfl⟩ := straddles_iff.mp hacross
  all_goals
    simp only [List.append_assoc, List.cons_append, List.nil_append] at heq
    rw [replaceGlyphs_append (not_straddles_degree _ _),
      replaceGlyphs_append (not_straddles_degree _ _), List.append_assoc,
      List.append_cancel_left_eq] at heq
    exact absurd (List.cons_eq_cons.mp heq).1 (by decide)

/-- The normal form of a text is what one pass makes of its characters that are no blanks. So it
has no blank and no glyph, and it is its own normal form, which is read like the text, with the
same tree or the same error at the same position. Two texts one behind the other have their
normal forms one behind the other, unless without blanks a glyph lies across their border. -/
theorem normalize_one_pass (raw : String) :
    (normalize raw).toList = replaceGlyphs (withoutBlanks raw.toList) ∧
    (∀ c ∈ (normalize raw).toList, isBlank c = false ∧ c ≠ '√' ∧ c ≠ '×' ∧ c ≠ '÷') ∧
    normalize (normalize raw) = normalize raw ∧
    parse (normalize raw) = parse raw ∧
    ∀ tail, normalize (raw ++ tail) = normalize raw ++ normalize tail ↔
      ¬Straddles (withoutBlanks raw.toList) (withoutBlanks tail.toList) := by
  have hnormal : normalize (normalize raw) = normalize raw := IsNormal.normalize_eq ⟨raw, rfl⟩
  refine ⟨?_, isNormal_iff.mp ⟨raw, rfl⟩, hnormal, ?_, fun tail => ?_⟩
  · rw [toList_normalize, normalizeChars_eq_replaceGlyphs]
  · rw [parse_eq_result_formula, hnormal, ← parse_eq_result_formula]
  · rw [← String.toList_inj, String.toList_append, toList_normalize, toList_normalize,
      toList_normalize, String.toList_append, normalizeChars_eq_replaceGlyphs,
      normalizeChars_eq_replaceGlyphs, normalizeChars_eq_replaceGlyphs, ← replaceGlyphs_append_iff,
      withoutBlanks, List.filter_append]
    rfl

end Formula
