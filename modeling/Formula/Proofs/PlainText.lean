import Formula.Normal
import Formula.Proofs.Scan

/-!
# Texts that are their own normal form

A text with no blank and none of the glyphs `√`, `×` and `÷` is left as it is by
`normalize`. The glyph for a root of any degree contains `√`, so its other two characters
may stand in such a text : `ⁿ` and `x` are letters. No letter is a blank
(`isBlank_eq_false_of_isAlphabetic`), so a name is never changed. The normal forms are just
these texts (`isNormal_iff`).

A character that is no part of a glyph separates the texts before and behind it : each has its
normal form by itself (`normalizeChars_append_cons`).
-/

namespace Formula

/-- A code point of a class is in one of its ranges. -/
theorem CharClass.exists_of_containsCode : ∀ {ranges : CharClass} {code : Nat},
    ranges.containsCode code = true → ∃ r ∈ ranges, r.1 ≤ code ∧ code ≤ r.2
  | (first, last) :: ranges, code, h => by
    unfold containsCode at h
    split_ifs at h with hfirst hlast
    · exact ⟨_, List.mem_cons_self, Nat.not_lt.mp hfirst, hlast⟩
    · obtain ⟨r, hr, hcode⟩ := exists_of_containsCode h
      exact ⟨r, List.mem_cons_of_mem _ hr, hcode⟩

/-- No code point of a blank is one of a letter. -/
theorem containsCode_blank : ∀ r ∈ blankRanges, ∀ k < r.2 + 1 - r.1,
    basicAlphabetic.containsCode (r.1 + k) = false ∧ r.1 + k < 0x10000 := by
  decide +kernel

/-- A blank is no letter. -/
theorem isAlphabetic_eq_false_of_isBlank {c : Char} (h : isBlank c = true) :
    isAlphabetic c = false := by
  obtain ⟨r, hr, hfirst, hlast⟩ := CharClass.exists_of_containsCode h
  have hcode : r.1 + (c.toNat - r.1) = c.toNat := Nat.add_sub_cancel' hfirst
  obtain ⟨hbasic, hlt⟩ := containsCode_blank r hr (c.toNat - r.1) (by omega)
  rw [hcode] at hbasic hlt
  rw [isAlphabetic, if_pos hlt]
  exact hbasic

theorem isBlank_eq_false_of_isAlphabetic {c : Char} (h : isAlphabetic c = true) :
    isBlank c = false := by
  by_contra hc
  rw [isAlphabetic_eq_false_of_isBlank (by simpa using hc)] at h
  exact absurd h (by decide)

/-- The character is neither a blank nor a glyph that the normal form does without. -/
def IsPlain (c : Char) : Prop :=
  isBlank c = false ∧ c ≠ '√' ∧ c ≠ '×' ∧ c ≠ '÷'

/-- The glyphs to replace are no letters, so a letter is plain. -/
theorem isPlain_of_isAlphabetic {c : Char} (h : isAlphabetic c = true) : IsPlain c := by
  refine ⟨isBlank_eq_false_of_isAlphabetic h, ?_, ?_, ?_⟩ <;> rintro rfl <;>
    exact absurd h (by decide +kernel)

/-- The visible characters of plain text are plain. -/
theorem isPlain_of_lt {c : Char} (hlow : 0x20 < c.toNat) (hhigh : c.toNat < 0x80) : IsPlain c := by
  refine ⟨?_, ?_, ?_, ?_⟩
  · by_contra hc
    have hblank : isBlank c = true := by simpa using hc
    obtain ⟨r, hr, hfirst, hlast⟩ := CharClass.exists_of_containsCode hblank
    have hends : ∀ r ∈ blankRanges, r.2 ≤ 0x20 ∨ 0x80 ≤ r.1 := by decide
    have := hends r hr
    omega
  all_goals
    rintro rfl
    exact absurd hhigh (by decide)

theorem isPlain_of_isNumeral {c : Char} (h : isNumeral c = true) : IsPlain c := by
  have := toNat_of_isNumeral h
  exact isPlain_of_lt (by omega) (by omega)

theorem isPlain_symbol (op : Operator) : IsPlain op.symbol := by
  cases op <;> exact isPlain_of_lt (by decide) (by decide)

theorem isPlain_opening : IsPlain '(' :=
  isPlain_of_lt (by decide) (by decide)

theorem isPlain_closing : IsPlain ')' :=
  isPlain_of_lt (by decide) (by decide)

/-- A text that lacks one of the characters to replace is left as it is. -/
theorem replaceAll_of_not_mem {first d : Char} {more new : List Char} (hd : d ∈ first :: more) :
    ∀ {text : List Char}, d ∉ text → replaceAll first more new text = text
  | [], _ => by rw [replaceAll]
  | c :: text, h => by
    have ih : replaceAll first more new text = text :=
      replaceAll_of_not_mem hd fun ht => h (List.mem_cons_of_mem _ ht)
    rw [replaceAll]
    split_ifs with hc
    · split
      next rest hrest =>
        rw [hc, dropStart?_eq_some_iff.mp hrest, ← List.cons_append] at h
        exact absurd (List.mem_append_left _ hd) h
      · rw [ih]
    · rw [ih]

/-- A text of plain characters is its own normal form. -/
theorem normalizeChars_of_isPlain {text : List Char} (h : ∀ c ∈ text, IsPlain c) :
    normalizeChars text = text := by
  have hblank : (text.filter fun c => !isBlank c) = text :=
    List.filter_eq_self.mpr fun c hc => by simp [(h c hc).1]
  have hradical : '√' ∉ text := fun hc => (h _ hc).2.1 rfl
  have htimes : '×' ∉ text := fun hc => (h _ hc).2.2.1 rfl
  have hdivided : '÷' ∉ text := fun hc => (h _ hc).2.2.2 rfl
  simp only [normalizeChars]
  rw [hblank, replaceAll_of_not_mem (List.mem_cons_of_mem _ List.mem_cons_self) hradical,
    replaceAll_of_not_mem List.mem_cons_self hradical,
    replaceAll_of_not_mem List.mem_cons_self htimes,
    replaceAll_of_not_mem List.mem_cons_self hdivided]

/-! ## What normal forms consist of -/

/-- A character that is left is a new one, or one of the text. A single character that is
replaced is not left. -/
theorem mem_replaceAll {first : Char} {more new text : List Char} {c : Char}
    (h : c ∈ replaceAll first more new text) :
    c ∈ new ∨ c ∈ text ∧ (more = [] → c ≠ first) := by
  fun_induction replaceAll first more new text with
  | case1 => cases h
  | case2 text rest hrest ih =>
    obtain h | h := List.mem_append.mp h
    · exact .inl h
    · obtain h | ⟨h, hne⟩ := ih h
      · exact .inl h
      · rw [dropStart?_eq_some_iff.mp hrest]
        exact .inr ⟨List.mem_cons_of_mem _ (List.mem_append_right _ h), hne⟩
  | case3 text hrest ih =>
    obtain rfl | h := List.mem_cons.mp h
    · refine .inr ⟨List.mem_cons_self, ?_⟩
      rintro rfl
      cases hrest
    · obtain h | ⟨h, hne⟩ := ih h
      · exact .inl h
      · exact .inr ⟨List.mem_cons_of_mem _ h, hne⟩
  | case4 d text hd ih =>
    obtain rfl | h := List.mem_cons.mp h
    · exact .inr ⟨List.mem_cons_self, fun _ => hd⟩
    · obtain h | ⟨h, hne⟩ := ih h
      · exact .inl h
      · exact .inr ⟨List.mem_cons_of_mem _ h, hne⟩

/-- A normal form has no blank and none of the glyphs. -/
theorem isPlain_of_mem_normalizeChars {text : List Char} {c : Char}
    (h : c ∈ normalizeChars text) : IsPlain c := by
  simp only [normalizeChars] at h
  obtain h | ⟨h, hdivided⟩ := mem_replaceAll h
  · obtain rfl : c = '/' := by simpa using h
    exact isPlain_symbol .divide
  obtain h | ⟨h, htimes⟩ := mem_replaceAll h
  · obtain rfl : c = '*' := by simpa using h
    exact isPlain_symbol .multiply
  obtain h | ⟨h, hradical⟩ := mem_replaceAll h
  · have hletters : ['s', 'q', 'r', 't'].all Char.isLower = true := by decide
    exact isPlain_of_isAlphabetic (isAlphabetic_of_isLower (List.all_eq_true.mp hletters c h))
  obtain h | ⟨h, -⟩ := mem_replaceAll h
  · obtain rfl : c = '@' := by simpa using h
    exact isPlain_symbol .nthRoot
  · have hblank : isBlank c = false := by simpa using (List.mem_filter.mp h).2
    exact ⟨hblank, hradical rfl, htimes rfl, hdivided rfl⟩

/-- The text is the normal form of some text. -/
def IsNormal (text : String) : Prop :=
  ∃ raw, normalize raw = text

/-- The texts in normal form are those of plain characters. -/
theorem isNormal_iff {text : String} : IsNormal text ↔ ∀ c ∈ text.toList, IsPlain c := by
  refine ⟨?_, fun h => ⟨text, ?_⟩⟩
  · rintro ⟨raw, rfl⟩ c hc
    rw [toList_normalize] at hc
    exact isPlain_of_mem_normalizeChars hc
  · rw [normalize, normalizeChars_of_isPlain h, String.ofList_toList]

theorem IsNormal.normalize_eq {text : String} (h : IsNormal text) : normalize text = text := by
  rw [normalize, normalizeChars_of_isPlain (isNormal_iff.mp h), String.ofList_toList]

/-! ## Texts one behind the other -/

/-- No occurrence begins in a text and goes on into a tail that begins with none of its
characters. -/
theorem dropStart?_append {tail : List Char} : ∀ {start : List Char} (text : List Char),
    (∀ c ∈ tail.head?, c ∉ start) →
      dropStart? start (text ++ tail) = (dropStart? start text).map (· ++ tail)
  | [], text, _ => rfl
  | s :: start, [], h => by
    cases tail with
    | nil => rfl
    | cons c tail =>
      have hne : s ≠ c := fun hs => h c rfl (hs ▸ List.mem_cons_self)
      simp [dropStart?, hne]
  | s :: start, c :: text, h => by
    have ih := dropStart?_append text fun d hd hmem => h d hd (List.mem_cons_of_mem s hmem)
    rw [List.cons_append, dropStart?, dropStart?, ih]
    split <;> rfl

/-- Where no occurrence lies across the border, the two texts are replaced apart. -/
theorem replaceAll_append {first : Char} {more new text tail : List Char}
    (h : ∀ c ∈ tail.head?, c ∉ more) :
    replaceAll first more new (text ++ tail) =
      replaceAll first more new text ++ replaceAll first more new tail := by
  fun_induction replaceAll first more new text with
  | case1 => rfl
  | case2 text rest hrest ih =>
    have hdrop := dropStart?_append text h
    rw [hrest, Option.map_some] at hdrop
    rw [List.cons_append, replaceAll, if_pos rfl]
    split
    next rest' hrest' =>
      obtain rfl : rest ++ tail = rest' := Option.some.inj (hdrop.symm.trans hrest')
      rw [ih, List.append_assoc]
    next hnone => cases hdrop.symm.trans hnone
  | case3 text hrest ih =>
    have hdrop := dropStart?_append text h
    rw [hrest, Option.map_none] at hdrop
    rw [List.cons_append, replaceAll, if_pos rfl]
    split
    next rest' hrest' => cases hdrop.symm.trans hrest'
    · rw [ih, List.cons_append]
  | case4 d text hd ih =>
    rw [List.cons_append, replaceAll, if_neg hd, ih, List.cons_append]

/-- A character that is not replaced separates the texts before and behind it. -/
theorem replaceAll_append_cons {first c : Char} {more new : List Char} (h : c ∉ first :: more)
    (text rest : List Char) :
    replaceAll first more new (text ++ c :: rest) =
      replaceAll first more new text ++ c :: replaceAll first more new rest := by
  obtain ⟨hfirst, hmore⟩ := List.ne_and_not_mem_of_not_mem_cons h
  have hhead : ∀ d ∈ (c :: rest).head?, d ∉ more := by simpa using hmore
  rw [replaceAll_append hhead, replaceAll, if_neg hfirst]

/-- The normal forms of the texts before and behind a plain mark do not depend on each
other. -/
theorem normalizeChars_append_cons {c : Char} (hplain : IsPlain c)
    (hmark : isAlphabetic c = false) (text rest : List Char) :
    normalizeChars (text ++ c :: rest) = normalizeChars text ++ c :: normalizeChars rest := by
  obtain ⟨hblank, hradical, htimes, hdivided⟩ := hplain
  have hdegree : c ≠ 'ⁿ' := by
    rintro rfl
    exact absurd hmark (by decide +kernel)
  have hletter : c ≠ 'x' := by
    rintro rfl
    exact absurd hmark (by decide +kernel)
  have hfilter : (c :: rest).filter (fun d => !isBlank d) = c :: rest.filter fun d => !isBlank d :=
    List.filter_cons_of_pos (by simp [hblank])
  simp only [normalizeChars, List.filter_append, hfilter]
  rw [replaceAll_append_cons (by simp [hdegree, hradical, hletter]),
    replaceAll_append_cons (by simp [hradical]), replaceAll_append_cons (by simp [htimes]),
    replaceAll_append_cons (by simp [hdivided])]

@[simp] theorem normalizeChars_nil : normalizeChars [] = [] :=
  normalizeChars_of_isPlain (by simp)

/-- A plain mark stays in front of a text. -/
theorem normalizeChars_cons {c : Char} (hplain : IsPlain c) (hmark : isAlphabetic c = false)
    (rest : List Char) : normalizeChars (c :: rest) = c :: normalizeChars rest := by
  simpa using normalizeChars_append_cons hplain hmark [] rest

theorem normalizeChars_append_symbol (op : Operator) (text rest : List Char) :
    normalizeChars (text ++ op.symbol :: rest) =
      normalizeChars text ++ op.symbol :: normalizeChars rest :=
  normalizeChars_append_cons (isPlain_symbol op) op.isAlphabetic_symbol text rest

theorem normalizeChars_symbol_cons (op : Operator) (rest : List Char) :
    normalizeChars (op.symbol :: rest) = op.symbol :: normalizeChars rest :=
  normalizeChars_cons (isPlain_symbol op) op.isAlphabetic_symbol rest

/-- A text in parentheses keeps them. -/
theorem normalizeChars_group (text : List Char) :
    normalizeChars ('(' :: (text ++ [')'])) = '(' :: (normalizeChars text ++ [')']) := by
  rw [normalizeChars_cons isPlain_opening isAlphabetic_opening,
    normalizeChars_append_cons isPlain_closing isAlphabetic_closing, normalizeChars_nil]

/-- Closing parentheses behind a text stay behind its normal form. -/
theorem normalizeChars_append_closing (text : List Char) (count : Nat) :
    normalizeChars (text ++ List.replicate count ')') =
      normalizeChars text ++ List.replicate count ')' := by
  cases count with
  | zero => simp
  | succ count =>
    have hplain : ∀ c ∈ List.replicate count ')', IsPlain c := fun c hc =>
      List.eq_of_mem_replicate hc ▸ isPlain_closing
    rw [List.replicate_succ, normalizeChars_append_cons isPlain_closing isAlphabetic_closing,
      normalizeChars_of_isPlain hplain]

/-! ## Characters that are not touched -/

/-- Of a character that is neither replaced nor put in, there are as many as before. -/
theorem count_replaceAll {first c : Char} {more new : List Char} (hc : c ∉ first :: more)
    (hnew : c ∉ new) (text : List Char) :
    (replaceAll first more new text).count c = text.count c := by
  obtain ⟨hfirst, hmore⟩ := List.ne_and_not_mem_of_not_mem_cons hc
  fun_induction replaceAll first more new text with
  | case1 => rfl
  | case2 text rest hrest ih =>
    rw [dropStart?_eq_some_iff.mp hrest, List.count_append, List.count_eq_zero.mpr hnew, ih,
      List.count_cons_of_ne hfirst.symm, List.count_append, List.count_eq_zero.mpr hmore]
  | case3 text hrest ih => rw [List.count_cons, List.count_cons, ih]
  | case4 d text hd ih => rw [List.count_cons, List.count_cons, ih]

/-- Parentheses are neither blanks nor glyphs, so a normal form has as many as the text. -/
theorem count_normalizeChars {c : Char} (hc : c = '(' ∨ c = ')') (text : List Char) :
    (normalizeChars text).count c = text.count c := by
  have hblank : isBlank c = false := by
    obtain rfl | rfl := hc
    · exact isPlain_opening.1
    · exact isPlain_closing.1
  have hfree : c ∉ ['ⁿ', '√', 'x', '@', 's', 'q', 'r', 't', '×', '*', '÷', '/'] := by
    obtain rfl | rfl := hc <;> decide
  simp only [List.mem_cons, List.not_mem_nil, not_or] at hfree
  simp only [normalizeChars]
  rw [count_replaceAll (by simp [hfree]) (by simp [hfree]),
    count_replaceAll (by simp [hfree]) (by simp [hfree]),
    count_replaceAll (by simp [hfree]) (by simp [hfree]),
    count_replaceAll (by simp [hfree]) (by simp [hfree]),
    List.count_filter (by simp [hblank])]

end Formula
