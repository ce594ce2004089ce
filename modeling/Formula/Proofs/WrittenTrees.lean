import Formula.Proofs.PlainText
import Formula.Proofs.ReadingGrammar

/-!
# Trees written down and read back

`Expr.written` writes a tree with every node but a number in parentheses, given a literal
for each constant. The text is the text of a phrase for the tree (`Expr.phrase`), so the
grammar assigns the tree to it. A node takes at most two levels of terms and a variable
takes three, so a tree of height `h` needs at most `2 · h + 1` levels
(`Expr.depth_phrase_le`).
-/

namespace Formula

namespace Builtin

theorem toList_name_ne_nil (f : Builtin) : f.name.toList ≠ [] := by
  cases f <;> decide

theorem isAlphabetic_name (f : Builtin) : ∀ c ∈ f.name.toList, isAlphabetic c = true := by
  have hlower : f.name.toList.all Char.isLower = true := by cases f <;> decide
  exact fun c hc => isAlphabetic_of_isLower (List.all_eq_true.mp hlower c hc)

end Builtin

namespace Expr

/-- The text of a tree. -/
def written (literal : Float → List Char) : Expr → List Char
  | constant value => literal value
  | var name => '(' :: (name.toList ++ [')'])
  | negate inner => '(' :: '-' :: (inner.written literal ++ [')'])
  | call function argument =>
    '(' :: (function.name.toList ++ (argument.written literal ++ [')']))
  | binary operator left right =>
    '(' :: (left.written literal ++ operator.symbol :: (right.written literal ++ [')']))

/-- Each constant is the value of its literal, and each name is one of a variable. -/
def Writable (literal : Float → List Char) : Expr → Prop
  | constant value =>
    (∀ c ∈ literal value, isNumeral c = true) ∧ readLiteral? (literal value) = some value
  | var name =>
    name ≠ "" ∧ (∀ c ∈ name.toList, isAlphabetic c = true) ∧ Builtin.ofName? name = none
  | negate inner => inner.Writable literal
  | call _ argument => argument.Writable literal
  | binary _ left right => left.Writable literal ∧ right.Writable literal

/-- The phrase that a tree is written as. -/
def phrase (literal : Float → List Char) : Expr → Phrase
  | constant value => .number (literal value) value
  | var name => .group (.name name.toList) true
  | negate inner => .group (.minus (inner.phrase literal)) true
  | call function argument => .group (.call function (argument.phrase literal)) true
  | binary operator left right =>
    .group (.binary operator (left.phrase literal) (right.phrase literal)) true

variable {literal : Float → List Char}

theorem text_phrase (e : Expr) : (e.phrase literal).text = e.written literal := by
  induction e with
  | constant value => rfl
  | var name => rfl
  | negate inner ih => simp [phrase, written, Phrase.text, ih]
  | call function argument ih => simp [phrase, written, Phrase.text, ih]
  | binary operator left right ihl ihr => simp [phrase, written, Phrase.text, ihl, ihr]

theorem tree_phrase (e : Expr) : (e.phrase literal).tree = e := by
  induction e with
  | constant value => rfl
  | var name => simp [phrase, Phrase.tree]
  | negate inner ih => simp [phrase, Phrase.tree, ih]
  | call function argument ih => simp [phrase, Phrase.tree, ih]
  | binary operator left right ihl ihr => simp [phrase, Phrase.tree, ihl, ihr]

theorem isTerm_phrase (e : Expr) : (e.phrase literal).IsTerm := by
  cases e <;> rfl

/-- Each level of a tree is written with at most two levels of terms, its own and its parentheses.
-/
theorem depth_phrase_le (e : Expr) : (e.phrase literal).depth ≤ 2 * e.height + 1 := by
  induction e with
  | constant value => exact Nat.le_of_lt (by decide : 1 < 3)
  | var name => exact Nat.le_refl _
  | negate inner ih =>
    simp only [phrase, Phrase.depth, height]
    omega
  | call function argument ih =>
    simp only [phrase, Phrase.depth, height]
    omega
  | binary operator left right ihl ihr =>
    simp only [phrase, Phrase.depth, height]
    omega

/-- No tree is built on the way that is higher than the whole. -/
theorem peak_phrase (e : Expr) : (e.phrase literal).peak = e.height := by
  induction e with
  | constant value => rfl
  | var name => rfl
  | negate inner ih => simp [phrase, Phrase.peak, height, tree_phrase, ih]
  | call function argument ih => simp [phrase, Phrase.peak, height, tree_phrase, ih]
  | binary operator left right ihl ihr =>
    simp [phrase, Phrase.peak, height, tree_phrase, ihl, ihr]

/-- A written tree starts with a parenthesis or with a literal, so no name runs on into it. -/
theorem not_isAlphabetic_head?_phrase (e : Expr) (h : e.Writable literal) :
    ∀ c ∈ (e.phrase literal).text.head?, isAlphabetic c = false := by
  intro c hc
  rw [text_phrase] at hc
  cases e with
  | constant value => exact isAlphabetic_eq_false_of_isNumeral (h.1 c (List.mem_of_mem_head? hc))
  | var | negate | call | binary =>
    obtain rfl : '(' = c := by simpa [written] using hc
    exact isAlphabetic_opening

/-- The phrase of a tree is of the grammar, unless a literal runs on into what follows. -/
theorem fits_phrase (e : Expr) (h : e.Writable literal) :
    ∀ {next : Option Char}, (∀ c ∈ next, isNumeral c = false) → (e.phrase literal).Fits next := by
  have hclosing : ∀ c ∈ some ')', isNumeral c = false := by simp [isNumeral_closing]
  induction e with
  | constant value => exact fun _ hnext => ⟨⟨ne_nil_of_readLiteral? h.2, h.1, hnext⟩, h.2⟩
  | var name =>
    obtain ⟨hne, halpha, hname⟩ := h
    have hrun : IsRun isAlphabetic name.toList (some ')') :=
      ⟨by simpa using hne, halpha, by simp [isAlphabetic_closing]⟩
    exact fun _ _ => ⟨⟨hrun, by rwa [String.ofList_toList]⟩, .inr (.inl rfl)⟩
  | negate inner ih => exact fun _ _ => ⟨isTerm_phrase inner, ih h hclosing⟩
  | call function argument ih =>
    have hrun : IsRun isAlphabetic function.name.toList (argument.phrase literal).text.head? :=
      ⟨function.toList_name_ne_nil, function.isAlphabetic_name,
        not_isAlphabetic_head?_phrase argument h⟩
    exact fun _ _ => ⟨hrun, isTerm_phrase argument, ih h hclosing⟩
  | binary operator left right ihl ihr =>
    have hleft : (left.phrase literal).Fits (some operator.symbol) :=
      ihl h.1 (by simp [operator.isNumeral_symbol])
    have hrank (e : Expr) : operator.rank < (e.phrase literal).rank := by
      rw [isTerm_phrase e]
      exact operator.rank_lt_three
    exact fun _ _ => ⟨Nat.le_of_lt (hrank left), hleft, hrank right, ihr h.2 hclosing,
      stops_closing _⟩

/-- Nothing in a written tree is changed by the normal form. -/
theorem isPlain_of_mem_written (e : Expr) (h : e.Writable literal) :
    ∀ c ∈ e.written literal, IsPlain c := by
  have hopening := isPlain_opening
  have hclosing := isPlain_closing
  induction e with
  | constant value => exact fun c hc => isPlain_of_isNumeral (h.1 c hc)
  | var name =>
    have hname : ∀ c ∈ name.toList, IsPlain c := fun c hc => isPlain_of_isAlphabetic (h.2.1 c hc)
    simp only [written, List.forall_mem_cons, List.forall_mem_append]
    exact ⟨hopening, hname, hclosing, by simp⟩
  | negate inner ih =>
    simp only [written, List.forall_mem_cons, List.forall_mem_append]
    exact ⟨hopening, isPlain_symbol .subtract, ih h, hclosing, by simp⟩
  | call function argument ih =>
    have hname : ∀ c ∈ function.name.toList, IsPlain c :=
      fun c hc => isPlain_of_isAlphabetic (function.isAlphabetic_name c hc)
    simp only [written, List.forall_mem_cons, List.forall_mem_append]
    exact ⟨hopening, hname, ih h, hclosing, by simp⟩
  | binary operator left right ihl ihr =>
    simp only [written, List.forall_mem_cons, List.forall_mem_append]
    exact ⟨hopening, ihl h.1, isPlain_symbol operator, ihr h.2, hclosing, by simp⟩

/-- The written form is of the grammar, and within both limits. -/
theorem derives_written (e : Expr) (h : e.Writable literal) (hheight : e.height ≤ 127) :
    Derives (e.written literal) e := by
  have hdepth : (e.phrase literal).depth ≤ 2 * e.height + 1 := e.depth_phrase_le
  refine ⟨e.phrase literal, text_phrase e, tree_phrase e, fits_phrase e h (by simp), ?_, ?_⟩
  · omega
  · rw [peak_phrase]
    omega

end Expr

/-- A tree of height at most 127 is read back from its written form, which is its own normal
form. -/
theorem parse_written (literal : Float → List Char) (e : Expr) (h : e.Writable literal)
    (hheight : e.height ≤ 127) :
    normalize (String.ofList (e.written literal)) = String.ofList (e.written literal) ∧
      parse (String.ofList (e.written literal)) = .ok e := by
  have hchars : normalizeChars (e.written literal) = e.written literal :=
    normalizeChars_of_isPlain (e.isPlain_of_mem_written h)
  have hnormal : normalize (String.ofList (e.written literal)) =
      String.ofList (e.written literal) := by
    rw [normalize, String.toList_ofList, hchars]
  refine ⟨hnormal, ?_⟩
  rw [parse_eq_result_formula, hnormal, String.toList_ofList]
  exact Reading.result_formula_eq_ok_iff.mpr (e.derives_written h hheight)

/-- The tree of `(-(sqrt(xy)))^(2.5@(n))`, written with more parentheses. -/
def nestedRoots : Expr :=
  .binary .power (.negate (.call .sqrt (.var "xy"))) (.binary .nthRoot (.constant 2.5) (.var "n"))

theorem parse_written_nestedRoots :
    nestedRoots.Writable (fun _ => ['2', '.', '5']) ∧ nestedRoots.height ≤ 127 ∧
      parse "((-(sqrt(xy)))^(2.5@(n)))" = .ok nestedRoots := by
  have hvar (name : String) (hne : name ≠ "") (hlower : name.toList.all Char.isLower = true)
      (hfree : Builtin.ofName? name = none) : (Expr.var name).Writable fun _ => ['2', '.', '5'] :=
    ⟨hne, fun c hc => isAlphabetic_of_isLower (List.all_eq_true.mp hlower c hc), hfree⟩
  have hconstant : (Expr.constant 2.5).Writable fun _ => ['2', '.', '5'] :=
    ⟨List.all_eq_true.mp (by decide), by rfl⟩
  have hwritable : nestedRoots.Writable fun _ => ['2', '.', '5'] :=
    ⟨hvar "xy" (by decide) (by decide) (by decide), hconstant,
      hvar "n" (by decide) (by decide) (by decide)⟩
  exact ⟨hwritable, by decide, (parse_written _ nestedRoots hwritable (by decide)).2⟩

end Formula
