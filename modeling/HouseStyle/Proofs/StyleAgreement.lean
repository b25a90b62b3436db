import HouseStyle.Proofs.ConvertedLetters

/-!
# Names that a conversion leaves alone

The check of a style and the conversion to it see a name in different ways: the check looks at its glyphs, the
conversion takes it apart into words and puts these together again. A name that is left alone has passed the
check, since every conversion is checked. The converse holds for `lower_snake_case`, in which no word ends but at
an underscore. In `UPPER_SNAKE_CASE` a word also ends between a digit and a capital letter, and the conversion
puts an underscore there (`SHA256SUM` becomes `SHA256_SUM`); in `UpperCamelCase` it writes but the first letter
of a word as a capital, so that no two may stand together in one.

- `join_words_iff`: words joined by underscores are the name exactly if no word ends within them.
- `flatten_capitalised_iff`: capitalised words are the name exactly if no word has two capitals in a row.
- `convert_eq_self_iff`: the check and the conversion agree on names in which the style keeps every word.
-/

namespace HouseStyle.Style

/-! ## Where a name is changed -/

/-- Whether a name that is accepted is changed between `left` and `right`, in front of `next`. -/
def changesAt (style : Style) (left right : Glyph) (next : Option Glyph) : Bool :=
  match style with
  | .lowerSnake => false
  | .upperSnake => isDigit left && isUpper right
  | .upperCamel => isUpper left && isUpper right && !next.any isLower

/-- Nowhere in the name such a thing stands between two neighbours. -/
def unbroken (breaks : Glyph → Glyph → Option Glyph → Bool) : Text → Bool
  | a :: b :: rest => !breaks a b rest.head? && unbroken breaks (b :: rest)
  | _ => true

/-- The style keeps every word of the name: in `UPPER_SNAKE_CASE` no capital letter stands right behind a digit,
and in `UpperCamelCase` none right behind another one, but in front of a small letter, where a word begins. -/
def isKept (style : Style) (name : Text) : Bool := unbroken style.changesAt name

section

variable {breaks breaks' : Glyph → Glyph → Option Glyph → Bool} {a b : Glyph} {t : Text}

@[simp] theorem unbroken_singleton : unbroken breaks [a] = true := rfl

@[simp] theorem unbroken_cons_cons :
    unbroken breaks (a :: b :: t) = (!breaks a b t.head? && unbroken breaks (b :: t)) := rfl

/-- Only what stands in the name matters. -/
theorem unbroken_congr (h : ∀ a ∈ t, ∀ b ∈ t, ∀ next : Option Glyph, (∀ c ∈ next, c ∈ t) →
    breaks a b next = breaks' a b next) : unbroken breaks t = unbroken breaks' t := by
  induction t with
  | nil => rfl
  | cons a t ih =>
    have hrest : unbroken breaks t = unbroken breaks' t := by
      refine ih fun b hb c hc next hnext => h b (List.mem_cons_of_mem a hb) c (List.mem_cons_of_mem a hc) next ?_
      exact fun d hd => List.mem_cons_of_mem a (hnext d hd)
    cases t with
    | nil => rfl
    | cons b t =>
      rw [unbroken_cons_cons, unbroken_cons_cons, hrest,
        h a List.mem_cons_self b (List.mem_cons_of_mem a List.mem_cons_self) t.head? fun c hc =>
          List.mem_cons_of_mem a (List.mem_cons_of_mem b (List.mem_of_mem_head? hc))]

end

/-! ## Glyphs -/

section

variable {g : Glyph}

/-- What holds of each of the letters and digits of ASCII holds of every one of them. -/
theorem forall_isAlphanum {P : Glyph → Prop} (hall : ∀ n < 128, (Char.ofNat n).isAlphanum = true →
    P (.scalar (Char.ofNat n))) (h : isAlphanum g = true) : P g := by
  cases g with
  | raw b => exact absurd h (by simp [isAlphanum, Glyph.satisfies])
  | scalar c =>
    have hc : c.isAlphanum = true := h
    exact Case.forall_of_lt (P := fun c => c.isAlphanum = true → P (.scalar c)) hall
      (Letter.toNat_lt_of_isAlphanum hc) hc

theorem isAlphanum_iff : isAlphanum g = true ↔ isUpper g = true ∨ isLower g = true ∨ isDigit g = true := by
  cases g with
  | raw b => simp [isUpper, isLower, isDigit, isAlphanum, Glyph.satisfies]
  | scalar c =>
    show ((c.isUpper || c.isLower) || c.isDigit) = true ↔ c.isUpper = true ∨ c.isLower = true ∨ c.isDigit = true
    rw [Bool.or_eq_true, Bool.or_eq_true, or_assoc]

/-- A letter or digit parts no words. -/
theorem ne_separator (h : isAlphanum g = true) : g ≠ .scalar '_' ∧ g ≠ .scalar ' ' :=
  forall_isAlphanum (P := fun g => g ≠ .scalar '_' ∧ g ≠ .scalar ' ') (by decide) h

theorem not_isLower_of_isUpper (h : isUpper g = true) : isLower g = false ∧ isDigit g = false :=
  forall_isAlphanum (P := fun g => isUpper g = true → isLower g = false ∧ isDigit g = false) (by decide)
    (isAlphanum_iff.mpr (Or.inl h)) h

theorem not_isLower_of_isDigit (h : isDigit g = true) : isLower g = false :=
  forall_isAlphanum (P := fun g => isDigit g = true → isLower g = false) (by decide)
    (isAlphanum_iff.mpr (Or.inr (Or.inr h))) h

theorem not_isUpper (h : isLower g = true ∨ isDigit g = true) : isUpper g = false :=
  forall_isAlphanum (P := fun g => isLower g = true ∨ isDigit g = true → isUpper g = false) (by decide)
    (isAlphanum_iff.mpr (Or.inr h)) h

/-- Small letters and digits are small. -/
theorem lowerGlyph_eq (h : isLower g = true ∨ isDigit g = true) : Case.lowerGlyph g = [g] :=
  forall_isAlphanum (P := fun g => isLower g = true ∨ isDigit g = true → Case.lowerGlyph g = [g]) (by decide)
    (isAlphanum_iff.mpr (Or.inr h)) h

/-- Capital letters and digits are capital. -/
theorem upperGlyph_eq (h : isUpper g = true ∨ isDigit g = true) : Case.upperGlyph g = [g] :=
  forall_isAlphanum (P := fun g => isUpper g = true ∨ isDigit g = true → Case.upperGlyph g = [g]) (by decide)
    (isAlphanum_iff.mpr (h.imp_right Or.inr)) h

/-- A capital letter has another small form. -/
theorem lowerGlyph_of_isUpper (h : isUpper g = true) : ∃ c, Case.lowerGlyph g = [c] ∧ c ≠ g := by
  have hlower : (Case.lowerGlyph g).length = 1 ∧ g ∉ Case.lowerGlyph g :=
    forall_isAlphanum (P := fun g => isUpper g = true → (Case.lowerGlyph g).length = 1 ∧ g ∉ Case.lowerGlyph g)
      (by decide) (isAlphanum_iff.mpr (Or.inl h)) h
  obtain ⟨c, hc⟩ := List.length_eq_one_iff.mp hlower.1
  refine ⟨c, hc, ?_⟩
  rintro rfl
  exact hlower.2 (by rw [hc]; exact List.mem_singleton_self c)

end

/-! ## Words -/

section

variable {word t : Text} {left g : Glyph}

/-- A letter or digit begins a word or belongs to the one that is being read. -/
theorem wordsFrom_cons (hg : isAlphanum g = true) :
    wordsFrom (left :: word) (g :: t) =
      if wordEnds left g t.head? then (left :: word).reverse :: wordsFrom [g] t
      else wordsFrom (g :: left :: word) t := by
  obtain ⟨hsign, hblank⟩ := ne_separator hg
  rw [wordsFrom, if_neg (by simp [hsign, hblank])]
  rfl

theorem wordsFrom_nil_cons (hg : isAlphanum g = true) : wordsFrom [] (g :: t) = wordsFrom [g] t := by
  obtain ⟨hsign, hblank⟩ := ne_separator hg
  rw [wordsFrom, if_neg (by simp [hsign, hblank])]
  rfl

theorem wordsFrom_underscore :
    wordsFrom (left :: word) (.scalar '_' :: t) = (left :: word).reverse :: wordsFrom [] t := by
  rw [wordsFrom]
  rfl

theorem wordsFrom_ne_nil : wordsFrom (left :: word) t ≠ [] := by
  obtain ⟨more, ws, h⟩ := wordsFrom_eq_cons (left :: word) (by simp) t
  rw [h]
  exact List.cons_ne_nil _ _

theorem join_cons_of_ne_nil {separator : Text} {ws : List Text} (h : ws ≠ []) :
    Text.join separator (word :: ws) = word ++ separator ++ Text.join separator ws := by
  cases ws with
  | nil => exact absurd rfl h
  | cons u ws => rfl

theorem wordEnds_underscore (left g : Glyph) (next : Option Glyph) :
    wordEnds left (.scalar '_') next = false ∧ wordEnds (.scalar '_') g next = false := by
  have hsign : isUpper (.scalar '_') = false ∧ isLower (.scalar '_') = false ∧
      isDigit (.scalar '_') = false := by decide
  simp [wordEnds, hsign]

/-- A further letter or digit of a name, in front of what is known already. -/
theorem join_words_cons (hg : isAlphanum g = true)
    (ht : ∀ left word, Text.join [.scalar '_'] (wordsFrom (left :: word) t) = (left :: word).reverse ++ t ↔
      unbroken wordEnds (left :: t) = true) :
    Text.join [.scalar '_'] (wordsFrom (left :: word) (g :: t)) = (left :: word).reverse ++ g :: t ↔
      unbroken wordEnds (left :: g :: t) = true := by
  rw [wordsFrom_cons hg, unbroken_cons_cons]
  cases hends : wordEnds left g t.head? with
  | true =>
    -- an underscore comes between the two
    rw [if_pos rfl, join_cons_of_ne_nil wordsFrom_ne_nil, List.append_assoc, List.append_cancel_left_eq]
    simp [Ne.symm (ne_separator hg).1]
  | false =>
    have hlonger : (g :: left :: word).reverse = (left :: word).reverse ++ [g] := List.reverse_cons
    rw [if_neg (by decide), Bool.not_false, Bool.true_and, ← ht g (left :: word), hlonger, List.append_assoc,
      List.singleton_append]

/-- Words joined by underscores are the name exactly if no word ends but at an underscore. -/
theorem join_words_iff {part : Glyph → Bool} (hpart : ∀ g, part g = true → isAlphanum g = true)
    (hname : joinedWords part t = true) (left : Glyph) (word : Text) :
    Text.join [.scalar '_'] (wordsFrom (left :: word) t) = (left :: word).reverse ++ t ↔
      unbroken wordEnds (left :: t) = true := by
  have hnil : ∀ left word, Text.join [.scalar '_'] (wordsFrom (left :: word) []) = (left :: word).reverse ++ [] ↔
      unbroken wordEnds [left] = true := by
    intro left word
    simp [wordsFrom, Text.join]
  fun_induction joinedWords part t generalizing left word with
  | case1 => exact hnil left word
  | case2 g => exact join_words_cons (hpart g hname) hnil
  | case3 g rest ih =>
    rw [Bool.and_eq_true] at hname
    have hrest : Text.join [.scalar '_'] (wordsFrom [g] rest) = g :: rest ↔ unbroken wordEnds (g :: rest) = true :=
      ih hname.2 g []
    rw [wordsFrom_underscore, wordsFrom_nil_cons (hpart g hname.1), join_cons_of_ne_nil wordsFrom_ne_nil,
      List.append_assoc, List.append_cancel_left_eq, unbroken_cons_cons, unbroken_cons_cons,
      (wordEnds_underscore left g _).1, (wordEnds_underscore left g _).2, Bool.not_false, Bool.true_and,
      Bool.true_and, ← hrest]
    simp
  | case4 g h rest hsign ih =>
    rw [Bool.and_eq_true] at hname
    exact join_words_cons (hpart g hname.1) (ih hname.2)

/-- In front of a capital letter a word ends unless the letter is changed. -/
theorem wordEnds_of_isUpper (hleft : isAlphanum left = true) (hg : isUpper g = true) (next : Option Glyph) :
    wordEnds left g next = !changesAt .upperCamel left g next := by
  unfold wordEnds changesAt
  rcases isAlphanum_iff.mp hleft with h | h
  · simp [h, hg, not_isLower_of_isUpper h]
  · simp [not_isUpper h, hg]
    exact h

/-- More of a word behind its first glyph becomes small. -/
theorem capitalised_append {w : Text} (hw : w ≠ []) (u : Text) :
    capitalised (w ++ u) = capitalised w ++ Case.lowerText u := by
  cases w with
  | nil => exact absurd rfl hw
  | cons g w =>
    rw [List.cons_append, capitalised, capitalised, Case.lowerText, List.flatMap_append, List.append_assoc]
    rfl

/-- Capitalised words are the name exactly if no word has two capital letters in a row. -/
theorem flatten_capitalised_iff (left : Glyph) (word : Text) (ht : ∀ g ∈ t, isAlphanum g = true) (hleft : isAlphanum left = true)
    (hword : capitalised (left :: word).reverse = (left :: word).reverse) :
    ((wordsFrom (left :: word) t).map capitalised).flatten = (left :: word).reverse ++ t ↔
      isKept .upperCamel (left :: t) = true := by
  unfold isKept
  induction t generalizing left word with
  | nil =>
    have hone : wordsFrom (left :: word) [] = [(left :: word).reverse] := rfl
    rw [hone, List.map_singleton, hword]
    simp
  | cons g t ih =>
    rw [List.forall_mem_cons] at ht
    obtain ⟨hg, ht⟩ := ht
    rw [wordsFrom_cons hg, unbroken_cons_cons]
    rcases isAlphanum_iff.mp hg with hupper | hother
    · rw [wordEnds_of_isUpper hleft hupper]
      cases changesAt .upperCamel left g t.head? with
      | false =>
        -- a word ends in front of the capital letter
        have hfirst : capitalised [g] = [g] := by
          rw [capitalised, upperGlyph_eq (Or.inl hupper)]
          rfl
        rw [if_pos (by decide), List.map_cons, List.flatten_cons, hword, List.append_cancel_left_eq,
          Bool.not_false, Bool.true_and, ← ih g [] ht hg hfirst]
        rfl
      | true =>
        -- the capital letter becomes a small one
        obtain ⟨more, ws, hwords⟩ := wordsFrom_eq_cons (g :: left :: word) (by simp) t
        obtain ⟨c, hc, hne⟩ := lowerGlyph_of_isUpper hupper
        rw [if_neg (by decide), hwords, List.map_cons, List.flatten_cons, List.reverse_cons, List.append_assoc,
          capitalised_append (by simp), hword, List.singleton_append, Case.lowerText, List.flatMap_cons, hc,
          List.append_assoc, List.append_cancel_left_eq]
        simp [hne]
    · -- the word goes on
      have hends : wordEnds left g t.head? = false := by simp [wordEnds, not_isUpper hother]
      have hchanges : changesAt .upperCamel left g t.head? = false := by simp [changesAt, not_isUpper hother]
      have hlonger : (g :: left :: word).reverse = (left :: word).reverse ++ [g] := List.reverse_cons
      have hkept : capitalised (g :: left :: word).reverse = (g :: left :: word).reverse := by
        rw [hlonger, capitalised_append (by simp), hword, Case.lowerText, List.flatMap_singleton,
          lowerGlyph_eq hother]
      rw [if_neg (by simp [hends]), hchanges, Bool.not_false, Bool.true_and, ← ih g (left :: word) ht hg hkept,
        hlonger, List.append_assoc, List.singleton_append]

end

/-! ## The check and the conversion -/

section

variable {name : Text}

theorem withoutLineFeed_of_isIdentifier (h : isIdentifier name = true) : withoutLineFeed name = name := by
  refine if_neg fun hlast => ?_
  have hmem := List.mem_of_getLast? hlast
  cases name with
  | nil => exact absurd hmem (by simp)
  | cons g rest =>
    rw [isIdentifier, Bool.and_eq_true, List.all_eq_true] at h
    rcases List.mem_cons.mp hmem with hg | hin
    · rw [← hg] at h
      exact absurd h.1 (by decide)
    · exact absurd (h.2 _ hin) (by decide)

/-- An identifier that is no keyword is left alone if it passes the check and is its words put together. -/
theorem convert_eq_self_iff_compose (style : Style) (hid : isIdentifier name = true)
    (hkeyword : Keyword.ofText? name = none) :
    style.convert? name = some name ↔ style.accepts name = true ∧ style.compose (words name) = name := by
  constructor
  · intro h
    obtain ⟨hcompose, -, -, haccepts⟩ := convert_eq_some h
    exact ⟨haccepts, hcompose.symm⟩
  · rintro ⟨haccepts, hcompose⟩
    have hwords : (words name).isEmpty = false := by
      rw [List.isEmpty_eq_false_iff]
      intro hnil
      rw [hnil] at hcompose
      have hempty : style.compose [] = [] := by cases style <;> rfl
      rw [← hcompose, hempty] at hid
      exact absurd hid (by decide)
    unfold convert?
    dsimp only
    rw [hcompose, withoutLineFeed_of_isIdentifier hid, hwords, hid, hkeyword, haccepts]
    rfl

/-- A name of words that are joined by single underscores has no other glyphs. -/
theorem mem_of_joinedWords {part : Glyph → Bool} {t : Text} (h : joinedWords part t = true) {g : Glyph}
    (hg : g ∈ t) : part g = true ∨ g = .scalar '_' := by
  fun_induction joinedWords part t with
  | case1 => exact absurd hg (by simp)
  | case2 a =>
    rw [List.mem_singleton.mp hg]
    exact Or.inl h
  | case3 b rest ih =>
    rw [Bool.and_eq_true] at h
    rcases List.mem_cons.mp hg with rfl | hg
    · exact Or.inr rfl
    · rcases List.mem_cons.mp hg with rfl | hg
      · exact Or.inl h.1
      · exact ih h.2 hg
  | case4 a b rest _ ih =>
    rw [Bool.and_eq_true] at h
    rcases List.mem_cons.mp hg with rfl | hg
    · exact Or.inl h.1
    · exact ih h.2 hg

theorem flatMap_eq_self {change : Glyph → Text} {t : Text} (h : ∀ g ∈ t, change g = [g]) : t.flatMap change = t := by
  induction t with
  | nil => rfl
  | cons g t ih =>
    rw [List.forall_mem_cons] at h
    rw [List.flatMap_cons, h.1, ih h.2, List.singleton_append]

/-- A name in snake case is put together from its words as they are, and that gives the name back if no word ends
within them. -/
theorem join_snake_iff {letter : Glyph → Bool} {change : Glyph → Text}
    (hletter : ∀ g, letter g = true → isAlphanum g = true)
    (hchange : ∀ g, letter g = true ∨ isDigit g = true → change g = [g]) (hname : isSnake letter name = true) :
    Text.join [.scalar '_'] ((words name).map (·.flatMap change)) = name ↔ unbroken wordEnds name = true := by
  have hpart : ∀ g, (letter g || isDigit g) = true → isAlphanum g = true := by
    intro g hg
    rcases Bool.or_eq_true_iff.mp hg with hg | hg
    · exact hletter g hg
    · exact isAlphanum_iff.mpr (Or.inr (Or.inr hg))
  cases name with
  | nil => exact absurd hname (by simp [isSnake])
  | cons g rest =>
    rw [isSnake, Bool.and_eq_true] at hname
    have hmem : ∀ a ∈ g :: rest, (letter a || isDigit a) = true ∨ a = .scalar '_' := by
      intro a ha
      rcases List.mem_cons.mp ha with rfl | ha
      · exact Or.inl (by rw [hname.1]; rfl)
      · exact mem_of_joinedWords hname.2 ha
    have hblank : .scalar ' ' ∉ g :: rest := by
      intro hin
      rcases hmem _ hin with h | h
      · exact (ne_separator (hpart _ h)).2 rfl
      · exact absurd h (by decide)
    have hsame : (words (g :: rest)).map (·.flatMap change) = words (g :: rest) := by
      refine List.map_congr_left (fun w hw => ?_) |>.trans (List.map_id _)
      refine flatMap_eq_self fun a ha => hchange a ?_
      have hin : a ∈ (words (g :: rest)).flatten := List.mem_flatten.mpr ⟨w, hw, ha⟩
      rw [flatten_words hblank, List.mem_filter, bne_iff_ne] at hin
      exact Bool.or_eq_true_iff.mp ((hmem a hin.1).resolve_right hin.2)
    rw [hsame, show words (g :: rest) = wordsFrom [g] rest from wordsFrom_nil_cons (hletter g hname.1)]
    exact join_words_iff hpart hname.2 g []

theorem glyph_of_isSnake {letter : Glyph → Bool} (hname : isSnake letter name = true) {g : Glyph} (hg : g ∈ name) :
    letter g = true ∨ isDigit g = true ∨ g = .scalar '_' := by
  cases name with
  | nil => exact absurd hg (by simp)
  | cons a rest =>
    rw [isSnake, Bool.and_eq_true] at hname
    rcases List.mem_cons.mp hg with rfl | hg
    · exact Or.inl hname.1
    · rcases mem_of_joinedWords hname.2 hg with h | h
      · exact (Bool.or_eq_true_iff.mp h).imp_right Or.inl
      · exact Or.inr (Or.inr h)

/-- An accepted name is put together from its words again if the style keeps them. -/
theorem compose_eq_self_iff (style : Style) (hid : isIdentifier name = true) (h : style.accepts name = true) :
    style.compose (words name) = name ↔ style.isKept name = true := by
  have hplain := withoutLineFeed_of_isIdentifier hid
  cases style with
  | lowerSnake =>
    have hname : isSnake isLower name = true := by rwa [accepts, hplain] at h
    refine (join_snake_iff (fun g hg => isAlphanum_iff.mpr (Or.inr (Or.inl hg))) (fun g => lowerGlyph_eq)
      hname).trans ?_
    -- without a capital letter no word ends
    rw [isKept, unbroken_congr fun a _ b hb next _ => ?_]
    have hsign : isUpper (.scalar '_') = false := by decide
    rcases glyph_of_isSnake hname hb with hb | hb | rfl
    · simp [wordEnds, changesAt, not_isUpper (Or.inl hb)]
    · simp [wordEnds, changesAt, not_isUpper (Or.inr hb)]
    · simp [wordEnds, changesAt, hsign]
  | upperSnake =>
    have hname : isSnake isUpper name = true := by rwa [accepts, hplain] at h
    refine (join_snake_iff (fun g hg => isAlphanum_iff.mpr (Or.inl hg)) (fun g => upperGlyph_eq) hname).trans ?_
    -- without a small letter a word ends only behind a digit
    have hsmall : ∀ g ∈ name, isLower g = false := by
      intro g hg
      have hsign : isLower (.scalar '_') = false := by decide
      rcases glyph_of_isSnake hname hg with hg | hg | rfl
      · exact (not_isLower_of_isUpper hg).1
      · exact not_isLower_of_isDigit hg
      · exact hsign
    rw [isKept, unbroken_congr fun a ha b _ next hnext => ?_]
    have hnone : next.any isLower = false := by
      cases next with
      | none => rfl
      | some c => exact hsmall c (hnext c rfl)
    rw [wordEnds, changesAt, hsmall a ha, hnone, Bool.false_or, Bool.and_false, Bool.or_false, Bool.and_comm]
  | upperCamel =>
    rw [accepts, hplain, Bool.and_eq_true] at h
    cases name with
    | nil => exact absurd hid (by decide)
    | cons g rest =>
      obtain ⟨hname, -⟩ := h
      rw [isCamel, Bool.and_eq_true, List.all_eq_true] at hname
      have hg : isAlphanum g = true := isAlphanum_iff.mpr (Or.inl hname.1)
      have hfirst : capitalised [g] = [g] := by
        rw [capitalised, upperGlyph_eq (Or.inl hname.1)]
        rfl
      rw [compose, show words (g :: rest) = wordsFrom [g] rest from wordsFrom_nil_cons hg]
      exact flatten_capitalised_iff g [] hname.2 hg hfirst

/-- In `lower_snake_case` every word is kept. -/
theorem isKept_lowerSnake (name : Text) : isKept .lowerSnake name = true := by
  unfold isKept
  induction name with
  | nil => rfl
  | cons a t ih =>
    cases t with
    | nil => rfl
    | cons b t => exact ih

/-- **The check and the conversion agree** on identifiers of ASCII that are no keywords: the conversion leaves a
name alone exactly if it passes the check and the style keeps its words, which `lower_snake_case` always does. So
converting a name once more changes nothing exactly if the style keeps the words of what came out. -/
theorem convert_eq_self_iff (hid : isIdentifier name = true) (hkeyword : Keyword.ofText? name = none) :
    (∀ style : Style, style.convert? name = some name ↔ style.accepts name = true ∧ style.isKept name = true) ∧
      (lowerSnake.convert? name = some name ↔ lowerSnake.accepts name = true) ∧
      (∀ (style : Style) (new : Text), style.convert? name = some new →
        (style.convert? new = some new ↔ style.isKept new = true)) ∧
      ∀ new, lowerSnake.convert? name = some new → lowerSnake.convert? new = some new := by
  have agree : ∀ (style : Style) {name : Text}, isIdentifier name = true → Keyword.ofText? name = none →
      (style.convert? name = some name ↔ style.accepts name = true ∧ style.isKept name = true) := by
    intro style name hid hkeyword
    rw [convert_eq_self_iff_compose style hid hkeyword]
    exact and_congr_right fun h => compose_eq_self_iff style hid h
  have hclean : .scalar '\n' ∉ name :=
    (isName_of_isIdentifier hid hkeyword).1.lineFeed_not_mem
  have again : ∀ (style : Style) (new : Text), style.convert? name = some new →
      (style.convert? new = some new ↔ style.isKept new = true) := by
    intro style new h
    obtain ⟨-, -, hnew, haccepts⟩ := convert_eq_some h
    rw [agree style (isIdentifier_of_convert h hclean) hnew, and_iff_right haccepts]
  refine ⟨fun style => agree style hid hkeyword, ?_, again, fun new h => ?_⟩
  · rw [agree .lowerSnake hid hkeyword, isKept_lowerSnake, and_iff_left rfl]
  · exact (again .lowerSnake new h).mpr (isKept_lowerSnake new)

end

/-- A capital letter behind another one may begin a word. -/
theorem convert_eq_self_tValue :
    isIdentifier (Text.ofString "TValue2") = true ∧ Keyword.ofText? (Text.ofString "TValue2") = none ∧
      upperCamel.convert? (Text.ofString "TValue2") = some (Text.ofString "TValue2") ∧
      lowerSnake.convert? (Text.ofString "TValue2") ≠ some (Text.ofString "TValue2") := by
  have hid : isIdentifier (Text.ofString "TValue2") = true := by decide
  have hkeyword : Keyword.ofText? (Text.ofString "TValue2") = none := by decide
  obtain ⟨hstyles, hsnake, -⟩ := convert_eq_self_iff hid hkeyword
  refine ⟨hid, hkeyword, (hstyles .upperCamel).mpr (by decide), fun h => ?_⟩
  exact absurd (hsnake.mp h) (by decide)

/-- A name that is accepted and changed all the same: behind a digit a word begins with a capital letter. It is
itself what a name is converted to. -/
theorem exists_accepted_and_changed :
    isIdentifier (Text.ofString "SHA256SUM") = true ∧ Keyword.ofText? (Text.ofString "SHA256SUM") = none ∧
      upperSnake.accepts (Text.ofString "SHA256SUM") = true ∧
      upperSnake.convert? (Text.ofString "SHA256SUM") = some (Text.ofString "SHA256_SUM") ∧
      upperSnake.convert? (Text.ofString "sha256sum") = some (Text.ofString "SHA256SUM") := by
  decide +kernel

end HouseStyle.Style
