import HouseStyle.Name.Style
import HouseStyle.Proofs.Renaming

/-!
# What a name is converted to

A converted name can stand where the old one did: it is an identifier of ASCII that starts with a
letter or an underscore and is no keyword (`isName_of_convert`, `isName_of_convertTrailing`). The
check of the conversion allows a line feed at the end, as the check of a style does, so the proof has
to follow the glyphs of the name through its words: no change of case makes a line feed.

A name that starts with a dollar sign is never converted (`startsWord_of_convert`).
-/

namespace HouseStyle

/-! ## Glyphs of ASCII -/

theorem Letter.toNat_lt_of_isAlphanum {c : Char} (h : c.isAlphanum = true) : c.toNat < 0x80 := by
  rw [isAlphanum_iff] at h
  omega

theorem Letter.isDigit_of_isAlpha {c : Char} (h : c.isAlpha = true) : c.isDigit = false := by
  refine Bool.eq_false_iff.mpr fun hd => ?_
  rw [isAlpha_iff] at h
  rw [isAsciiDigit_iff] at hd
  omega

namespace Style

theorem continuesWord_of_isAlphanum {g : Glyph} (h : isAlphanum g = true) :
    Lexeme.continuesWord g = true := by
  cases g with
  | raw b => simp [isAlphanum, Glyph.satisfies] at h
  | scalar c =>
    simp only [isAlphanum, Glyph.satisfies] at h
    simp [Lexeme.continuesWord, Glyph.satisfies, Letter.isLetterOrNumeral,
      Letter.toNat_lt_of_isAlphanum h, h]

/-- A letter of ASCII or an underscore opens a word. -/
theorem opensWord_of_isAlpha {g : Glyph} (h : (g.satisfies Char.isAlpha || g == .scalar '_') = true) :
    Lexeme.opensWord g = true := by
  cases g with
  | raw b => simp [Glyph.satisfies] at h
  | scalar c =>
    simp only [Glyph.satisfies, Bool.or_eq_true, beq_iff_eq, Glyph.scalar.injEq] at h
    rcases h with h | rfl
    · have hlt : c.toNat < 0x80 := Letter.toNat_lt_of_isAlphanum (by simp [Char.isAlphanum, h])
      have hd : c.isDigit = false := Letter.isDigit_of_isAlpha h
      have hdollar : c ≠ '$' := by
        rintro rfl
        exact absurd h (by decide)
      simp [Lexeme.opensWord, Lexeme.startsWord, Lexeme.isDigit, Glyph.satisfies, Letter.isLetter,
        Letter.isDigit, hlt, h, hd, hdollar]
    · decide

/-- An identifier of ASCII that is no keyword can stand as an identifier. -/
theorem isName_of_isIdentifier {name : Text} (h : isIdentifier name = true)
    (hkey : Keyword.ofText? name = none) : Lexeme.IsName name ∧ Lexeme.StartsWord name := by
  unfold isIdentifier at h
  cases name with
  | nil => exact absurd h (by decide)
  | cons g rest =>
    simp only [Bool.and_eq_true] at h
    obtain ⟨hg, hrest⟩ := h
    have hopens := opensWord_of_isAlpha hg
    have hstarts : Lexeme.startsWord g = true := by
      simp only [Lexeme.opensWord, Bool.and_eq_true] at hopens
      exact hopens.1.1
    refine ⟨⟨⟨g, rest, rfl, hstarts, Lexeme.isDigit_of_opensWord hopens⟩, ?_, hkey⟩, g, rest, rfl, hopens⟩
    intro a ha
    rcases List.mem_cons.mp ha with rfl | ha
    · exact Lexeme.continuesWord_of_opensWord hopens
    · have := List.all_eq_true.mp hrest a ha
      rw [Bool.or_eq_true, beq_iff_eq] at this
      rcases this with h | rfl
      · exact continuesWord_of_isAlphanum h
      · decide

/-! ## Words of a name -/

/-- The words are made of the glyphs that have been read. -/
theorem mem_of_mem_wordsFrom {word t w : Text} {g : Glyph} (hw : w ∈ wordsFrom word t) (hg : g ∈ w) :
    g ∈ word ∨ g ∈ t := by
  induction t generalizing word with
  | nil =>
    unfold wordsFrom at hw
    split at hw
    next => exact absurd hw (by simp)
    next =>
      rw [List.mem_singleton] at hw
      subst hw
      exact Or.inl (List.mem_reverse.mp hg)
  | cons h t ih =>
    -- the word that ends here is what has been read, and every other one comes from the rest
    have ended : ∀ start : Text, (∀ a ∈ start, a ∈ h :: t) →
        w ∈ word.reverse :: wordsFrom start t → g ∈ word ∨ g ∈ h :: t := by
      intro start hstart hw
      rcases List.mem_cons.mp hw with rfl | hw
      · exact Or.inl (List.mem_reverse.mp hg)
      · rcases ih hw with hin | hin
        · exact Or.inr (hstart g hin)
        · exact Or.inr (List.mem_cons_of_mem _ hin)
    unfold wordsFrom at hw
    split at hw
    next =>
      split at hw
      next =>
        rcases ih hw with hin | hin
        · exact absurd hin (by simp)
        · exact Or.inr (List.mem_cons_of_mem _ hin)
      next => exact ended [] (by simp) hw
    next =>
      split at hw
      next => exact ended [h] (by simp) hw
      next =>
        rcases ih hw with hin | hin
        · rcases List.mem_cons.mp hin with rfl | hin
          · exact Or.inr List.mem_cons_self
          · exact Or.inl hin
        · exact Or.inr (List.mem_cons_of_mem _ hin)

/-- The first word starts with what has been read. -/
theorem wordsFrom_eq_cons (word : Text) (hword : word ≠ []) (t : Text) :
    ∃ more ws, wordsFrom word t = (word.reverse ++ more) :: ws := by
  induction t generalizing word with
  | nil =>
    have hempty : word.isEmpty = false := by simpa using hword
    refine ⟨[], [], ?_⟩
    rw [wordsFrom, hempty, List.append_nil]
    rfl
  | cons g t ih =>
    have hempty : word.isEmpty = false := by simpa using hword
    unfold wordsFrom
    split
    · refine ⟨[], wordsFrom [] t, ?_⟩
      rw [hempty, List.append_nil]
      rfl
    · split
      · exact ⟨[], wordsFrom [g] t, by rw [List.append_nil]⟩
      · obtain ⟨more, ws, h⟩ := ih (g :: word) (by simp)
        refine ⟨g :: more, ws, ?_⟩
        rw [h, List.reverse_cons, List.append_assoc]
        rfl

/-! ## Line feeds -/

theorem eq_lineFeed_of_toLower {c : Char} (h : c.toLower = '\n') : c = '\n' := by
  unfold Char.toLower at h
  split at h
  next hu =>
    have hv := congrArg (fun c : Char => c.val.toNat) h
    simp only [UInt32.le_iff_toNat_le, ge_iff_le, UInt32.toNat_add] at hu hv
    have h₁ : 'A'.val.toNat = 65 := rfl
    have h₂ : 'Z'.val.toNat = 90 := rfl
    have h₃ : ('a'.val - 'A'.val).toNat = 32 := rfl
    have h₄ : '\n'.val.toNat = 10 := rfl
    omega
  next => exact h

theorem eq_lineFeed_of_toUpper {c : Char} (h : c.toUpper = '\n') : c = '\n' := by
  unfold Char.toUpper at h
  split at h
  next hu =>
    have hv := congrArg (fun c : Char => c.val.toNat) h
    simp only [UInt32.le_iff_toNat_le, UInt32.toNat_add] at hu hv
    have h₁ : 'a'.val.toNat = 97 := rfl
    have h₂ : 'z'.val.toNat = 122 := rfl
    have h₃ : ('A'.val - 'a'.val).toNat = 4294967264 := rfl
    have h₄ : '\n'.val.toNat = 10 := rfl
    omega
  next => exact h

theorem eq_lineFeed_of_mem_lowerChar {c : Char} (h : '\n' ∈ Case.lowerChar c) : c = '\n' := by
  unfold Case.lowerChar at h
  split at h
  next => exact absurd h (by decide)
  next =>
    split at h
    next => exact absurd h (by decide)
    next =>
      split at h
      next => exact absurd h (by decide)
      next =>
        split at h
        next hlatin =>
          -- the small letters of Latin-1 are listed in the order of the capitals
          have none : ∀ n, n < 31 → Char.ofNat (192 + n + 0x20) ≠ '\n' := by decide
          simp only [Bool.and_eq_true, decide_eq_true_eq, Char.le_def, UInt32.le_iff_toNat_le] at hlatin
          have h₁ : 'À'.val.toNat = 192 := rfl
          have h₂ : 'Þ'.val.toNat = 222 := rfl
          have hc : c.toNat = 192 + (c.val.toNat - 192) := by
            have : c.toNat = c.val.toNat := rfl
            omega
          rw [List.mem_singleton, hc] at h
          exact absurd h.symm (none _ (by omega))
        next => exact eq_lineFeed_of_toLower (List.mem_singleton.mp h).symm

theorem eq_lineFeed_of_mem_upperChar {c : Char} (h : '\n' ∈ Case.upperChar c) : c = '\n' := by
  unfold Case.upperChar at h
  split at h
  case h_11 => exact eq_lineFeed_of_toUpper (List.mem_singleton.mp h).symm
  all_goals exact absurd h (by decide)

/-- A change of case makes no line feed. -/
theorem lineFeed_of_mem_lowerGlyph {g : Glyph} (h : .scalar '\n' ∈ Case.lowerGlyph g) :
    g = .scalar '\n' := by
  cases g with
  | raw b => exact absurd h (by simp [Case.lowerGlyph])
  | scalar c =>
    obtain ⟨d, hd, heq⟩ := List.mem_map.mp h
    rw [Glyph.scalar.injEq] at heq
    rw [heq] at hd
    rw [eq_lineFeed_of_mem_lowerChar hd]

theorem lineFeed_of_mem_upperGlyph {g : Glyph} (h : .scalar '\n' ∈ Case.upperGlyph g) :
    g = .scalar '\n' := by
  cases g with
  | raw b => exact absurd h (by simp [Case.upperGlyph])
  | scalar c =>
    obtain ⟨d, hd, heq⟩ := List.mem_map.mp h
    rw [Glyph.scalar.injEq] at heq
    rw [heq] at hd
    rw [eq_lineFeed_of_mem_upperChar hd]

theorem mem_join {separator : Text} {ts : List Text} {g : Glyph} (h : g ∈ Text.join separator ts) :
    g ∈ separator ∨ ∃ t ∈ ts, g ∈ t := by
  induction ts with
  | nil => exact absurd h (by simp [Text.join])
  | cons t ts ih =>
    cases ts with
    | nil => exact Or.inr ⟨t, by simp, h⟩
    | cons u ts =>
      rw [Text.join] at h
      · rcases List.mem_append.mp h with h | h
        · rcases List.mem_append.mp h with h | h
          · exact Or.inr ⟨t, by simp, h⟩
          · exact Or.inl h
        · rcases ih h with h | ⟨v, hv, h⟩
          · exact Or.inl h
          · exact Or.inr ⟨v, List.mem_cons_of_mem _ hv, h⟩
      · simp

/-- A conversion of single glyphs that gives a line feed for no other one brings none into a text. -/
theorem lineFeed_not_mem_flatMap {convert : Glyph → Text}
    (hconvert : ∀ g, .scalar '\n' ∈ convert g → g = .scalar '\n') {t : Text} (ht : .scalar '\n' ∉ t) :
    .scalar '\n' ∉ t.flatMap convert := by
  intro hin
  obtain ⟨g, hg, hin⟩ := List.mem_flatMap.mp hin
  rw [hconvert g hin] at hg
  exact ht hg

theorem lineFeed_not_mem_join {ts : List Text} (h : ∀ t ∈ ts, .scalar '\n' ∉ t) :
    .scalar '\n' ∉ Text.join [.scalar '_'] ts := by
  intro hin
  rcases mem_join hin with hin | ⟨t, ht, hin⟩
  · exact absurd hin (by decide)
  · exact h t ht hin

/-- Words without a line feed give a name without one. -/
theorem lineFeed_not_mem_compose {style : Style} {ws : List Text}
    (h : ∀ w ∈ ws, .scalar '\n' ∉ w) : .scalar '\n' ∉ style.compose ws := by
  have lower : ∀ {w : Text}, .scalar '\n' ∉ w → .scalar '\n' ∉ Case.lowerText w :=
    lineFeed_not_mem_flatMap fun _ => lineFeed_of_mem_lowerGlyph
  have upper : ∀ {w : Text}, .scalar '\n' ∉ w → .scalar '\n' ∉ Case.upperText w :=
    lineFeed_not_mem_flatMap fun _ => lineFeed_of_mem_upperGlyph
  cases style with
  | lowerSnake => exact lineFeed_not_mem_join (List.forall_mem_map.mpr fun w hw => lower (h w hw))
  | upperSnake => exact lineFeed_not_mem_join (List.forall_mem_map.mpr fun w hw => upper (h w hw))
  | upperCamel =>
    intro hin
    obtain ⟨t, ht, hin⟩ := List.mem_flatten.mp hin
    obtain ⟨w, hw, rfl⟩ := List.mem_map.mp ht
    have hclean := h w hw
    cases w with
    | nil => exact absurd hin (by simp [capitalised])
    | cons g rest =>
      rw [capitalised] at hin
      rw [List.mem_cons, not_or] at hclean
      rcases List.mem_append.mp hin with hin | hin
      · exact hclean.1 (lineFeed_of_mem_upperGlyph hin).symm
      · exact lower hclean.2 hin

/-! ## Underscores at the end -/

theorem getLast_of_joinedWords {part : Glyph → Bool} {name : Text} (h : joinedWords part name = true) {g : Glyph}
    (hlast : name.getLast? = some g) : part g = true := by
  fun_induction joinedWords part name with
  | case1 => exact absurd hlast (by simp)
  | case2 a =>
    obtain rfl := Option.some.inj hlast
    exact h
  | case3 b rest ih =>
    rw [Bool.and_eq_true] at h
    rw [List.getLast?_cons_cons] at hlast
    cases rest with
    | nil =>
      obtain rfl := Option.some.inj hlast
      exact h.1
    | cons c rest => exact ih h.2 (by rwa [List.getLast?_cons_cons] at hlast)
  | case4 a b rest hne ih =>
    rw [Bool.and_eq_true] at h
    exact ih h.2 (by rwa [List.getLast?_cons_cons] at hlast)

/-- A name in snake case does not end in an underscore. -/
theorem getLast_ne_of_isSnake {letter : Glyph → Bool} (hletter : letter (.scalar '_') = false) {name : Text}
    (h : isSnake letter (withoutLineFeed name) = true) : name.getLast? ≠ some (.scalar '_') := by
  intro hlast
  rw [withoutLineFeed, if_neg (by rw [hlast]; decide)] at h
  cases name with
  | nil => exact absurd hlast (by simp)
  | cons g rest =>
    simp only [isSnake, Bool.and_eq_true] at h
    cases rest with
    | nil =>
      obtain rfl := Option.some.inj hlast
      exact absurd h.1 (by simp [hletter])
    | cons a rest =>
      rw [List.getLast?_cons_cons] at hlast
      have := getLast_of_joinedWords h.2 hlast
      rw [hletter] at this
      exact absurd this (by decide)

theorem withoutTrailingUnderscore_of_getLast {name : Text} (h : name.getLast? ≠ some (.scalar '_')) :
    withoutTrailingUnderscore name = name := by
  rw [List.getLast?_eq_head?_reverse] at h
  unfold withoutTrailingUnderscore
  split
  · rfl
  · next heq => exact absurd (by rw [heq]; rfl) h
  · rfl

theorem withoutTrailingUnderscore_concat {name : Text} (h : name.getLast? ≠ some (.scalar '_')) :
    withoutTrailingUnderscore (name ++ [.scalar '_']) = name := by
  rw [List.getLast?_eq_head?_reverse] at h
  have hreverse : (name ++ [Glyph.scalar '_']).reverse = .scalar '_' :: name.reverse := by simp
  unfold withoutTrailingUnderscore
  rw [hreverse]
  split
  · next heq => exact absurd (by rw [(List.cons.inj heq).2]; rfl) h
  · next heq =>
    rw [← (List.cons.inj heq).2, List.reverse_reverse]
  · next hno => exact absurd rfl (hno name.reverse)

/-- A name in camel case does not end in an underscore. -/
theorem getLast_ne_of_isCamel {name : Text} (h : isCamel (withoutLineFeed name) = true) :
    name.getLast? ≠ some (.scalar '_') := by
  intro hlast
  rw [withoutLineFeed, if_neg (by rw [hlast]; decide)] at h
  cases name with
  | nil => exact absurd hlast (by simp)
  | cons g rest =>
    rw [isCamel, Bool.and_eq_true, List.all_eq_true] at h
    rcases List.mem_cons.mp (List.mem_of_getLast? hlast) with hg | hmem
    · rw [← hg] at h
      exact absurd h.1 (by decide)
    · exact absurd (h.2 _ hmem) (by decide)

theorem getLast_ne_of_accepts {style : Style} {name : Text} (h : style.accepts name = true) :
    name.getLast? ≠ some (.scalar '_') := by
  cases style with
  | lowerSnake => exact getLast_ne_of_isSnake (by decide) h
  | upperSnake => exact getLast_ne_of_isSnake (by decide) h
  | upperCamel =>
    rw [accepts, Bool.and_eq_true] at h
    exact getLast_ne_of_isCamel h.1

/-- A name in its style is accepted where one underscore more is, too. -/
theorem acceptsTrailing_of_accepts {style : Style} {name : Text} (h : style.accepts name = true) :
    style.acceptsTrailing name = true ∧ style.acceptsTrailing (name ++ [.scalar '_']) = true := by
  have hlast := getLast_ne_of_accepts h
  unfold acceptsTrailing
  rw [withoutTrailingUnderscore_of_getLast hlast, withoutTrailingUnderscore_concat hlast]
  exact ⟨h, h⟩

/-! ## The conversion -/

theorem convert_eq_some {style : Style} {name new : Text} (h : style.convert? name = some new) :
    new = style.compose (words name) ∧ isIdentifier (withoutLineFeed new) = true ∧
      Keyword.ofText? new = none ∧ style.accepts new = true := by
  unfold convert? at h
  dsimp only at h
  split at h
  next => exact absurd h (by simp)
  next =>
    split at h
    next => exact absurd h (by simp)
    next hid =>
      split at h
      next => exact absurd h (by simp)
      next hkey =>
        split at h
        next => exact absurd h (by simp)
        next haccepts =>
          rw [Option.some.injEq] at h
          subst h
          refine ⟨rfl, by simpa using hid, ?_, by simpa using haccepts⟩
          simpa using hkey

/-- A name that is converted has no line feed at its end, if the old one has none. -/
theorem isIdentifier_of_convert {style : Style} {name new : Text} (h : style.convert? name = some new)
    (hname : .scalar '\n' ∉ name) : isIdentifier new = true := by
  obtain ⟨hcompose, hid, -, -⟩ := convert_eq_some h
  have hclean : .scalar '\n' ∉ new := by
    rw [hcompose]
    refine lineFeed_not_mem_compose fun w hw hin => hname ?_
    rcases mem_of_mem_wordsFrom hw hin with hin | hin
    · exact absurd hin (by simp)
    · exact hin
  have hlast : new.getLast? ≠ some (.scalar '\n') := fun hlast => hclean (List.mem_of_getLast? hlast)
  rwa [withoutLineFeed, if_neg hlast] at hid

/-- No keyword ends in an underscore. -/
theorem getLast_keyword (k : Keyword) : k.text.getLast? ≠ some (.scalar '_') := by
  cases k <;> decide

theorem ofText_of_getLast {t : Text} (h : t.getLast? = some (.scalar '_')) : Keyword.ofText? t = none := by
  refine List.find?_eq_none.mpr fun k _ hk => getLast_keyword k ?_
  rw [beq_iff_eq] at hk
  rw [hk, h]

theorem isName_of_convert {style : Style} {name new : Text} (h : style.convert? name = some new)
    (hname : .scalar '\n' ∉ name) : Lexeme.IsName new ∧ Lexeme.StartsWord new :=
  isName_of_isIdentifier (isIdentifier_of_convert h hname) (convert_eq_some h).2.2.1

/-- An underscore at the end does not make a keyword of a name, nor does it spoil an identifier. -/
theorem isIdentifier_of_convertTrailing {style : Style} {name new : Text}
    (h : style.convertTrailing? name = some new) (hname : .scalar '\n' ∉ name) :
    isIdentifier new = true ∧ Keyword.ofText? new = none := by
  obtain ⟨candidate, hc, heq⟩ := Option.map_eq_some_iff.mp h
  have hid := isIdentifier_of_convert hc hname
  split at heq
  · subst heq
    refine ⟨?_, ofText_of_getLast List.getLast?_concat⟩
    cases candidate with
    | nil => exact absurd hid (by decide)
    | cons g rest =>
      simp only [isIdentifier, Bool.and_eq_true] at hid
      simp only [List.cons_append, isIdentifier, Bool.and_eq_true, List.all_append]
      exact ⟨hid.1, hid.2, by decide⟩
  · subst heq
    exact ⟨hid, (convert_eq_some hc).2.2.1⟩

theorem isName_of_convertTrailing {style : Style} {name new : Text}
    (h : style.convertTrailing? name = some new) (hname : .scalar '\n' ∉ name) :
    Lexeme.IsName new ∧ Lexeme.StartsWord new := by
  obtain ⟨hid, hkeyword⟩ := isIdentifier_of_convertTrailing h hname
  exact isName_of_isIdentifier hid hkeyword

/-- A name that starts with a dollar sign is not converted. -/
theorem convert_dollar (style : Style) (rest : Text) : style.convert? (.scalar '$' :: rest) = none := by
  cases h : style.convert? (.scalar '$' :: rest) with
  | none => rfl
  | some new =>
    obtain ⟨hcompose, hid, -, -⟩ := convert_eq_some h
    -- the dollar sign stays in front
    obtain ⟨more, ws, hws⟩ := wordsFrom_eq_cons [.scalar '$'] (by simp) rest
    have hwords : words (.scalar '$' :: rest) = (.scalar '$' :: more) :: ws := by
      rw [words, wordsFrom, if_neg (by decide)]
      exact hws
    have hhead : ∃ tail, new = .scalar '$' :: tail := by
      rw [hcompose, hwords]
      cases style with
      | upperCamel => exact ⟨_, rfl⟩
      | lowerSnake => cases ws <;> exact ⟨_, rfl⟩
      | upperSnake => cases ws <;> exact ⟨_, rfl⟩
    obtain ⟨tail, rfl⟩ := hhead
    have hstart : ∀ t : Text, isIdentifier (withoutLineFeed (.scalar '$' :: t)) = false := by
      intro t
      unfold withoutLineFeed
      split
      · cases t <;> rfl
      · rfl
    rw [hstart] at hid
    exact absurd hid (by decide)

/-- An identifier that is converted starts with a letter or an underscore. -/
theorem startsWord_of_convert {style : Style} {name new : Text} (h : style.convert? name = some new)
    (hname : Lexeme.IsName name) : Lexeme.StartsWord name := by
  obtain ⟨⟨g, more, rfl, hg, hd⟩, -⟩ := hname
  refine ⟨g, more, rfl, ?_⟩
  have hdollar : g ≠ .scalar '$' := by
    rintro rfl
    rw [convert_dollar] at h
    exact absurd h (by simp)
  simp [Lexeme.opensWord, hg, hd, hdollar]

end Style

end HouseStyle
