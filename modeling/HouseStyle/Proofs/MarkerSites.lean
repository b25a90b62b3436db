import HouseStyle.Proofs.AsciiCase
import HouseStyle.Suppression
import Mathlib.Data.List.Forall2

/-!
# Where markers stand

The markers of a comment are found one behind the other. A `Site` says of one of them what stands there: which of
the documented keywords it has been recognised by, how that is written, and the text behind it. The markers that
are read are those of the sites (`inText_eq`).

A keyword is recognised in any case, and that includes four letters beyond ASCII that fold to letters of ASCII.
What it means is decided by its small form, in which three of them stay what they are. So a keyword means what is
documented for it if it is written in ASCII, and is the end of a region otherwise (`kind_marker`).
-/

namespace HouseStyle

/-! ## Texts without stray bytes -/

theorem Text.mapM_char_eq_some_iff {t : Text} {cs : List Char} :
    t.mapM Glyph.char? = some cs ↔ t = cs.map Glyph.scalar := by
  induction t generalizing cs with
  | nil => cases cs <;> simp
  | cons g t ih =>
    rw [List.mapM_cons]
    cases g with
    | raw b => cases cs <;> simp [Glyph.char?]
    | scalar c =>
      cases cs with
      | nil => cases t.mapM Glyph.char? <;> simp [Glyph.char?]
      | cons d cs =>
        simp only [Glyph.char?, List.map_cons, List.cons.injEq, Glyph.scalar.injEq, ← ih]
        cases t.mapM Glyph.char? <;> simp

theorem Text.toString_eq_some_iff {t : Text} {s : String} : t.toString? = some s ↔ t = Text.ofString s := by
  unfold Text.toString? Text.ofString
  rw [Option.map_eq_some_iff]
  constructor
  · rintro ⟨cs, hcs, rfl⟩
    rw [String.toList_ofList]
    exact mapM_char_eq_some_iff.mp hcs
  · intro h
    exact ⟨s.toList, mapM_char_eq_some_iff.mpr h, String.ofList_toList⟩

namespace Marker

/-! ## Words in any case -/

/-- A text is a word in any case, letter by letter. -/
def Spells (word : List Char) (t : Text) : Prop := List.Forall₂ (fun c g => sameLetter c g = true) word t

theorem dropWord_eq_some_iff {word : List Char} {t rest : Text} :
    dropWord? word t = some rest ↔ ∃ lead, t = lead ++ rest ∧ Spells word lead := by
  unfold Spells
  induction word generalizing t with
  | nil =>
    rw [dropWord?, Option.some.injEq]
    constructor
    · rintro rfl
      exact ⟨[], rfl, .nil⟩
    · rintro ⟨lead, rfl, hlead⟩
      rw [List.forall₂_nil_left_iff.mp hlead, List.nil_append]
  | cons c word ih =>
    cases t with
    | nil =>
      refine iff_of_false (by simp [dropWord?]) ?_
      rintro ⟨lead, hlead, hspells⟩
      rw [(List.append_eq_nil_iff.mp hlead.symm).1] at hspells
      cases hspells
    | cons g t =>
      rw [dropWord?]
      constructor
      · intro h
        split at h
        next hsame =>
          obtain ⟨lead, rfl, hlead⟩ := ih.mp h
          exact ⟨g :: lead, rfl, .cons hsame hlead⟩
        next => exact absurd h (by simp)
      · rintro ⟨lead, hlead, hspells⟩
        cases hspells with
        | cons hsame hspells =>
          obtain ⟨rfl, rfl⟩ := List.cons.inj hlead
          rw [if_pos hsame]
          exact ih.mpr ⟨_, rfl, hspells⟩

/-! ## Sites -/

/-- A place where a marker stands. -/
structure Site where
  /-- The keyword that it has been recognised by. -/
  keyword : String
  /-- The keyword as it is written. -/
  written : Text
  /-- The text behind the keyword. -/
  behind : Text
  deriving DecidableEq, Repr

/-- The marker at the front of a text. -/
def siteAt? (t : Text) : Option Site :=
  match dropWord? "cppconform:".toList t with
  | none => none
  | some after =>
    let lead := after.dropWhile isBlank
    keywords.findSome? fun word =>
      match dropWord? word.toList lead with
      | some rest => if endsKeyword rest.head? then some ⟨word, lead.take word.length, rest⟩ else none
      | none => none

/-- What is read of a site. -/
def Site.marker (s : Site) : Marker := ⟨kindOf s.written, normalised (listAt s.behind).1⟩

theorem leading_eq (t : Text) : leading? t = (siteAt? t).map fun s => (s.marker, (listAt s.behind).2) := by
  unfold leading? siteAt? keyword?
  cases dropWord? "cppconform:".toList t with
  | none => rfl
  | some after =>
    dsimp only
    induction keywords with
    | nil => rfl
    | cons word words ih =>
      rw [List.findSome?_cons, List.findSome?_cons]
      cases dropWord? word.toList (after.dropWhile isBlank) with
      | none => exact ih
      | some rest =>
        by_cases hends : endsKeyword rest.head? = true
        · simp [hends, Site.marker]
        · simpa [hends] using ih

/-- The sites of a text, in order. -/
def sites (t : Text) : List Site :=
  match t with
  | [] => []
  | g :: rest =>
    match _h : siteAt? (g :: rest) with
    | some s => s :: sites (listAt s.behind).2
    | none => sites rest
termination_by t.length
decreasing_by
  · exact length_leading_lt (by rw [leading_eq, _h]; rfl)
  · simp

theorem inText_eq (t : Text) : inText t = (sites t).map Site.marker := by
  fun_induction sites t with
  | case1 => rw [inText]; rfl
  | case2 g rest s hs ih =>
    rw [inText]
    split
    next m after heq =>
      rw [leading_eq, hs] at heq
      obtain ⟨rfl, rfl⟩ := Prod.mk.inj (Option.some.inj heq)
      rw [ih, List.map_cons]
    next heq =>
      rw [leading_eq, hs] at heq
      exact absurd heq (by simp)
  | case3 g rest hs ih =>
    rw [inText]
    split
    next m after heq =>
      rw [leading_eq, hs] at heq
      exact absurd heq (by simp)
    next => exact ih

theorem exists_siteAt_of_mem {t : Text} {s : Site} (hs : s ∈ sites t) : ∃ u, siteAt? u = some s := by
  fun_induction sites t with
  | case1 => exact absurd hs (by simp)
  | case2 g rest found hfound ih =>
    rcases List.mem_cons.mp hs with rfl | hs
    · exact ⟨_, hfound⟩
    · exact ih hs
  | case3 g rest hnone ih => exact ih hs

/-- What stands at a site is its keyword. -/
theorem spells_of_mem_sites {t : Text} {s : Site} (hs : s ∈ sites t) :
    s.keyword ∈ keywords ∧ Spells s.keyword.toList s.written := by
  obtain ⟨u, hu⟩ := exists_siteAt_of_mem hs
  unfold siteAt? at hu
  split at hu
  next => exact absurd hu (by simp)
  next after _ =>
    obtain ⟨word, hword, hfound⟩ := List.exists_of_findSome?_eq_some hu
    split at hfound
    next rest hdrop =>
      split at hfound
      next =>
        obtain rfl := Option.some.inj hfound
        obtain ⟨lead, hlead, hspells⟩ := dropWord_eq_some_iff.mp hdrop
        have hlength : lead.length = word.length := by
          rw [← String.length_toList]
          exact hspells.length_eq.symm
        refine ⟨hword, ?_⟩
        show Spells word.toList ((after.dropWhile isBlank).take word.length)
        rw [hlead, ← hlength, List.take_left]
        exact hspells
      next => exact absurd hfound (by simp)
    next => exact absurd hfound (by simp)

/-! ## What a keyword means -/

/-- What a keyword is documented to turn off. -/
def kindOfKeyword (word : String) : MarkerKind :=
  match word with
  | "disable-file" => .file
  | "disable-line" => .line
  | "disable" => .line
  | "disable-next-line" => .nextLine
  | "disable-begin" => .regionStart
  | _ => .regionEnd

theorem kindOf_eq (t : Text) :
    kindOf t = ((Case.lowerText t).toString?.map kindOfKeyword).getD .regionEnd := by
  unfold kindOf
  cases (Case.lowerText t).toString? with
  | none => rfl
  | some word =>
    show _ = kindOfKeyword word
    unfold kindOfKeyword
    split <;> split <;> simp_all

/-- A letter of ASCII has the letter that it is recognised as for its small form. -/
theorem lowerGlyph_of_sameLetter {c : Char} {g : Glyph} (h : sameLetter c g = true) (hc : c.toLower = c)
    (hg : g.IsAscii) : Case.lowerGlyph g = [.scalar c] := by
  cases g with
  | raw b => exact hg.elim
  | scalar d =>
    have hd : d.toNat < 128 := hg
    have hne : ∀ e : Char, 128 ≤ e.toNat → d ≠ e := by
      rintro e he rfl
      omega
    simp only [sameLetter, Bool.or_eq_true, Bool.and_eq_true, beq_iff_eq, hne 'İ' (by decide),
      hne 'ı' (by decide), hne 'ſ' (by decide), hne '\u212A' (by decide), or_false, and_false] at h
    have hlower : d.toLower = c := by
      rcases h with rfl | h
      · exact hc
      · exact h
    show (Case.lowerChar d).map Glyph.scalar = _
    rw [Case.lowerChar_of_lt hd, hlower]
    rfl

theorem toLower_of_le {c : Char} (h : 128 ≤ c.toNat) : c.toLower = c := by
  unfold Char.toLower
  rw [dif_neg]
  rintro ⟨-, hz⟩
  rw [UInt32.le_iff_toNat_le] at hz
  have hc : c.toNat = c.val.toNat := rfl
  have hlast : 'Z'.val.toNat = 90 := rfl
  omega

/-- A letter beyond ASCII that is recognised as another one than `k` does not have that one for its small
form. -/
theorem exists_not_isAscii_of_sameLetter {c : Char} {g : Glyph} (h : sameLetter c g = true)
    (hc : c.toNat < 128) (hk : c ≠ 'k') (hg : ¬g.IsAscii) : ∃ a ∈ Case.lowerGlyph g, ¬a.IsAscii := by
  cases g with
  | raw b => exact absurd h (by simp [sameLetter])
  | scalar d =>
    have hd : 128 ≤ d.toNat := Nat.le_of_not_lt hg
    have hne : d ≠ c := by
      rintro rfl
      omega
    simp only [sameLetter, toLower_of_le hd, Bool.or_eq_true, Bool.and_eq_true, beq_iff_eq, hne, hk,
      false_and, or_false, false_or] at h
    rcases h with ⟨-, rfl | rfl⟩ | ⟨-, rfl⟩ <;> decide

/-- The letters of the keywords are small letters of ASCII, and `k` is none of them. -/
theorem letters_keywords :
    ∀ word ∈ keywords, ∀ c ∈ word.toList, c.toLower = c ∧ c.toNat < 128 ∧ c ≠ 'k' := by
  have hall : ∀ word ∈ keywords,
      (word.toList.all fun c => c.toLower = c ∧ c.toNat < 128 ∧ c ≠ 'k') = true := by
    decide
  intro word hword c hc
  simpa using List.all_eq_true.mp (hall word hword) c hc

theorem lowerText_of_spells {word : List Char} {t : Text} (h : Spells word t)
    (hword : ∀ c ∈ word, c.toLower = c) (hascii : ∀ g ∈ t, g.IsAscii) :
    Case.lowerText t = word.map Glyph.scalar := by
  induction h with
  | nil => rfl
  | @cons c g word t hsame _ ih =>
    rw [List.forall_mem_cons] at hword hascii
    unfold Case.lowerText at ih ⊢
    rw [List.flatMap_cons, ih hword.2 hascii.2, lowerGlyph_of_sameLetter hsame hword.1 hascii.1]
    rfl

theorem exists_not_isAscii_of_spells {word : List Char} {t : Text} (h : Spells word t)
    (hword : ∀ c ∈ word, c.toNat < 128 ∧ c ≠ 'k') (hbeyond : ¬∀ g ∈ t, g.IsAscii) :
    ∃ a ∈ Case.lowerText t, ¬a.IsAscii := by
  induction h with
  | nil => exact absurd (by simp) hbeyond
  | @cons c g word t hsame _ ih =>
    rw [List.forall_mem_cons] at hword hbeyond
    show ∃ a ∈ (g :: t).flatMap Case.lowerGlyph, _
    rw [List.flatMap_cons]
    by_cases hg : g.IsAscii
    · obtain ⟨a, ha, hnot⟩ := ih hword.2 fun hall => hbeyond ⟨hg, hall⟩
      exact ⟨a, List.mem_append_right _ ha, hnot⟩
    · obtain ⟨a, ha, hnot⟩ := exists_not_isAscii_of_sameLetter hsame hword.1.1 hword.1.2 hg
      exact ⟨a, List.mem_append_left _ ha, hnot⟩

/-- A word beyond ASCII is none of the keywords, and so it is the end of a region. -/
theorem kindOfKeyword_of_not_isAscii {word : String} (h : ∃ a ∈ Text.ofString word, ¬a.IsAscii) :
    kindOfKeyword word = .regionEnd := by
  unfold kindOfKeyword
  split
  case h_6 => rfl
  all_goals exact absurd h (by decide)

/-- A keyword in ASCII means what is documented for it, and any other one is the end of a region. -/
theorem kind_marker {t : Text} {s : Site} (hs : s ∈ sites t) :
    s.marker.kind = if ∀ g ∈ s.written, g.IsAscii then kindOfKeyword s.keyword else .regionEnd := by
  obtain ⟨hkeyword, hspells⟩ := spells_of_mem_sites hs
  have hletters := letters_keywords s.keyword hkeyword
  show kindOf s.written = _
  rw [kindOf_eq]
  split
  next hascii =>
    have hlower : Case.lowerText s.written = Text.ofString s.keyword :=
      lowerText_of_spells hspells (fun c hc => (hletters c hc).1) hascii
    rw [Text.toString_eq_some_iff.mpr hlower]
    rfl
  next hbeyond =>
    have hnot := exists_not_isAscii_of_spells hspells (fun c hc => (hletters c hc).2) hbeyond
    cases hword : (Case.lowerText s.written).toString? with
    | none => rfl
    | some word =>
      rw [Text.toString_eq_some_iff.mp hword] at hnot
      exact kindOfKeyword_of_not_isAscii hnot

/-- The marker that is documented for a site. -/
def Site.documented (s : Site) : Marker := ⟨kindOfKeyword s.keyword, s.marker.rules⟩

/-- The keyword of a site is known as it is written: it is in ASCII, or is the end of a region anyway. -/
def Site.IsKnown (s : Site) : Prop := (∀ g ∈ s.written, g.IsAscii) ∨ s.keyword = "disable-end"

instance (s : Site) : Decidable s.IsKnown :=
  inferInstanceAs (Decidable ((∀ g ∈ s.written, g.IsAscii) ∨ s.keyword = "disable-end"))

/-- A site is read as it is documented just if its keyword is known. -/
theorem marker_eq_documented_iff {t : Text} {s : Site} (hs : s ∈ sites t) :
    s.marker = s.documented ↔ s.IsKnown := by
  have hends : ∀ word ∈ keywords, kindOfKeyword word = .regionEnd ↔ word = "disable-end" := by decide
  have hkinds : s.marker = s.documented ↔ s.marker.kind = kindOfKeyword s.keyword := by
    constructor
    · intro h
      exact congrArg Marker.kind h
    · intro h
      show Marker.mk s.marker.kind s.marker.rules = _
      rw [h]
      rfl
  rw [hkinds, kind_marker hs, Site.IsKnown, ← hends s.keyword (spells_of_mem_sites hs).1]
  by_cases hascii : ∀ g ∈ s.written, g.IsAscii
  · rw [if_pos hascii]
    exact iff_of_true rfl (Or.inl hascii)
  · rw [if_neg hascii, or_iff_right hascii]
    exact eq_comm

end Marker

end HouseStyle
