import HouseStyle.Proofs.AsciiCase
import HouseStyle.Proofs.Conversion
import Mathlib.Data.List.Basic

/-!
# What a conversion keeps of a name

A name is taken apart into words and put together again in the style. Taking it apart loses nothing but
underscores (`flatten_words`), and putting words together changes nothing but case and adds underscores
(`letters_compose`), as long as the words are ASCII. So the letters and digits of an ASCII name are those of its
conversion, in order. Of other names this cannot be said: their letters may become others, and more.

- `converted_name`: a conversion is an identifier of the style, no keyword, and has the letters of the old name.
-/

namespace HouseStyle.Style

/-- A name as it is read by whoever overlooks case and underscores. -/
def letters (name : Text) : Text := Case.lowerText (name.filter (· != .scalar '_'))

theorem letters_append (t u : Text) : letters (t ++ u) = letters t ++ letters u := by
  unfold letters Case.lowerText
  rw [List.filter_append, List.flatMap_append]

theorem letters_flatten (ts : List Text) : letters ts.flatten = ts.flatMap letters := by
  induction ts with
  | nil => rfl
  | cons t ts ih => rw [List.flatten_cons, letters_append, ih, List.flatMap_cons]

/-- Underscores between words are overlooked. -/
theorem letters_join (ts : List Text) : letters (Text.join [.scalar '_'] ts) = ts.flatMap letters := by
  induction ts with
  | nil => rfl
  | cons t ts ih =>
    cases ts with
    | nil => simp [Text.join]
    | cons u ts =>
      have hsign : letters [.scalar '_'] = [] := by decide
      rw [Text.join, letters_append, letters_append, hsign, ih, List.append_nil]
      · rfl
      · exact List.cons_ne_nil u ts

/-! ## Changes of case -/

/-- What goes unseen of each glyph goes unseen of the text. -/
theorem letters_flatMap {change : Glyph → Text} {t : Text}
    (h : ∀ g ∈ t, letters (change g) = letters [g]) : letters (t.flatMap change) = letters t := by
  induction t with
  | nil => rfl
  | cons g t ih =>
    rw [List.forall_mem_cons] at h
    rw [List.flatMap_cons, letters_append, h.1, ih h.2, ← letters_append, List.singleton_append]

theorem letters_lowerGlyph {g : Glyph} (hg : g.IsAscii) : letters (Case.lowerGlyph g) = letters [g] := by
  cases g with
  | raw b => exact hg.elim
  | scalar c =>
    apply Case.forall_of_lt (P := fun c => letters (Case.lowerGlyph (.scalar c)) = letters [.scalar c]) _ hg
    decide

theorem letters_upperGlyph {g : Glyph} (hg : g.IsAscii) : letters (Case.upperGlyph g) = letters [g] := by
  cases g with
  | raw b => exact hg.elim
  | scalar c =>
    apply Case.forall_of_lt (P := fun c => letters (Case.upperGlyph (.scalar c)) = letters [.scalar c]) _ hg
    decide

theorem letters_lowerText {t : Text} (ht : ∀ g ∈ t, g.IsAscii) : letters (Case.lowerText t) = letters t :=
  letters_flatMap fun g hg => letters_lowerGlyph (ht g hg)

theorem letters_upperText {t : Text} (ht : ∀ g ∈ t, g.IsAscii) : letters (Case.upperText t) = letters t :=
  letters_flatMap fun g hg => letters_upperGlyph (ht g hg)

theorem letters_capitalised {t : Text} (ht : ∀ g ∈ t, g.IsAscii) : letters (capitalised t) = letters t := by
  cases t with
  | nil => rfl
  | cons g rest =>
    rw [List.forall_mem_cons] at ht
    rw [capitalised, letters_append, letters_upperGlyph ht.1, letters_lowerText ht.2, ← letters_append,
      List.singleton_append]

/-! ## Words -/

/-- Words put together in a style have the letters that they have on their own. -/
theorem letters_compose (style : Style) {ws : List Text} (h : ∀ w ∈ ws, ∀ g ∈ w, g.IsAscii) :
    letters (style.compose ws) = letters ws.flatten := by
  have hwords : ∀ change : Text → Text, (∀ w ∈ ws, letters (change w) = letters w) →
      (ws.map change).flatMap letters = letters ws.flatten := by
    intro change hchange
    rw [letters_flatten, List.flatMap_map]
    exact List.flatMap_congr hchange
  cases style with
  | lowerSnake =>
    show letters (Text.join [.scalar '_'] (ws.map Case.lowerText)) = _
    rw [letters_join]
    exact hwords _ fun w hw => letters_lowerText (h w hw)
  | upperSnake =>
    show letters (Text.join [.scalar '_'] (ws.map Case.upperText)) = _
    rw [letters_join]
    exact hwords _ fun w hw => letters_upperText (h w hw)
  | upperCamel =>
    show letters (ws.map capitalised).flatten = _
    rw [letters_flatten]
    exact hwords _ fun w hw => letters_capitalised (h w hw)

theorem flatten_wordsFrom (word t : Text) :
    (wordsFrom word t).flatten = word.reverse ++ t.filter fun g => g != .scalar '_' && g != .scalar ' ' := by
  induction t generalizing word with
  | nil =>
    unfold wordsFrom
    split
    next h => simp [List.isEmpty_iff.mp h]
    next => simp
  | cons g t ih =>
    unfold wordsFrom
    by_cases hg : g = .scalar '_' ∨ g = .scalar ' '
    · -- a separator is the only thing that gets lost
      have hlost : (g != .scalar '_' && g != .scalar ' ') = false := by
        rcases hg with rfl | rfl <;> decide
      rw [if_pos (by simpa using hg), List.filter_cons_of_neg (by simp [hlost])]
      split
      next h => rw [ih, List.isEmpty_iff.mp h]
      next => rw [List.flatten_cons, ih, List.reverse_nil, List.nil_append]
    · have hkept : (g != .scalar '_' && g != .scalar ' ') = true := by
        simpa [not_or] using hg
      rw [if_neg (by simpa using hg), List.filter_cons, if_pos hkept]
      split
      next => rw [List.flatten_cons, ih, List.reverse_singleton, List.singleton_append]
      next => rw [ih, List.reverse_cons, List.append_assoc, List.singleton_append]

/-- The words of a name are the name without its underscores. -/
theorem flatten_words {name : Text} (hblank : .scalar ' ' ∉ name) :
    (words name).flatten = name.filter (· != .scalar '_') := by
  rw [words, flatten_wordsFrom, List.reverse_nil, List.nil_append]
  apply List.filter_congr
  intro g hg
  have hne : g ≠ .scalar ' ' := by
    rintro rfl
    exact hblank hg
  simp [hne]

theorem letters_convert {style : Style} {name new : Text} (h : style.convert? name = some new)
    (hblank : .scalar ' ' ∉ name) (hascii : ∀ g ∈ name, g.IsAscii) : letters new = letters name := by
  rw [(convert_eq_some h).1, letters_compose, flatten_words hblank]
  · unfold letters
    rw [List.filter_filter]
    simp only [Bool.and_self]
  · intro w hw g hg
    rcases mem_of_mem_wordsFrom hw hg with hnone | hin
    · exact absurd hnone (by simp)
    · exact hascii g hin

theorem letters_convertTrailing {style : Style} {name new : Text} (h : style.convertTrailing? name = some new)
    (hblank : .scalar ' ' ∉ name) (hascii : ∀ g ∈ name, g.IsAscii) : letters new = letters name := by
  obtain ⟨candidate, hc, rfl⟩ := Option.map_eq_some_iff.mp h
  rw [← letters_convert hc hblank hascii]
  split
  · have hsign : letters [.scalar '_'] = [] := by decide
    rw [letters_append, hsign, List.append_nil]
  · rfl

/-- **Suggested names are valid.** A name that an identifier is converted to, with or without the underscore at
its end, is an identifier of ASCII and no keyword, and it is written in the style that it has been converted to.
The words of the old name are the whole of it but for the underscores, and if it is ASCII, then the new name is
the same apart from case and underscores. -/
theorem converted_name {source : Text} {t : Token} (ht : t ∈ tokens source) (hkind : t.kind = .identifier)
    (style : Style) (keep : Bool) {new : Text}
    (h : (if keep then style.convertTrailing? t.text else style.convert? t.text) = some new) :
    isIdentifier new = true ∧ Keyword.ofText? new = none ∧
      (if keep then style.acceptsTrailing new else style.accepts new) = true ∧
      (words t.text).flatten = t.text.filter (· != .scalar '_') ∧
      ((∀ g ∈ t.text, g.IsAscii) → letters new = letters t.text) := by
  have hname := isName_text ht hkind
  have hclean := hname.lineFeed_not_mem
  have hblank : .scalar ' ' ∉ t.text := fun hin => absurd (hname.2.1 _ hin) (by decide)
  have hwords := flatten_words hblank
  cases keep with
  | false =>
    rw [if_neg (by decide)] at h ⊢
    obtain ⟨-, -, hkeyword, haccepts⟩ := convert_eq_some h
    exact ⟨isIdentifier_of_convert h hclean, hkeyword, haccepts, hwords, letters_convert h hblank⟩
  | true =>
    rw [if_pos rfl] at h ⊢
    obtain ⟨hid, hkeyword⟩ := isIdentifier_of_convertTrailing h hclean
    have haccepts : style.acceptsTrailing new = true := by
      obtain ⟨candidate, hc, rfl⟩ := Option.map_eq_some_iff.mp h
      obtain ⟨hplain, htrailing⟩ := acceptsTrailing_of_accepts (convert_eq_some hc).2.2.2
      split
      · exact htrailing
      · exact hplain
    exact ⟨hid, hkeyword, haccepts, hwords, letters_convertTrailing h hblank⟩

/-- A member with a run of capitals and an underscore at its end. -/
theorem converted_name_trailing :
    ∃ t ∈ tokens (Text.ofString "int HTTPServer2Port_;"), t.kind = .identifier ∧
      Style.lowerSnake.convertTrailing? t.text = some (Text.ofString "http_server2_port_") ∧
      isIdentifier (Text.ofString "http_server2_port_") = true ∧
      Keyword.ofText? (Text.ofString "http_server2_port_") = none ∧
      Style.lowerSnake.acceptsTrailing (Text.ofString "http_server2_port_") = true ∧
      (∀ g ∈ t.text, g.IsAscii) ∧ letters (Text.ofString "http_server2_port_") = letters t.text := by
  obtain ⟨t, ht, hkind, hascii, hconverted⟩ :
      ∃ t ∈ tokens (Text.ofString "int HTTPServer2Port_;"), t.kind = .identifier ∧ (∀ g ∈ t.text, g.IsAscii) ∧
        Style.lowerSnake.convertTrailing? t.text = some (Text.ofString "http_server2_port_") := by
    decide +kernel
  obtain ⟨hid, hkeyword, haccepts, -, hletters⟩ := converted_name ht hkind .lowerSnake true hconverted
  exact ⟨t, ht, hkind, hconverted, hid, hkeyword, haccepts, hascii, hletters hascii⟩

end HouseStyle.Style
