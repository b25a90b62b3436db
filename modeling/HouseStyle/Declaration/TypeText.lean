import HouseStyle.Text.Blank
import HouseStyle.Text.Letter

/-!
# What the text of a type says

Types are compared and shown by their normalised text. `isBarePointer` tells from it whether an
object of the type is itself a raw pointer.
-/

namespace HouseStyle.TypeText

/-- Whether a glyph belongs to a word. -/
def isWordGlyph (g : Glyph) : Bool := g.satisfies Letter.isWordChar

/-- What stands in front of a word at the end of a text, when that word is not part of a longer
one. Both texts are read backwards. -/
def beforeWord? (word reversed : Text) : Option Text :=
  match Text.dropLead? word reversed with
  | some rest => if rest.head?.any isWordGlyph then none else some rest
  | none => none

theorem length_dropLead {lead t rest : Text} (h : Text.dropLead? lead t = some rest) :
    t.length = lead.length + rest.length := by
  fun_induction Text.dropLead? lead t with
  | case1 => simp at h; simp [h]
  | case2 => simp at h
  | case3 _ _ _ ih => simp [ih h]; omega
  | case4 => simp at h

theorem length_beforeWord_le {word reversed rest : Text} (h : beforeWord? word reversed = some rest) :
    word.length + rest.length ≤ reversed.length := by
  unfold beforeWord? at h
  split at h
  · rename_i r hr
    split at h
    · simp at h
    · simp only [Option.some.injEq] at h
      have := length_dropLead hr
      subst h
      omega
  · simp at h

/-- A text read backwards, without the `const` and `volatile` it ends with. -/
def withoutTrailingCv (reversed : Text) : Text :=
  match _h : (beforeWord? (Text.ofString "const").reverse reversed).orElse
      fun _ => beforeWord? (Text.ofString "volatile").reverse reversed with
  | some rest => withoutTrailingCv (rest.dropWhile (Glyph.satisfies Blank.isBlank))
  | none => reversed
termination_by reversed.length
decreasing_by
  have hd := (List.dropWhile_sublist (Glyph.satisfies Blank.isBlank) (l := rest)).length_le
  have hlt : rest.length < reversed.length := by
    cases hc : beforeWord? (Text.ofString "const").reverse reversed with
    | some r =>
      rw [hc] at _h
      simp at _h
      subst _h
      have := length_beforeWord_le hc
      simp [Text.ofString] at this
      omega
    | none =>
      rw [hc] at _h
      simp at _h
      have := length_beforeWord_le _h
      simp [Text.ofString] at this
      omega
  omega

/-- Whether a type is a raw pointer: but for trailing qualifiers its text ends in `*`. -/
def isBarePointer (type : Text) : Bool :=
  (withoutTrailingCv type.reverse).head? == some (.scalar '*')

end HouseStyle.TypeText
