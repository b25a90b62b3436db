import HouseStyle.Text.Case

/-!
# The case of ASCII letters

Outside ASCII a change of case can do anything: it can make two glyphs of one, and it can lead to a letter of
ASCII. In ASCII it exchanges letters one for one (`lowerChar_of_lt`), and what it does there can be looked up for
each of the 128 characters (`forall_of_lt`).
-/

namespace HouseStyle

/-- The glyph is an ASCII character. -/
def Glyph.IsAscii : Glyph → Prop
  | .scalar c => c.toNat < 128
  | .raw _ => False

instance (g : Glyph) : Decidable g.IsAscii :=
  match g with
  | .scalar c => inferInstanceAs (Decidable (c.toNat < 128))
  | .raw _ => inferInstanceAs (Decidable False)

namespace Case

variable {c : Char}

theorem lowerChar_of_lt (h : c.toNat < 128) : lowerChar c = [c.toLower] := by
  have hne : ∀ d : Char, 128 ≤ d.toNat → c ≠ d := by
    rintro d hd rfl
    omega
  have hlatin : ('À' ≤ c) = False := by
    rw [Char.le_def, UInt32.le_iff_toNat_le]
    show (192 ≤ c.toNat) = False
    exact eq_false (by omega)
  unfold lowerChar
  rw [if_neg (hne _ (by decide)), if_neg (hne _ (by decide)), if_neg (hne _ (by decide))]
  simp [hlatin]

/-- What holds of each of the 128 characters of ASCII holds of every one of them. -/
theorem forall_of_lt {P : Char → Prop} (hall : ∀ n < 128, P (Char.ofNat n)) (h : c.toNat < 128) : P c := by
  have hc := hall c.toNat h
  rwa [Char.ofNat_toNat] at hc

end Case

end HouseStyle
