import HouseStyle.Number.Binary64
import Mathlib.Algebra.Order.Field.Basic
import Mathlib.Algebra.Order.Field.Rat
import Mathlib.Algebra.Order.GroupWithZero.Basic
import Mathlib.Order.WithBot

/-!
# The order of quantities

A quantity stands for a rational number or for one of the two infinities (`Quantity.value?`), or for nothing
if it is not a number. Comparing quantities is comparing what they stand for, without rounding
(`Quantity.le_iff`), so among numbers it is a linear order; with what is not a number every comparison fails.
A sum is rounded, but it is a number if what is added to a finite quantity is one (`Quantity.isNumber_add?_iff`).
-/

namespace HouseStyle

/-- An exact number, or one of the two infinities. -/
abbrev ExtendedRat := WithBot (WithTop ℚ)

namespace ExtendedRat

/-- An exact number. -/
def ofRat (q : ℚ) : ExtendedRat := ((q : WithTop ℚ) : ExtendedRat)

variable {p q : ℚ}

@[simp] theorem ofRat_le_ofRat : ofRat p ≤ ofRat q ↔ p ≤ q := by
  rw [ofRat, ofRat, WithBot.coe_le_coe, WithTop.coe_le_coe]

@[simp] theorem ofRat_ne_bot : ofRat q ≠ ⊥ := WithBot.coe_ne_bot

@[simp] theorem ofRat_ne_top : ofRat q ≠ ⊤ := fun h => WithTop.coe_ne_top (WithBot.coe_injective h)

end ExtendedRat

open ExtendedRat (ofRat)

namespace Binary64

variable {x y : Binary64}

/-- What a number of the format stands for, if it is one. -/
def value? : Binary64 → Option ExtendedRat
  | .finite s m e => some (ofRat (signed s m * 2 ^ e))
  | .infinite negative => some (if negative then ⊥ else ⊤)
  | .nan => none

/-- Products with powers of two are compared exactly. -/
theorem isLE_compareScaled {a e b f : Int} :
    (compareScaled a e b f).isLE = true ↔ (a * 2 ^ e : ℚ) ≤ b * 2 ^ f := by
  have hscale : ∀ (n g : Int), min e f ≤ g →
      (n * 2 ^ g : ℚ) = ((n * Nat.pow 2 (g - min e f).toNat : Int) : ℚ) * 2 ^ min e f := by
    intro n g hg
    have hexponent : g = ((g - min e f).toNat : Int) + min e f := by omega
    conv_lhs => rw [hexponent, zpow_add₀ two_ne_zero, zpow_natCast, ← mul_assoc]
    simp
  rw [hscale a e (min_le_left e f), hscale b f (min_le_right e f),
    mul_le_mul_iff_left₀ (zpow_pos two_pos _), Int.cast_le]
  exact Std.isLE_compare

theorem le_iff : x.le y = true ↔ ∃ a ∈ x.value?, ∃ b ∈ y.value?, a ≤ b := by
  cases x with
  | nan => simp [le, value?]
  | infinite s =>
    cases y with
    | nan => cases s <;> simp [le, value?]
    | infinite t => cases s <;> cases t <;> simp [le, value?]
    | finite t n f => cases s <;> simp [le, value?]
  | finite s m e =>
    cases y with
    | nan => simp [le, value?]
    | infinite t => cases t <;> simp [le, value?]
    | finite t n f => simp [le, value?, isLE_compareScaled]

/-- Rounding gives a number. -/
theorem isSome_value?_ofRatio (negative : Bool) (num den : Nat) :
    (ofRatio negative num den).value?.isSome = true := by
  unfold ofRatio
  split <;> rfl

theorem isSome_value?_add_finite (s : Bool) (m : Nat) (e : Int) (y : Binary64) :
    ((finite s m e).add y).value?.isSome = y.value?.isSome := by
  cases y with
  | nan => rfl
  | infinite t => rfl
  | finite t n f =>
    unfold add
    dsimp only
    split
    · rfl
    · split
      · exact isSome_value?_ofRatio _ _ _
      · exact isSome_value?_ofRatio _ _ _

end Binary64

namespace Quantity

variable {a b c d : Quantity}

/-- What a quantity stands for, if it is a number. -/
def value? : Quantity → Option ExtendedRat
  | .whole n => some (ofRat n)
  | .real x => x.value?

/-- A quantity that stands for something. -/
def IsNumber (a : Quantity) : Prop := a.value?.isSome = true

/-- A quantity that stands for less than another one does. -/
def Below (a b : Quantity) : Prop := ∃ x ∈ a.value?, ∃ y ∈ b.value?, x < y

theorem le_iff : a.le b = true ↔ ∃ x ∈ a.value?, ∃ y ∈ b.value?, x ≤ y := by
  cases a with
  | whole m =>
    cases b with
    | whole n => simp [le, value?]
    | real y =>
      cases y with
      | nan => simp [le, value?, Binary64.value?]
      | infinite t => cases t <;> simp [le, value?, Binary64.value?]
      | finite t n f =>
        simp [le, value?, Binary64.value?, Binary64.isLE_compareScaled]
  | real x =>
    cases b with
    | whole n =>
      cases x with
      | nan => simp [le, value?, Binary64.value?]
      | infinite s => cases s <;> simp [le, value?, Binary64.value?]
      | finite s m e =>
        simp [le, value?, Binary64.value?, Binary64.isLE_compareScaled]
    | real y => exact Binary64.le_iff

theorem le_trans (hab : a.le b = true) (hbc : b.le c = true) : a.le c = true := by
  obtain ⟨x, hx, y, hy, hxy⟩ := le_iff.mp hab
  obtain ⟨y', hy', z, hz, hyz⟩ := le_iff.mp hbc
  obtain rfl := Option.mem_unique hy hy'
  exact le_iff.mpr ⟨x, hx, z, hz, hxy.trans hyz⟩

theorem IsNumber.le_refl (h : a.IsNumber) : a.le a = true := by
  obtain ⟨x, hx⟩ := Option.isSome_iff_exists.mp h
  exact le_iff.mpr ⟨x, hx, x, hx, le_rfl⟩

theorem isNumber_of_le_left (h : a.le b = true) : a.IsNumber := by
  obtain ⟨x, hx, -⟩ := le_iff.mp h
  exact Option.isSome_iff_exists.mpr ⟨x, hx⟩

/-- One number is below another one if the other one is not at most as large. -/
theorem IsNumber.below_iff (ha : a.IsNumber) (hb : b.IsNumber) : a.Below b ↔ b.le a = false := by
  obtain ⟨x, hx⟩ := Option.isSome_iff_exists.mp ha
  obtain ⟨y, hy⟩ := Option.isSome_iff_exists.mp hb
  rw [← Bool.not_eq_true, le_iff]
  simp [Below, hx, hy]

/-- What is not a number is never reached, -/
theorem le_eq_false_of_not_isNumber (h : ¬ a.IsNumber) : a.le b = false :=
  Bool.eq_false_iff.mpr fun hle => h (isNumber_of_le_left hle)

/-- and nothing is below it. -/
theorem not_below_of_not_isNumber (h : ¬ b.IsNumber) : ¬ a.Below b := by
  rintro ⟨-, -, y, hy, -⟩
  exact h (Option.isSome_iff_exists.mpr ⟨y, hy⟩)

/-! ## Sums -/

/-- A quantity that stands for a rational number. -/
def IsFinite (a : Quantity) : Prop := ∃ q : ℚ, a.value? = some (ofRat q)

theorem IsFinite.eq_finite_of_toReal? {x : Binary64} (ha : a.IsFinite) (h : a.toReal? = some x) :
    ∃ s m e, x = .finite s m e := by
  cases a with
  | whole n =>
    obtain ⟨⟨m, e⟩, -, rfl⟩ := Option.map_eq_some_iff.mp h
    exact ⟨_, _, _, rfl⟩
  | real y =>
    obtain rfl : y = x := Option.some.inj h
    obtain ⟨q, hq⟩ := ha
    cases y with
    | finite s m e => exact ⟨s, m, e, rfl⟩
    | infinite s =>
      cases s with
      | false => exact absurd (Option.some.inj hq).symm ExtendedRat.ofRat_ne_top
      | true => exact absurd (Option.some.inj hq).symm ExtendedRat.ofRat_ne_bot
    | nan => simp [value?, Binary64.value?] at hq

theorem isNumber_iff_of_toReal? {y : Binary64} (h : b.toReal? = some y) :
    y.value?.isSome = true ↔ b.IsNumber := by
  cases b with
  | whole n =>
    obtain ⟨⟨m, e⟩, -, rfl⟩ := Option.map_eq_some_iff.mp h
    exact Iff.rfl
  | real x =>
    obtain rfl : x = y := Option.some.inj h
    exact Iff.rfl

/-- A sum with a finite quantity is a number if the other part is one. -/
theorem IsFinite.isNumber_add?_iff (ha : a.IsFinite) (h : a.add? b = some d) : d.IsNumber ↔ b.IsNumber := by
  have hreal : ∀ x y, a.toReal? = some x → b.toReal? = some y → d = .real (x.add y) →
      (d.IsNumber ↔ b.IsNumber) := by
    rintro x y hx hy rfl
    obtain ⟨s, m, e, rfl⟩ := ha.eq_finite_of_toReal? hx
    rw [← isNumber_iff_of_toReal? hy]
    exact Bool.eq_iff_iff.mp (Binary64.isSome_value?_add_finite s m e y)
  unfold add? at h
  split at h
  next m n =>
    rw [← Option.some.inj h]
    exact Iff.rfl
  next =>
    split at h
    next x y hx hy => exact hreal x y hx hy (Option.some.inj h).symm
    next => exact absurd h (by simp)

end Quantity

end HouseStyle
