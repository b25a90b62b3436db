import HouseStyle.Proofs.Quantities

/-!
# Integers in the binary format

An integer is rounded to 53 digits, so it has a place in the format unless it reaches the middle above the
largest finite number (`ofInt?_eq_none_iff`). A positive integer stays positive
(`below_of_ofInt?`), and for a number of the format the test against zero tells whether it is positive, unless
it is none (`below_of_le_zero`).
-/

namespace HouseStyle

namespace Binary64

/-! ## The significand and the exponent of an integer -/

theorem exponentFor_one {n : Nat} (hn : n ≠ 0) : exponentFor n 1 = (n.log2 : Int) - 52 := by
  have hlog := Nat.log2_self_le hn
  -- the logarithm of an integer is exact, so no digit is missing
  have hfits : (if (0 : Int) ≤ (n.log2 : Int) - 52 then
        decide (1 * Nat.pow 2 (((n.log2 : Int) - 52).toNat + 53 - 1) ≤ n)
      else decide (1 * Nat.pow 2 (53 - 1) ≤ n * Nat.pow 2 (-((n.log2 : Int) - 52)).toNat)) = true := by
    split
    next h =>
      have hdigits : ((n.log2 : Int) - 52).toNat + 53 - 1 = n.log2 := by omega
      rw [decide_eq_true_eq, hdigits, Nat.one_mul]
      exact hlog
    next h =>
      obtain ⟨k, hk⟩ : ∃ k, (-((n.log2 : Int) - 52)).toNat = k ∧ n.log2 + k = 53 - 1 := ⟨_, rfl, by omega⟩
      rw [decide_eq_true_eq, hk.1, Nat.one_mul, ← hk.2]
      calc Nat.pow 2 (n.log2 + k) = 2 ^ n.log2 * 2 ^ k := Nat.pow_add 2 n.log2 k
        _ ≤ n * Nat.pow 2 k := Nat.mul_le_mul_right _ hlog
  have hone : Nat.log2 1 = 0 := by decide
  unfold exponentFor
  simp only [hone, precision, minExponent]
  rw [show ((n.log2 : Int) - (0 : Nat) - ((53 : Nat) - 1 : Int)) = (n.log2 : Int) - 52 by omega, if_pos hfits]
  omega

/-- Rounding goes up to an even number from the middle below it on. -/
theorem roundQuotient_eq_iff {n h m : Nat} (heven : m % 2 = 0) (hm : 0 < m) (hn : n < m * (2 * h)) :
    roundQuotient n (2 * h) = m ↔ m * (2 * h) - h ≤ n := by
  obtain ⟨k, rfl⟩ := Nat.exists_eq_add_one.mpr hm
  have hpos : 0 < 2 * h := by
    refine Nat.pos_of_ne_zero fun hzero => ?_
    rw [hzero, Nat.mul_zero] at hn
    exact absurd hn (Nat.not_lt_zero n)
  have hmiddle : (k + 1) * (2 * h) - h = k * (2 * h) + h := by
    rw [Nat.succ_mul]
    omega
  have hdiv := Nat.div_add_mod n (2 * h)
  have hmod := Nat.mod_lt n hpos
  have hle : n / (2 * h) ≤ k := Nat.le_of_lt_succ ((Nat.div_lt_iff_lt_mul hpos).mpr hn)
  rw [hmiddle]
  by_cases hk : n / (2 * h) = k
  · rw [hk, Nat.mul_comm] at hdiv
    unfold roundQuotient
    dsimp only
    rw [hk]
    split
    · omega
    · split
      · omega
      · rw [if_neg (by omega)]
        omega
  · have hbelow : n < k * (2 * h) := (Nat.div_lt_iff_lt_mul hpos).mp (by omega)
    have hround : roundQuotient n (2 * h) ≤ n / (2 * h) + 1 := by
      unfold roundQuotient
      dsimp only
      split
      · omega
      · split
        · omega
        · split <;> omega
    omega

theorem le_roundQuotient (n d : Nat) : n / d ≤ roundQuotient n d := by
  unfold roundQuotient
  dsimp only
  split
  · exact Nat.le_refl _
  · split
    · exact Nat.le_succ _
    · split
      · exact Nat.le_refl _
      · exact Nat.le_succ _

theorem nearest?_of_ne_zero {n : Nat} (hn : n ≠ 0) :
    nearest? n 1 =
      if scaled n 1 ((n.log2 : Int) - 52) = Nat.pow 2 precision then
        if maxExponent < (n.log2 : Int) - 52 + 1 then none
        else some (Nat.pow 2 (precision - 1), (n.log2 : Int) - 52 + 1)
      else if maxExponent < (n.log2 : Int) - 52 then none
      else some (scaled n 1 ((n.log2 : Int) - 52), (n.log2 : Int) - 52) := by
  unfold nearest?
  rw [if_neg hn, exponentFor_one hn]
  dsimp only
  split <;> rfl

/-- A significand of an integer that is not zero is not zero. -/
theorem scaled_pos {n : Nat} (hn : n ≠ 0) : 0 < scaled n 1 ((n.log2 : Int) - 52) := by
  have hlog := Nat.log2_self_le hn
  unfold scaled
  split
  next h =>
    refine Nat.lt_of_lt_of_le ?_ (le_roundQuotient _ _)
    rw [Nat.one_mul]
    refine Nat.div_pos (Nat.le_trans (Nat.pow_le_pow_right (by decide) ?_) hlog) (Nat.two_pow_pos _)
    omega
  next h =>
    refine Nat.lt_of_lt_of_le ?_ (le_roundQuotient _ _)
    rw [Nat.div_one]
    exact Nat.mul_pos (Nat.pos_of_ne_zero hn) (Nat.two_pow_pos _)

theorem pos_of_nearest? {n m : Nat} {e : Int} (hn : n ≠ 0) (h : nearest? n 1 = some (m, e)) : 0 < m := by
  rw [nearest?_of_ne_zero hn] at h
  split at h
  · split at h
    · exact absurd h (by simp)
    · obtain ⟨rfl, -⟩ := Prod.mk.inj (Option.some.inj h)
      decide
  · split at h
    · exact absurd h (by simp)
    · obtain ⟨rfl, -⟩ := Prod.mk.inj (Option.some.inj h)
      exact scaled_pos hn

/-- The middle between the largest finite number and the power of two above it. -/
def firstTooLarge : Nat := 2 ^ 1024 - 2 ^ 970

/-- The integers that are too large are those from the middle above the largest finite number on. -/
theorem nearest?_eq_none_iff (n : Nat) : nearest? n 1 = none ↔ firstTooLarge ≤ n := by
  have hbound : firstTooLarge = Nat.pow 2 precision * (2 * 2 ^ 970) - 2 ^ 970 := by decide +kernel
  by_cases hn : n = 0
  · subst hn
    exact iff_of_false (by simp [nearest?]) (by decide +kernel)
  have hlog := Nat.log2_self_le hn
  have hlt := Nat.lt_log2_self (n := n)
  rw [nearest?_of_ne_zero hn, hbound]
  rcases Nat.lt_trichotomy n.log2 1023 with hsmall | htop | hlarge
  · have hfar : 2 ^ 1023 ≤ Nat.pow 2 precision * (2 * 2 ^ 970) - 2 ^ 970 := by decide +kernel
    have hle : 2 ^ (n.log2 + 1) ≤ 2 ^ 1023 := pow_le_pow_right₀ one_le_two hsmall
    refine iff_of_false ?_ (Nat.not_le_of_lt (Nat.lt_of_lt_of_le hlt (Nat.le_trans hle hfar)))
    rw [maxExponent]
    split
    · rw [if_neg (by omega)]
      exact Option.some_ne_none _
    · rw [if_neg (by omega)]
      exact Option.some_ne_none _
  · -- the exponent is the largest one, and rounding decides
    have hscaled : scaled n 1 ((n.log2 : Int) - 52) = roundQuotient n (2 * 2 ^ 970) := by
      rw [htop, scaled, if_pos (by decide)]
      exact congrArg (roundQuotient n) (by decide +kernel)
    have hupper : n < Nat.pow 2 precision * (2 * 2 ^ 970) := by
      rw [htop] at hlt
      refine Nat.lt_of_lt_of_eq hlt ?_
      decide +kernel
    rw [hscaled, ← roundQuotient_eq_iff (by decide) (by decide) hupper, htop]
    split
    next h => exact iff_of_true (if_pos (by decide)) h
    next h =>
      refine iff_of_false ?_ h
      rw [if_neg (by decide)]
      exact Option.some_ne_none _
  · have hfar : Nat.pow 2 precision * (2 * 2 ^ 970) - 2 ^ 970 ≤ 2 ^ 1024 := by decide +kernel
    have hge : 2 ^ 1024 ≤ 2 ^ n.log2 := pow_le_pow_right₀ one_le_two hlarge
    refine iff_of_true ?_ (Nat.le_trans hfar (Nat.le_trans hge hlog))
    rw [maxExponent]
    split
    · exact if_pos (by omega)
    · exact if_pos (by omega)

theorem ofInt?_eq_none_iff (n : Int) : ofInt? n = none ↔ firstTooLarge ≤ n.natAbs := by
  rw [ofInt?, Option.map_eq_none_iff, nearest?_eq_none_iff]

end Binary64

/-! ## Positive quantities -/

open ExtendedRat (ofRat)

/-- A number of the format that is not zero or less is positive, unless it is none. -/
theorem Quantity.below_of_le_zero {x : Binary64} (hx : x ≠ .nan) (h : x.le .zero = false) :
    (Quantity.whole 0).Below (.real x) := by
  have hnumber : (Quantity.real x).IsNumber := by
    cases x with
    | nan => exact absurd rfl hx
    | infinite s => rfl
    | finite s m e => rfl
  have hzero : (Quantity.whole 0).value? = Binary64.zero.value? := by
    simp [value?, Binary64.value?, Binary64.zero, Binary64.signed]
  rw [IsNumber.below_iff (by rfl) hnumber, ← Bool.not_eq_true, le_iff, hzero]
  rw [← Bool.not_eq_true, Binary64.le_iff] at h
  exact h

/-- A positive integer stays positive. -/
theorem Quantity.below_of_ofInt? {n : Int} {x : Binary64} (hn : 0 < n) (h : Binary64.ofInt? n = some x) :
    (Quantity.whole 0).Below (.real x) := by
  obtain ⟨⟨m, e⟩, hnearest, rfl⟩ := Option.map_eq_some_iff.mp h
  have hm := Binary64.pos_of_nearest? (by omega) hnearest
  have hsign : decide (n < 0) = false := decide_eq_false (by omega)
  rw [hsign]
  refine below_of_le_zero (by simp) ?_
  show (Binary64.compareScaled (Binary64.signed false m) e (Binary64.signed false 0) Binary64.minExponent).isLE = false
  rw [← Bool.not_eq_true, Binary64.isLE_compareScaled]
  have hpos : (0 : ℚ) < (m : ℚ) * 2 ^ e := mul_pos (by exact_mod_cast hm) (zpow_pos two_pos e)
  simpa [Binary64.signed] using hpos

end HouseStyle
