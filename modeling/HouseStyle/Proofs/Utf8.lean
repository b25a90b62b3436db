import HouseStyle.Text.Utf8

/-!
# Reading and writing bytes

A byte string that is read as text and written again is the same byte string (`encode_decode`): every
character is written with the bytes that it was read from, and every other byte stands for itself. A
file whose text is left alone therefore keeps its bytes.
-/

namespace HouseStyle.Utf8

theorem toNat_ofNat {n : Nat} (h : n < 0xD800 ∨ 0xDFFF < n ∧ n < 0x110000) :
    (Char.ofNat n).val.toNat = n := by
  have hvalid : n.isValidChar := by
    unfold Nat.isValidChar
    omega
  rw [Char.ofNat, dif_pos hvalid]
  rfl

theorem ofNat_eq {b : UInt8} {n : Nat} (h : n = b.toNat) : UInt8.ofNat n = b := by
  rw [h, UInt8.ofNat_toNat]

theorem toNat_of_isContinuation {b : UInt8} (h : isContinuation b = true) :
    b.toNat = payload b + 128 ∧ payload b < 64 := by
  unfold isContinuation at h
  simp only [Bool.and_eq_true, decide_eq_true_eq, UInt8.le_iff_toNat_le, UInt8.lt_iff_toNat_lt] at h
  unfold payload
  have hlow : (0x80 : UInt8).toNat = 128 := rfl
  have hhigh : (0xC0 : UInt8).toNat = 192 := rfl
  omega

/-- What the second byte of a character may be, told by its payload. -/
theorem payload_of_mayFollow {lead second : UInt8} (h : mayFollow lead second = true) :
    isContinuation second = true ∧ (lead.toNat = 0xE0 → 32 ≤ payload second) ∧
      (lead.toNat = 0xED → payload second < 32) ∧ (lead.toNat = 0xF0 → 16 ≤ payload second) ∧
      (lead.toNat = 0xF4 → payload second < 16) := by
  unfold mayFollow at h
  simp only [Bool.and_eq_true, Bool.not_eq_true', Bool.and_eq_false_iff, beq_eq_false_iff_ne, ne_eq,
    decide_eq_false_iff_not, UInt8.lt_iff_toNat_lt, UInt8.le_iff_toNat_le, ← UInt8.toNat_inj,
    UInt8.reduceToNat] at h
  obtain ⟨⟨⟨⟨hc, hE0⟩, hED⟩, hF0⟩, hF4⟩ := h
  have := toNat_of_isContinuation hc
  refine ⟨hc, ?_, ?_, ?_, ?_⟩ <;> omega

/-- The lead bytes of characters of each length. -/
theorem toNat_of_announced (b : UInt8) :
    (announced? b = some 1 → b.toNat < 128) ∧
      (announced? b = some 2 → 0xC2 ≤ b.toNat ∧ b.toNat < 0xE0) ∧
      (announced? b = some 3 → 0xE0 ≤ b.toNat ∧ b.toNat < 0xF0) ∧
      (announced? b = some 4 → 0xF0 ≤ b.toNat ∧ b.toNat < 0xF5) := by
  unfold announced?
  simp only [Bool.and_eq_true, decide_eq_true_eq, UInt8.lt_iff_toNat_lt, UInt8.le_iff_toNat_le, UInt8.reduceToNat]
  grind

/-- A character that is read is written with the bytes that it was read from. -/
theorem encodeChar_of_decodeChar {bs rest : List UInt8} {c : Char}
    (h : decodeChar? bs = some (c, rest)) : bs = String.utf8EncodeChar c ++ rest := by
  unfold decodeChar? at h
  split at h
  · exact absurd h (by simp)
  · next b bs =>
    obtain ⟨h1, h2, h3, h4⟩ := toNat_of_announced b
    -- one case for each number of bytes that the first one announces
    split at h
    · next ha =>
      obtain ⟨rfl, rfl⟩ := Prod.mk.inj (Option.some.inj h)
      have hb := h1 ha
      have hv := toNat_ofNat (n := b.toNat) (by omega)
      unfold String.utf8EncodeChar
      simp only [hv]
      rw [if_pos (by omega), ofNat_eq rfl]
      rfl
    · next b₂ bs ha =>
      split at h
      · next hf =>
        obtain ⟨rfl, rfl⟩ := Prod.mk.inj (Option.some.inj h)
        have hb := h2 ha
        obtain ⟨hc, -⟩ := payload_of_mayFollow hf
        obtain ⟨hb₂, hp₂⟩ := toNat_of_isContinuation hc
        have hv := toNat_ofNat (n := b.toNat % 32 * 64 + payload b₂) (by omega)
        unfold String.utf8EncodeChar
        simp only [hv]
        rw [if_neg (by omega), if_pos (by omega), ofNat_eq (b := b) (by omega), ofNat_eq (b := b₂) (by omega)]
        rfl
      · exact absurd h (by simp)
    · next b₂ b₃ bs ha =>
      split at h
      · next hf =>
        rw [Bool.and_eq_true] at hf
        obtain ⟨rfl, rfl⟩ := Prod.mk.inj (Option.some.inj h)
        have hb := h3 ha
        obtain ⟨hc, hE0, hED, -⟩ := payload_of_mayFollow hf.1
        obtain ⟨hb₂, hp₂⟩ := toNat_of_isContinuation hc
        obtain ⟨hb₃, hp₃⟩ := toNat_of_isContinuation hf.2
        have hv := toNat_ofNat (n := b.toNat % 16 * 4096 + payload b₂ * 64 + payload b₃) (by omega)
        unfold String.utf8EncodeChar
        simp only [hv]
        rw [if_neg (by omega), if_neg (by omega), if_pos (by omega), ofNat_eq (b := b) (by omega),
          ofNat_eq (b := b₂) (by omega), ofNat_eq (b := b₃) (by omega)]
        rfl
      · exact absurd h (by simp)
    · next b₂ b₃ b₄ bs ha =>
      split at h
      · next hf =>
        rw [Bool.and_eq_true, Bool.and_eq_true] at hf
        obtain ⟨rfl, rfl⟩ := Prod.mk.inj (Option.some.inj h)
        have hb := h4 ha
        obtain ⟨hc, -, -, hF0, hF4⟩ := payload_of_mayFollow hf.1.1
        obtain ⟨hb₂, hp₂⟩ := toNat_of_isContinuation hc
        obtain ⟨hb₃, hp₃⟩ := toNat_of_isContinuation hf.1.2
        obtain ⟨hb₄, hp₄⟩ := toNat_of_isContinuation hf.2
        have hv := toNat_ofNat
          (n := b.toNat % 8 * 262144 + payload b₂ * 4096 + payload b₃ * 64 + payload b₄) (by omega)
        unfold String.utf8EncodeChar
        simp only [hv]
        rw [if_neg (by omega), if_neg (by omega), if_neg (by omega), ofNat_eq (b := b) (by omega),
          ofNat_eq (b := b₂) (by omega), ofNat_eq (b := b₃) (by omega), ofNat_eq (b := b₄) (by omega)]
        rfl
      · exact absurd h (by simp)
    · exact absurd h (by simp)

/-- A character is read off its own bytes, whatever stands behind them; all but the first one are
continuation bytes. -/
theorem decodeChar_local {bs rest : List UInt8} {c : Char} (h : decodeChar? bs = some (c, rest)) :
    ∃ b more, bs = b :: more ++ rest ∧ (∀ a ∈ more, isContinuation a = true) ∧
      ∀ behind, decodeChar? (b :: more ++ behind) = some (c, behind) := by
  unfold decodeChar? at h
  split at h
  · exact absurd h (by simp)
  · next b bs =>
    split at h
    · next ha =>
      obtain ⟨rfl, rfl⟩ := Prod.mk.inj (Option.some.inj h)
      exact ⟨b, [], rfl, by simp, fun behind => by simp [decodeChar?, ha]⟩
    · next b₂ bs ha =>
      split at h
      · next hf =>
        obtain ⟨rfl, rfl⟩ := Prod.mk.inj (Option.some.inj h)
        refine ⟨b, [b₂], rfl, ?_, fun behind => by simp [decodeChar?, ha, hf]⟩
        simpa using (payload_of_mayFollow hf).1
      · exact absurd h (by simp)
    · next b₂ b₃ bs ha =>
      split at h
      · next hf =>
        obtain ⟨rfl, rfl⟩ := Prod.mk.inj (Option.some.inj h)
        refine ⟨b, [b₂, b₃], rfl, ?_, fun behind => by simp [decodeChar?, ha, hf]⟩
        rw [Bool.and_eq_true] at hf
        simpa using ⟨(payload_of_mayFollow hf.1).1, hf.2⟩
      · exact absurd h (by simp)
    · next b₂ b₃ b₄ bs ha =>
      split at h
      · next hf =>
        obtain ⟨rfl, rfl⟩ := Prod.mk.inj (Option.some.inj h)
        refine ⟨b, [b₂, b₃, b₄], rfl, ?_, fun behind => by simp [decodeChar?, ha, hf]⟩
        rw [Bool.and_eq_true, Bool.and_eq_true] at hf
        simpa using ⟨(payload_of_mayFollow hf.1.1).1, hf.1.2, hf.2⟩
      · exact absurd h (by simp)
    · exact absurd h (by simp)

theorem decodeChar_append {bs rest : List UInt8} {c : Char} (h : decodeChar? bs = some (c, rest))
    (behind : List UInt8) : decodeChar? (bs ++ behind) = some (c, rest ++ behind) := by
  obtain ⟨b, more, rfl, -, hlocal⟩ := decodeChar_local h
  rw [List.append_assoc]
  exact hlocal (rest ++ behind)

theorem decode_of_some {bs rest : List UInt8} {c : Char} (h : decodeChar? bs = some (c, rest)) :
    decode bs = .scalar c :: decode rest := by
  obtain ⟨b, more, rfl, -, -⟩ := decodeChar_local h
  rw [List.cons_append, decode]
  split
  next heq =>
    rw [← List.cons_append, h] at heq
    obtain ⟨rfl, rfl⟩ := Prod.mk.inj (Option.some.inj heq)
    rfl
  next heq =>
    rw [← List.cons_append, h] at heq
    exact absurd heq (by simp)

theorem decode_of_none {b : UInt8} {rest : List UInt8} (h : decodeChar? (b :: rest) = none) :
    decode (b :: rest) = .raw b :: decode rest := by
  rw [decode]
  split
  next heq => exact absurd (h.symm.trans heq) (by simp)
  next => rfl

/-- Reading and writing again gives the bytes back. -/
theorem encode_decode (bs : List UInt8) : encode (decode bs) = bs := by
  fun_induction decode bs with
  | case1 => rfl
  | case2 b rest c after h ih =>
    rw [encode, List.flatMap_cons, ← encode, ih, encodeChar_of_decodeChar h]
    rfl
  | case3 b rest h ih =>
    rw [encode, List.flatMap_cons, ← encode, ih]
    rfl

theorem encode_append (t u : Text) : encode (t ++ u) = encode t ++ encode u := List.flatMap_append

end HouseStyle.Utf8
