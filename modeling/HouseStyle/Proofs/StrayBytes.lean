import HouseStyle.Proofs.Utf8

/-!
# Reading bytes loses nothing

A byte string that is read as text is there in the text, byte for byte. Its characters are those that stand in it
anywhere: a byte becomes a stray one only if no character of the byte string, wherever it starts, goes over it. So
the reading does not depend on where it began, and there is one stray glyph for each byte that belongs to no
character.

- `decodeChar_encodeChar`: the bytes of a character are read as that character.
- `inCharacter_append_iff`: characters do not overlap, since only the first byte of one is no continuation byte.
- `strays_decode`: the stray bytes of a text are the bytes that belong to no character.
- `shown_decode`: how a text is shown.
- `decode_lossless`: all of it, for every byte string.
-/

namespace HouseStyle.Utf8

/-! ## The bytes of a character -/

theorem isContinuation_iff {b : UInt8} : isContinuation b = true ↔ 128 ≤ b.toNat ∧ b.toNat < 192 := by
  unfold isContinuation
  simp only [Bool.and_eq_true, decide_eq_true_eq, UInt8.le_iff_toNat_le, UInt8.lt_iff_toNat_lt, UInt8.reduceToNat]

theorem announced_eq (b : UInt8) : announced? b =
    if b.toNat < 128 then some 1
    else if 194 ≤ b.toNat ∧ b.toNat < 224 then some 2
    else if 224 ≤ b.toNat ∧ b.toNat < 240 then some 3
    else if 240 ≤ b.toNat ∧ b.toNat < 245 then some 4
    else none := by
  unfold announced?
  simp only [Bool.and_eq_true, decide_eq_true_eq, UInt8.le_iff_toNat_le, UInt8.lt_iff_toNat_lt, UInt8.reduceToNat]

theorem mayFollow_iff {lead second : UInt8} : mayFollow lead second = true ↔
    (128 ≤ second.toNat ∧ second.toNat < 192) ∧ (lead.toNat = 224 → 160 ≤ second.toNat) ∧
      (lead.toNat = 237 → second.toNat < 160) ∧ (lead.toNat = 240 → 144 ≤ second.toNat) ∧
      (lead.toNat = 244 → second.toNat < 144) := by
  unfold mayFollow
  simp only [Bool.and_eq_true, isContinuation_iff, Bool.not_eq_true', Bool.and_eq_false_iff, beq_eq_false_iff_ne,
    ne_eq, decide_eq_false_iff_not, UInt8.le_iff_toNat_le, UInt8.lt_iff_toNat_lt, ← UInt8.toNat_inj,
    UInt8.reduceToNat]
  omega

/-- The bytes of a character are read as that character, whatever stands behind them. -/
theorem decodeChar_encodeChar (c : Char) (rest : List UInt8) :
    decodeChar? (String.utf8EncodeChar c ++ rest) = some (c, rest) := by
  have hvalid : c.val.toNat < 0xD800 ∨ 0xDFFF < c.val.toNat ∧ c.val.toNat < 0x110000 := c.valid
  have hchar : Char.ofNat c.val.toNat = c := Char.ofNat_toNat c
  -- a byte is what was put into it
  have hbyte : ∀ n, n < 256 → (UInt8.ofNat n).toNat = n := fun n hn => by
    rw [UInt8.toNat_ofNat']
    omega
  have htail : ∀ n, isContinuation (UInt8.ofNat (n % 64 + 128)) = true ∧
      payload (UInt8.ofNat (n % 64 + 128)) = n % 64 := fun n => by
    rw [isContinuation_iff, payload, hbyte _ (by omega)]
    omega
  -- one case for each length; the first byte announces it
  unfold String.utf8EncodeChar
  generalize c.val.toNat = n at hvalid hchar
  dsimp only
  split
  · have ha : announced? (UInt8.ofNat n) = some 1 := by
      rw [announced_eq, hbyte n (by omega), if_pos (by omega)]
    simp only [List.cons_append, List.nil_append, decodeChar?, ha, hbyte n (by omega), hchar]
  split
  · have ha : announced? (UInt8.ofNat (n / 64 % 32 + 192)) = some 2 := by
      rw [announced_eq, hbyte _ (by omega), if_neg (by omega), if_pos (by omega)]
    have hf : mayFollow (UInt8.ofNat (n / 64 % 32 + 192)) (UInt8.ofNat (n % 64 + 128)) = true := by
      rw [mayFollow_iff, hbyte _ (by omega), hbyte _ (by omega)]
      omega
    have hn : (n / 64 % 32 + 192) % 32 * 64 + n % 64 = n := by omega
    simp only [List.cons_append, List.nil_append, decodeChar?, ha, hf, htail, hbyte (n / 64 % 32 + 192) (by omega),
      if_true, hn, hchar]
  split
  · have ha : announced? (UInt8.ofNat (n / 4096 % 16 + 224)) = some 3 := by
      rw [announced_eq, hbyte _ (by omega), if_neg (by omega), if_neg (by omega), if_pos (by omega)]
    have hf : mayFollow (UInt8.ofNat (n / 4096 % 16 + 224)) (UInt8.ofNat (n / 64 % 64 + 128)) = true := by
      rw [mayFollow_iff, hbyte _ (by omega), hbyte _ (by omega)]
      omega
    have hn : (n / 4096 % 16 + 224) % 16 * 4096 + n / 64 % 64 * 64 + n % 64 = n := by omega
    simp only [List.cons_append, List.nil_append, decodeChar?, ha, hf, htail, hbyte (n / 4096 % 16 + 224) (by omega),
      Bool.and_true, if_true, hn, hchar]
  · have ha : announced? (UInt8.ofNat (n / 262144 % 8 + 240)) = some 4 := by
      rw [announced_eq, hbyte _ (by omega), if_neg (by omega), if_neg (by omega), if_neg (by omega),
        if_pos (by omega)]
    have hf : mayFollow (UInt8.ofNat (n / 262144 % 8 + 240)) (UInt8.ofNat (n / 4096 % 64 + 128)) = true := by
      rw [mayFollow_iff, hbyte _ (by omega), hbyte _ (by omega)]
      omega
    have hn : (n / 262144 % 8 + 240) % 8 * 262144 + n / 4096 % 64 * 4096 + n / 64 % 64 * 64 + n % 64 = n := by omega
    simp only [List.cons_append, List.nil_append, decodeChar?, ha, hf, htail,
      hbyte (n / 262144 % 8 + 240) (by omega), Bool.and_true, if_true, hn, hchar]

theorem decodeChar_of_isContinuation {b : UInt8} (h : isContinuation b = true) (rest : List UInt8) :
    decodeChar? (b :: rest) = none := by
  rw [isContinuation_iff] at h
  have ha : announced? b = none := by
    rw [announced_eq, if_neg (by omega), if_neg (by omega), if_neg (by omega), if_neg (by omega)]
  unfold decodeChar?
  dsimp only
  split <;> simp_all

/-- Just the first byte of a character is no continuation byte. -/
theorem exists_encodeChar_cons (c : Char) : ∃ b more, String.utf8EncodeChar c = b :: more ∧
    isContinuation b = false ∧ ∀ a ∈ more, isContinuation a = true := by
  have hread := decodeChar_encodeChar c []
  rw [List.append_nil] at hread
  obtain ⟨b, more, hbytes, hmore, -⟩ := decodeChar_local hread
  rw [List.append_nil] at hbytes
  refine ⟨b, more, hbytes, Bool.eq_false_iff.mpr fun hb => ?_, hmore⟩
  rw [hbytes, decodeChar_of_isContinuation hb] at hread
  exact absurd hread (by simp)

/-! ## The bytes of no character -/

/-- The byte at an offset belongs to a character: the bytes of some character stand around it. -/
def InCharacter (bs : List UInt8) (i : Nat) : Prop :=
  ∃ front c back, bs = front ++ (String.utf8EncodeChar c ++ back) ∧ front.length ≤ i ∧
    i < front.length + (String.utf8EncodeChar c).length

open scoped Classical in
/-- The bytes that belong to no character, in order. -/
noncomputable def strays (bs : List UInt8) : List UInt8 :=
  (List.range bs.length).filterMap fun i => if InCharacter bs i then none else bs[i]?

/-- Two characters in a byte string are one and the same, or the second one starts behind the first one. -/
theorem characters_apart {c d : Char} {after front back : List UInt8}
    (h : String.utf8EncodeChar c ++ after = front ++ (String.utf8EncodeChar d ++ back)) :
    front = [] ∧ c = d ∨
      ∃ more, front = String.utf8EncodeChar c ++ more ∧ after = more ++ (String.utf8EncodeChar d ++ back) := by
  rcases List.append_eq_append_iff.mp h with ⟨more, hfront, hafter⟩ | ⟨inside, hc, hd⟩
  · exact Or.inr ⟨more, hfront, hafter⟩
  · cases front with
    | nil =>
      have hread := decodeChar_encodeChar c after
      rw [h, List.nil_append, decodeChar_encodeChar] at hread
      exact Or.inl ⟨rfl, (Prod.mk.inj (Option.some.inj hread)).1.symm⟩
    | cons b front =>
      cases inside with
      | nil => exact Or.inr ⟨[], by rw [hc, List.append_nil, List.append_nil], hd.symm⟩
      | cons a inside =>
        -- the second one would start at a continuation byte of the first one
        obtain ⟨b', more, hcons, -, hmore⟩ := exists_encodeChar_cons c
        obtain ⟨a', more', hcons', ha, -⟩ := exists_encodeChar_cons d
        rw [hcons, List.cons_append] at hc
        rw [hcons', List.cons_append, List.cons_append] at hd
        obtain ⟨-, hc⟩ := List.cons.inj hc
        obtain ⟨rfl, -⟩ := List.cons.inj hd
        have hcontinuation := hmore a' (by rw [hc]; simp)
        rw [ha] at hcontinuation
        exact absurd hcontinuation (by decide)

theorem inCharacter_encodeChar {c : Char} {after : List UInt8} {i : Nat}
    (h : i < (String.utf8EncodeChar c).length) : InCharacter (String.utf8EncodeChar c ++ after) i :=
  ⟨[], c, after, rfl, Nat.zero_le _, by rwa [List.length_nil, Nat.zero_add]⟩

/-- Behind a character the same bytes belong to characters as without it. -/
theorem inCharacter_append_iff {c : Char} {after : List UInt8} {i : Nat} :
    InCharacter (String.utf8EncodeChar c ++ after) ((String.utf8EncodeChar c).length + i) ↔ InCharacter after i := by
  constructor
  · rintro ⟨front, d, back, heq, hle, hlt⟩
    rcases characters_apart heq with ⟨rfl, rfl⟩ | ⟨more, rfl, hafter⟩
    · rw [List.length_nil] at hlt
      omega
    · rw [List.length_append] at hle hlt
      exact ⟨more, d, back, hafter, by omega, by omega⟩
  · rintro ⟨front, d, back, rfl, hle, hlt⟩
    refine ⟨String.utf8EncodeChar c ++ front, d, back, by rw [List.append_assoc], ?_, ?_⟩ <;>
      rw [List.length_append] <;> omega

/-- A byte at which no character starts belongs to none, if no byte stands in front of it. -/
theorem not_inCharacter_zero {b : UInt8} {rest : List UInt8} (h : decodeChar? (b :: rest) = none) :
    ¬InCharacter (b :: rest) 0 := by
  rintro ⟨front, c, back, heq, hle, -⟩
  obtain rfl := List.length_eq_zero_iff.mp (Nat.le_zero.mp hle)
  rw [heq, List.nil_append, decodeChar_encodeChar] at h
  exact absurd h (by simp)

/-- Behind such a byte the same bytes belong to characters as without it. -/
theorem inCharacter_cons_iff {b : UInt8} {rest : List UInt8} {i : Nat} (h : decodeChar? (b :: rest) = none) :
    InCharacter (b :: rest) (1 + i) ↔ InCharacter rest i := by
  constructor
  · rintro ⟨front, c, back, heq, hle, hlt⟩
    cases front with
    | nil =>
      rw [heq, List.nil_append, decodeChar_encodeChar] at h
      exact absurd h (by simp)
    | cons b' front =>
      rw [List.length_cons] at hle hlt
      exact ⟨front, c, back, (List.cons.inj heq).2, by omega, by omega⟩
  · rintro ⟨front, c, back, rfl, hle, hlt⟩
    exact ⟨b :: front, c, back, rfl, by rw [List.length_cons]; omega, by rw [List.length_cons]; omega⟩

/-- The byte of a stray glyph. -/
def strayByte? : Glyph → Option UInt8
  | .scalar _ => none
  | .raw b => some b

open scoped Classical in
/-- The strays of a byte string of which the end is as it is by itself. -/
theorem strays_append {lead rest : List UInt8}
    (h : ∀ i, InCharacter (lead ++ rest) (lead.length + i) ↔ InCharacter rest i) :
    strays (lead ++ rest) =
      (List.range lead.length).filterMap
          (fun i => if InCharacter (lead ++ rest) i then none else (lead ++ rest)[i]?) ++ strays rest := by
  have hlater : ∀ i : Nat, (lead ++ rest)[lead.length + i]? = rest[i]? := fun i => by
    rw [List.getElem?_append_right (Nat.le_add_right _ _), Nat.add_sub_cancel_left]
  unfold strays
  rw [List.length_append, List.range_add, List.filterMap_append, List.filterMap_map]
  simp only [Function.comp_def, h, hlater]

/-- The stray glyphs of a text are the bytes that belong to no character, one for each and in order. -/
theorem strays_decode (bs : List UInt8) : (decode bs).filterMap strayByte? = strays bs := by
  fun_induction decode bs with
  | case1 => simp [strays]
  | case2 b rest c after h ih =>
    rw [encodeChar_of_decodeChar h, strays_append fun i => inCharacter_append_iff, List.filterMap_cons, ih,
      List.filterMap_eq_nil_iff.mpr]
    · rfl
    · intro i hi
      exact if_pos (inCharacter_encodeChar (List.mem_range.mp hi))
  | case3 b rest h ih =>
    have hfirst : ¬InCharacter ([b] ++ rest) 0 := not_inCharacter_zero h
    have hrest : ∀ i, InCharacter ([b] ++ rest) ([b].length + i) ↔ InCharacter rest i :=
      fun i => inCharacter_cons_iff h
    calc (Glyph.raw b :: decode rest).filterMap strayByte? = [b] ++ strays rest := by simp [strayByte?, ih]
      _ = strays ([b] ++ rest) := by
        rw [strays_append hrest, List.length_singleton, List.range_one, List.filterMap_cons, if_neg hfirst]
        rfl

/-- A stray byte is none of ASCII. -/
theorem le_of_raw_mem_decode {bs : List UInt8} {b : UInt8} (h : .raw b ∈ decode bs) : 128 ≤ b.toNat := by
  fun_induction decode bs with
  | case1 => exact absurd h (by simp)
  | case2 _ _ _ _ _ ih => exact ih (by simpa using h)
  | case3 b' rest hread ih =>
    rcases List.mem_cons.mp h with heq | hmem
    · obtain rfl := Glyph.raw.inj heq
      refine Nat.le_of_not_lt fun hlt => ?_
      have ha : announced? b = some 1 := by rw [announced_eq, if_pos hlt]
      simp [decodeChar?, ha] at hread
    · exact ih hmem

/-- The code of a glyph that is read is that of a character, or one of those that stand for stray bytes. -/
theorem code_of_mem_decode {bs : List UInt8} {g : Glyph} (h : g ∈ decode bs) :
    g.code.isValidChar ∨ 0xDC80 ≤ g.code ∧ g.code ≤ 0xDCFF := by
  cases g with
  | scalar c => exact Or.inl c.valid
  | raw b =>
    have hle := le_of_raw_mem_decode h
    have hlt := b.toNat_lt
    exact Or.inr ⟨by show 0xDC80 ≤ 0xDC00 + b.toNat; omega, by show 0xDC00 + b.toNat ≤ 0xDCFF; omega⟩

/-! ## The text that is shown -/

/-- How a text is shown: its characters are, and for up to three stray bytes in a row stands one U+FFFD. -/
inductive Shown : Text → List Char → Prop
  | nil : Shown [] []
  | character {t : Text} {cs : List Char} (c : Char) (later : Shown t cs) : Shown (.scalar c :: t) (c :: cs)
  | strays {t : Text} {cs : List Char} (bytes : List UInt8) (pos : 0 < bytes.length) (short : bytes.length ≤ 3)
      (later : Shown t cs) : Shown (bytes.map .raw ++ t) ('\uFFFD' :: cs)

/-- The bytes of an ill-formed part that stand behind its first byte are continuation bytes, and there are at most
two. -/
theorem illFormed_spec (b : UInt8) (rest : List UInt8) :
    illFormedLength (b :: rest) - 1 ≤ 2 ∧
      ∀ a ∈ rest.take (illFormedLength (b :: rest) - 1), isContinuation a = true := by
  unfold illFormedLength
  dsimp only
  split
  · next b₂ _ _ =>
    split
    · next hf => simp [(payload_of_mayFollow hf).1]
    · simp
  · next b₂ bs _ =>
    split
    · next hf =>
      have hb₂ := (payload_of_mayFollow hf).1
      split
      · next b₃ _ =>
        split
        · next hb₃ => simp [hb₂, hb₃]
        · simp [hb₂]
      · simp [hb₂]
    · simp
  · simp

/-- Continuation bytes in front are stray bytes. -/
theorem decode_continuations {front : List UInt8} (h : ∀ a ∈ front, isContinuation a = true) (back : List UInt8) :
    decode (front ++ back) = front.map .raw ++ decode back := by
  induction front with
  | nil => rfl
  | cons a front ih =>
    rw [List.forall_mem_cons] at h
    rw [List.cons_append, decode_of_none (decodeChar_of_isContinuation h.1 _), ih h.2, List.map_cons, List.cons_append]

/-- How the text of a byte string is shown. -/
theorem shown_decode (bs : List UInt8) : Shown (decode bs) (decodeReplacing bs) := by
  fun_induction decodeReplacing bs with
  | case1 =>
    rw [decode]
    exact .nil
  | case2 b rest c after h ih =>
    rw [decode_of_some h]
    exact .character c ih
  | case3 b rest h ih =>
    obtain ⟨hshort, hpart⟩ := illFormed_spec b rest
    have hcut := decode_continuations hpart (rest.drop (illFormedLength (b :: rest) - 1))
    rw [List.take_append_drop] at hcut
    rw [decode_of_none h, hcut]
    refine .strays (b :: rest.take (illFormedLength (b :: rest) - 1)) (Nat.succ_pos _) ?_ ih
    rw [List.length_cons, List.length_take]
    omega

/-- Reading a byte string as text loses nothing: it is written back as it was; its text has only characters and stray
bytes, the latter with the codes from U+DC80 to U+DCFF, one for each byte that belongs to no character; the text is
read back from its bytes; and what is shown of it is characters, none of them a surrogate. -/
theorem decode_lossless (bs : List UInt8) :
    encode (decode bs) = bs ∧
      (∀ g ∈ decode bs, g.code.isValidChar ∨ 0xDC80 ≤ g.code ∧ g.code ≤ 0xDCFF) ∧
      (decode bs).filterMap strayByte? = strays bs ∧
      decode (encode (decode bs)) = decode bs ∧
      Shown (decode bs) (printable (decode bs)).toList ∧
      ∀ c ∈ (printable (decode bs)).toList, c.toNat < 0xD800 ∨ 0xDFFF < c.toNat := by
  have hshown : (printable (decode bs)).toList = decodeReplacing bs := by
    rw [printable, String.toList_ofList, encode_decode]
  refine ⟨encode_decode bs, fun g hg => code_of_mem_decode hg, strays_decode bs, by rw [encode_decode], ?_, ?_⟩
  · rw [hshown]
    exact shown_decode bs
  · intro c _
    exact c.valid.imp_right And.left

end HouseStyle.Utf8
