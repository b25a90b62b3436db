import HouseStyle.Proofs.AsciiCase
import HouseStyle.Proofs.FixConflicts
import HouseStyle.Proofs.Substitution
import HouseStyle.Proofs.Utf8

/-!
# The bytes that fixing writes

A text that was read from bytes is written with the same bytes (`encode_decode`). A text that was made of
it need not be read back from its own bytes: a stray byte may come to stand before bytes that make a
character with it. ASCII text keeps bytes apart, since no character goes on over it (`decode_append_ascii`).
So where edits put in ASCII text, the new text is read back (`Readable.splice`), and its bytes are those of
the file with the bytes of the edited stretches exchanged (`exchanged_splice`).
-/

namespace HouseStyle

namespace Utf8

/-! ## Reading in pieces -/

/-- A character that is read in front of an ASCII byte does not need it. -/
theorem decodeChar_before_ascii {b a : UInt8} {bs behind rest : List UInt8} {c : Char} (ha : a < 0x80)
    (h : decodeChar? (b :: bs ++ a :: behind) = some (c, rest)) :
    ∃ more, decodeChar? (b :: bs) = some (c, more) := by
  obtain ⟨b', used, heq, hused, hlocal⟩ := decodeChar_local h
  simp only [List.cons_append, List.cons.injEq] at heq
  obtain ⟨rfl, heq⟩ := heq
  rcases List.append_eq_append_iff.mp heq with ⟨spare, rfl, hover⟩ | ⟨more, rfl, -⟩
  · cases spare with
    | nil => exact ⟨[], by simpa using hlocal []⟩
    | cons a' spare =>
      -- the ASCII byte would go on with the character
      obtain ⟨rfl, -⟩ := List.cons.inj hover
      have hcontinuation := toNat_of_isContinuation (hused a (by simp))
      rw [UInt8.lt_iff_toNat_lt] at ha
      have : (0x80 : UInt8).toNat = 128 := rfl
      omega
  · exact ⟨more, hlocal more⟩

/-- Bytes are read by themselves in front of an ASCII byte. -/
theorem decode_append_ascii {a : UInt8} (ha : a < 0x80) (bs behind : List UInt8) :
    decode (bs ++ a :: behind) = decode bs ++ decode (a :: behind) := by
  fun_induction decode bs with
  | case1 => rfl
  | case2 b rest c after h ih =>
    rw [decode_of_some (decodeChar_append h (a :: behind)), ih, List.cons_append]
  | case3 b rest h ih =>
    have hnone : decodeChar? (b :: rest ++ a :: behind) = none := by
      cases hsome : decodeChar? (b :: rest ++ a :: behind) with
      | none => rfl
      | some found =>
        obtain ⟨more, hmore⟩ := decodeChar_before_ascii ha hsome
        exact absurd (h.symm.trans hmore) (by simp)
    rw [List.cons_append] at hnone ⊢
    rw [decode_of_none hnone, ih, List.cons_append]


/-- An ASCII character is one byte. -/
theorem encode_ascii {g : Glyph} (hg : g.IsAscii) :
    ∃ a : UInt8, a < 0x80 ∧ encodeGlyph g = [a] ∧ ∀ behind, decode (a :: behind) = g :: decode behind := by
  cases g with
  | raw b => exact hg.elim
  | scalar c =>
    have hc : c.val.toNat < 128 := hg
    have hvalue : (UInt8.ofNat c.val.toNat).toNat = c.val.toNat := by
      rw [UInt8.toNat_ofNat']
      omega
    have hlt : UInt8.ofNat c.val.toNat < 0x80 := by
      rw [UInt8.lt_iff_toNat_lt, hvalue]
      exact hc
    refine ⟨UInt8.ofNat c.val.toNat, hlt, ?_, fun behind => ?_⟩
    · unfold encodeGlyph String.utf8EncodeChar
      simp only [show c.val.toNat ≤ 127 by omega, if_true]
    · have hchar : Char.ofNat (UInt8.ofNat c.val.toNat).toNat = c := by
        rw [hvalue]
        exact Char.ofNat_toNat c
      refine (@decode_of_some _ behind c ?_).trans rfl
      have hannounced : announced? (UInt8.ofNat c.val.toNat) = some 1 := if_pos hlt
      simp only [decodeChar?, hannounced, hchar]

/-- A text that is read back from its own bytes. -/
def Readable (t : Text) : Prop := decode (encode t) = t

theorem readable_decode (bs : List UInt8) : Readable (decode bs) := by
  unfold Readable
  rw [encode_decode]

namespace Readable

variable {t u : Text}

theorem nil : Readable [] := by
  unfold Readable encode
  rw [List.flatMap_nil, decode]

/-- The two parts of a text that is read back are read back. -/
theorem of_append (h : Readable (t ++ u)) : Readable t ∧ Readable u := by
  induction t with
  | nil => exact ⟨nil, h⟩
  | cons g t ih =>
    cases g with
    | scalar c =>
      have h : decode (String.utf8EncodeChar c ++ encode (t ++ u)) = .scalar c :: (t ++ u) := h
      cases hbytes : String.utf8EncodeChar c ++ encode (t ++ u) with
      | nil =>
        rw [hbytes, decode] at h
        exact absurd h (by simp)
      | cons b rest =>
        rw [hbytes] at h
        cases hsome : decodeChar? (b :: rest) with
        | none =>
          rw [decode_of_none hsome] at h
          exact absurd (List.cons.inj h).1 (by simp)
        | some found =>
          rw [decode_of_some hsome] at h
          obtain ⟨hc, hrest⟩ := List.cons.inj h
          obtain rfl : found.1 = c := Glyph.scalar.inj hc
          have hwhole := encodeChar_of_decodeChar hsome
          rw [← hbytes, List.append_cancel_left_eq] at hwhole
          obtain ⟨ht, hu⟩ := ih (by rw [Readable, hwhole, hrest])
          refine ⟨?_, hu⟩
          -- the character is read from its own bytes in front of the shorter rest, too
          obtain ⟨b', more, hfront, -, hlocal⟩ := decodeChar_local hsome
          rw [← hbytes, ← hwhole, List.append_cancel_right_eq] at hfront
          show decode (String.utf8EncodeChar found.1 ++ encode t) = _
          rw [hfront, decode_of_some (hlocal (encode t)), ht]
    | raw b =>
      have h : decode (b :: encode (t ++ u)) = .raw b :: (t ++ u) := h
      cases hsome : decodeChar? (b :: encode (t ++ u)) with
      | some found =>
        rw [decode_of_some hsome] at h
        exact absurd (List.cons.inj h).1 (by simp)
      | none =>
        rw [decode_of_none hsome] at h
        obtain ⟨ht, hu⟩ := ih (List.cons.inj h).2
        refine ⟨?_, hu⟩
        have hnone : decodeChar? (b :: encode t) = none := by
          cases hshort : decodeChar? (b :: encode t) with
          | none => rfl
          | some found =>
            have hlong := decodeChar_append hshort (encode u)
            rw [List.cons_append, ← encode_append, hsome] at hlong
            exact absurd hlong (by simp)
        show decode (b :: encode t) = _
        rw [decode_of_none hnone, ht]

/-- ASCII text may stand in front of anything. -/
theorem ascii_append {new : Text} (hnew : ∀ g ∈ new, g.IsAscii) (h : Readable t) : Readable (new ++ t) := by
  induction new with
  | nil => exact h
  | cons g new ih =>
    rw [List.forall_mem_cons] at hnew
    obtain ⟨a, -, hg, hread⟩ := encode_ascii hnew.1
    show decode (encodeGlyph g ++ encode (new ++ t)) = _
    rw [hg, List.singleton_append, hread, ih hnew.2]
    rfl

/-- ASCII text may stand behind anything. -/
theorem append_ascii {g : Glyph} (hg : g.IsAscii) (ht : Readable t) (hu : Readable (g :: u)) :
    Readable (t ++ g :: u) := by
  obtain ⟨a, ha, hencode, -⟩ := encode_ascii hg
  have hbytes : encode (g :: u) = a :: encode u := by
    show encodeGlyph g ++ encode u = _
    rw [hencode]
    rfl
  show decode (encode (t ++ g :: u)) = _
  rw [encode_append, hbytes, decode_append_ascii ha, ht, ← hbytes, hu]

/-- Where edits put in ASCII text, the new text is read back. -/
theorem splice {es : List Edit} (hascii : ∀ e ∈ es, e.replacement ≠ [] ∧ ∀ g ∈ e.replacement, g.IsAscii)
    (h : Readable t) (o : Nat) : Readable (HouseStyle.splice o t es) := by
  induction es generalizing o t with
  | nil => exact h
  | cons e es ih =>
    rw [List.forall_mem_cons] at hascii
    obtain ⟨⟨hne, hnew⟩, hascii⟩ := hascii
    have hfront : Readable (t.take (e.start.toNat - o)) :=
      (of_append (u := t.drop (e.start.toNat - o)) (by rwa [List.take_append_drop])).1
    have hback : Readable (t.drop (e.stop.toNat - o)) :=
      (of_append (t := t.take (e.stop.toNat - o)) (by rwa [List.take_append_drop])).2
    have hlater := ascii_append hnew (ih hascii hback e.stop.toNat)
    rw [HouseStyle.splice, List.append_assoc]
    obtain ⟨g, more, hcons⟩ := List.exists_cons_of_ne_nil hne
    rw [hcons, List.cons_append] at hlater ⊢
    exact append_ascii (hnew g (by rw [hcons]; exact List.mem_cons_self)) hfront hlater

end Readable

end Utf8

/-! ## Stretches of bytes -/

/-- What an edit does to the bytes of a file: those from `start` up to `stop` give way to others. -/
structure ByteEdit where
  start : Nat
  stop : Nat
  replacement : List UInt8
  deriving DecidableEq, Repr

/-- The bytes in front of an offset of a text. -/
def bytesBefore (t : Text) (o : Int) : Nat := (Utf8.encode (t.take o.toNat)).length

/-- An edit of a text as one of its bytes. -/
def Edit.onBytes (t : Text) (e : Edit) : ByteEdit :=
  ⟨bytesBefore t e.start, bytesBefore t e.stop, Utf8.encode e.replacement⟩

/-- The bytes `new` are the bytes `old`, which begin at an offset, with some stretches exchanged: between
these every byte stays, and in order. -/
inductive Exchanged : Nat → List ByteEdit → List UInt8 → List UInt8 → Prop
  | done (o : Nat) (kept : List UInt8) : Exchanged o [] kept kept
  | edit {o : Nat} {e : ByteEdit} {es : List ByteEdit} {kept gone old new : List UInt8}
      (start : e.start = o + kept.length) (stop : e.stop = e.start + gone.length)
      (later : Exchanged e.stop es old new) :
      Exchanged o (e :: es) (kept ++ gone ++ old) (kept ++ e.replacement ++ new)

/-- Edits in order and apart exchange the bytes of their stretches. -/
theorem exchanged_splice {t front : Text} {o : Nat} {es : List Edit} (hfront : front.length = o)
    (hwithin : ∀ e ∈ es, e.Within (front ++ t).length) (hstart : ∀ e ∈ es, (o : Int) ≤ e.start)
    (hbefore : es.Pairwise Edit.Before) :
    Exchanged (Utf8.encode front).length (es.map (Edit.onBytes (front ++ t))) (Utf8.encode t)
      (Utf8.encode (splice o t es)) := by
  induction es generalizing o t front with
  | nil => exact .done _ _
  | cons e es ih =>
    obtain ⟨h₀, hle, hend⟩ := hwithin e List.mem_cons_self
    have ho := hstart e List.mem_cons_self
    obtain ⟨hfirst, hbefore⟩ := List.pairwise_cons.mp hbefore
    rw [List.length_append] at hend
    have htake : ∀ n : Nat, o ≤ n → (front ++ t).take n = front ++ t.take (n - o) := fun n hn => by
      rw [List.take_append, List.take_of_length_le (by omega), hfront]
    have hlen : (front ++ t.take (e.stop.toNat - o)).length = e.stop.toNat := by
      rw [List.length_append, List.length_take]
      omega
    have hwhole : front ++ t = (front ++ t.take (e.stop.toNat - o)) ++ t.drop (e.stop.toNat - o) := by
      rw [List.append_assoc, List.take_append_drop]
    have hlater := @ih (t.drop (e.stop.toNat - o)) (front ++ t.take (e.stop.toNat - o)) e.stop.toNat hlen
      (by rw [← hwhole]; exact fun a ha => hwithin a (List.mem_cons_of_mem e ha))
      (fun a ha => by have := (hfirst a ha).1; omega) hbefore
    -- the text is cut where the edit starts and where it ends
    have hcut : t.take (e.stop.toNat - o) =
        t.take (e.start.toNat - o) ++ (t.drop (e.start.toNat - o)).take (e.stop.toNat - e.start.toNat) := by
      rw [← List.take_add]
      congr 1
      omega
    have hold : Utf8.encode t = Utf8.encode (t.take (e.start.toNat - o)) ++
        Utf8.encode ((t.drop (e.start.toNat - o)).take (e.stop.toNat - e.start.toNat)) ++
        Utf8.encode (t.drop (e.stop.toNat - o)) := by
      rw [← Utf8.encode_append, ← hcut, ← Utf8.encode_append, List.take_append_drop]
    have hstop : (Utf8.encode (front ++ t.take (e.stop.toNat - o))).length = bytesBefore (front ++ t) e.stop := by
      rw [bytesBefore, htake _ (by omega)]
    rw [← hwhole, hstop] at hlater
    rw [List.map_cons, hold, splice, Utf8.encode_append, Utf8.encode_append]
    refine .edit ?_ ?_ hlater
    · show bytesBefore (front ++ t) e.start = _
      rw [bytesBefore, htake _ (by omega), Utf8.encode_append, List.length_append]
    · show bytesBefore (front ++ t) e.stop = bytesBefore (front ++ t) e.start + _
      rw [bytesBefore, bytesBefore, htake _ (by omega), htake _ (by omega), hcut, ← List.append_assoc,
        Utf8.encode_append, List.length_append]

/-! ## The fixes of the rules -/

/-- What an edit puts in is ASCII text, and not empty. -/
def Edit.PutsAscii (e : Edit) : Prop := e.replacement ≠ [] ∧ ∀ g ∈ e.replacement, g.IsAscii

instance (e : Edit) : Decidable e.PutsAscii := inferInstanceAs (Decidable (_ ∧ _))

theorem Style.isAscii_of_isIdentifier {name : Text} (h : isIdentifier name = true) :
    ∀ g ∈ name, g.IsAscii := by
  have hglyph : ∀ g : Glyph, (isAlphanum g || g == .scalar '_') = true → g.IsAscii := by
    intro g hg
    rcases Bool.or_eq_true _ _ ▸ hg with hg | hg
    · cases g with
      | scalar c => exact Letter.toNat_lt_of_isAlphanum hg
      | raw b => exact absurd hg (by simp [isAlphanum, Glyph.satisfies])
    · rw [beq_iff_eq] at hg
      rw [hg]
      decide
  cases name with
  | nil => exact absurd h (by decide)
  | cons g rest =>
    rw [isIdentifier, Bool.and_eq_true, List.all_eq_true] at h
    rw [List.forall_mem_cons]
    refine ⟨hglyph g ?_, fun a ha => hglyph a (h.2 a ha)⟩
    rcases Bool.or_eq_true _ _ ▸ h.1 with hg | hg
    · cases g with
      | scalar c =>
        have hc : c.isAlpha = true := hg
        simp [isAlphanum, Glyph.satisfies, Char.isAlphanum, hc]
      | raw b => exact absurd hg (by simp [Glyph.satisfies])
    · rw [hg, Bool.or_true]

/-- A name that is proposed for an identifier is ASCII text. -/
theorem NamingRule.isAscii_of_suggestion {m : Model} {e : Entity} {new : Text} (h : suggestion? m e = some new)
    (hname : Lexeme.IsName e.name) : ∀ g ∈ new, g.IsAscii := by
  have hclean := hname.lineFeed_not_mem
  unfold suggestion? at h
  split at h
  · exact Style.isAscii_of_isIdentifier (Style.isIdentifier_of_convertTrailing h hclean).1
  · exact Style.isAscii_of_isIdentifier (Style.isIdentifier_of_convert h hclean)

section

variable {config : Config} {isOneOfMany : Bool} {path : SourcePath} {text : Text}

/-- What a rename puts in is ASCII text. -/
theorem NamingRule.isAscii_of_mem_rename {m : Model} {e : Entity} {new : Text}
    (h : suggestion? m e = some new) {edit : Edit} (hedit : edit ∈ rename (Token.code (tokens text)) e.name new) :
    ∀ g ∈ edit.replacement, g.IsAscii := by
  obtain ⟨t, ht, hkind, hname, rfl⟩ := mem_rename_iff.mp hedit
  exact isAscii_of_suggestion h (hname ▸ isName_text (List.mem_filter.mp ht).1 hkind)

theorem UnscopedEnumRule.isAscii_class : ∀ g ∈ Text.ofString " class", g.IsAscii := by decide

/-- What a guard puts in is ASCII text. -/
theorem IncludeGuardRule.isAscii_of_guardEdit {edit : Edit}
    (h : guardEdit? (.ofText config isOneOfMany path text) = some edit) :
    ∀ g ∈ edit.replacement, g.IsAscii := by
  have hpragma : ∀ g ∈ Glyph.scalar '\n' :: pragmaOnce, g.IsAscii := by decide
  have hpragma' := (List.forall_mem_cons.mp hpragma).2
  rcases guardEdit_eq_some h with rfl | rfl | ⟨_, -, _, _, -, -, ⟨-, rfl⟩ | ⟨-, rfl⟩⟩
  · exact hpragma'
  · exact hpragma
  · exact hpragma
  · exact hpragma'

theorem OpenFix.isAscii_replacement {info : RuleInfo} {line : Option Int} {edits : List Edit}
    (h : OpenFix (.ofText config isOneOfMany path text) info line edits) {e : Edit} (he : e ∈ edits) :
    ∀ g ∈ e.replacement, g.IsAscii := by
  cases h with
  | rename _ _ _ hnew _ => exact NamingRule.isAscii_of_mem_rename hnew he
  | scopeEnum => exact List.mem_singleton.mp he ▸ UnscopedEnumRule.isAscii_class
  | guard _ _ hplace => exact List.mem_singleton.mp he ▸ IncludeGuardRule.isAscii_of_guardEdit hplace

/-- The fixes of the rules put in ASCII text. -/
theorem putsAscii_of_mem_fixEdits {e : Edit} (he : e ∈ fixEdits (.ofText config isOneOfMany path text)) :
    e.PutsAscii := by
  obtain ⟨v, hv, hev⟩ := mem_fixEdits.mp he
  obtain ⟨_, _, hopen, -⟩ := openFix_of_mem_fixable hv
  exact ⟨(hopen.edit_cases hev).1, hopen.isAscii_replacement hev⟩

end

/-- **Fixing preserves bytes and survives the way through the file.** Edits that keep out of each other's way
and put in ASCII text exchange exactly the bytes of the stretches that they replace: every other byte, whether
it is part of a character or not, stays, and in order. The bytes that are written are read back as the very
text that was written. The fixes of the rules are such edits. -/
theorem written_bytes (raw : List UInt8) (edits : List Edit)
    (hwithin : ∀ e ∈ edits, e.Within (Utf8.decode raw).length)
    (hapart : edits.Pairwise fun a b => a.overlaps b = false) (hascii : ∀ e ∈ edits, e.PutsAscii) :
    let fixed := applyEdits (Utf8.decode raw) edits
    Exchanged 0 ((edits.mergeSort Edit.precedes).map (Edit.onBytes (Utf8.decode raw))) raw (Utf8.encode fixed) ∧
      Utf8.decode (Utf8.encode fixed) = fixed ∧
      ∀ (config : Config) (isOneOfMany : Bool) (path : SourcePath),
        let f := SourceFile.ofText config isOneOfMany path (Utf8.decode raw)
        (∀ e ∈ fixEdits f, e.PutsAscii) ∧
          ∀ updated, applyFixes (Utf8.decode raw) (detectEnabled f) = .ok updated →
            Utf8.decode (Utf8.encode updated) = updated := by
  intro fixed
  have hfixed : fixed = splice 0 (Utf8.decode raw) (edits.mergeSort Edit.precedes) :=
    applyEdits_eq_splice_mergeSort hwithin hapart
  refine ⟨?_, ?_, fun config isOneOfMany path => ⟨fun e => putsAscii_of_mem_fixEdits, fun updated h => ?_⟩⟩
  · have hexchanged := @exchanged_splice (Utf8.decode raw) [] 0 (edits.mergeSort Edit.precedes) rfl
      (fun e he => hwithin e (List.mem_mergeSort.mp he))
      (fun e he => (hwithin e (List.mem_mergeSort.mp he)).1) (pairwise_before_mergeSort hwithin hapart)
    rw [Utf8.encode_decode] at hexchanged
    rw [hfixed]
    exact hexchanged
  · rw [hfixed]
    exact (Utf8.readable_decode raw).splice (fun e he => hascii e (List.mem_mergeSort.mp he)) 0
  · obtain ⟨planned, hmem, -, -, rfl, -⟩ := applyFixes_ok h
    exact (Utf8.readable_decode raw).splice
      (fun e he => putsAscii_of_mem_fixEdits (mem_fixEdits.mpr ((hmem e).mp he))) 0

/-- A name between the first byte of a character and a byte that goes on with one. -/
def nameBetweenStrayBytes : List UInt8 := [0xE2, 97, 66, 0x82, 0xAC, 59]

/-- The name is given its new spelling, and something is put in between the stray bytes. -/
def editsBetweenStrayBytes : List Edit := [⟨1, 3, Text.ofString "a_b"⟩, ⟨4, 4, Text.ofString " "⟩]

theorem written_bytes_between_strays :
    (∀ e ∈ editsBetweenStrayBytes, e.Within (Utf8.decode nameBetweenStrayBytes).length) ∧
      editsBetweenStrayBytes.Pairwise (fun a b => a.overlaps b = false) ∧
      (∀ e ∈ editsBetweenStrayBytes, e.PutsAscii) ∧
      Exchanged 0 [⟨1, 3, [97, 95, 98]⟩, ⟨4, 4, [32]⟩] nameBetweenStrayBytes
        [0xE2, 97, 95, 98, 0x82, 32, 0xAC, 59] := by
  have hwithin : ∀ e ∈ editsBetweenStrayBytes, e.Within (Utf8.decode nameBetweenStrayBytes).length := by
    decide +kernel
  have hapart : editsBetweenStrayBytes.Pairwise (fun a b => a.overlaps b = false) := by decide +kernel
  have hascii : ∀ e ∈ editsBetweenStrayBytes, e.PutsAscii := by decide +kernel
  obtain ⟨hexchanged, -, -⟩ := written_bytes nameBetweenStrayBytes editsBetweenStrayBytes hwithin hapart hascii
  have hordered : editsBetweenStrayBytes.mergeSort Edit.precedes = editsBetweenStrayBytes :=
    List.mergeSort_of_pairwise (by decide +kernel)
  rw [applyEdits_eq_splice_mergeSort hwithin hapart, hordered] at hexchanged
  have hstretches : editsBetweenStrayBytes.map (Edit.onBytes (Utf8.decode nameBetweenStrayBytes)) =
      [⟨1, 3, [97, 95, 98]⟩, ⟨4, 4, [32]⟩] := by decide +kernel
  have hbytes : Utf8.encode (splice 0 (Utf8.decode nameBetweenStrayBytes) editsBetweenStrayBytes) =
      [0xE2, 97, 95, 98, 0x82, 32, 0xAC, 59] := by decide +kernel
  rw [hstretches, hbytes] at hexchanged
  exact ⟨hwithin, hapart, hascii, hexchanged⟩

end HouseStyle
