import HouseStyle.Proofs.Batch
import HouseStyle.Proofs.Renaming

/-!
# A batch of edits that renames

A batch renames when every edit of it replaces an identifier, and when with one identifier all of the
same spelling are replaced in the same way (`Edit.RenameAll`). Such a batch is a `Renaming`, and
carrying it out is putting the new spellings in the place of the old ones, piece by piece:

- `splice_eq_text`: the splice of the batch is the text of the renamed pieces.
- `noQuoteJoined_iff`: when no new spelling joins the quote behind it, told from the edits.
-/

namespace HouseStyle

/-- What an edit takes out of a text. -/
def Edit.replaced (e : Edit) (t : Text) : Text :=
  (t.drop e.start.toNat).take (e.stop.toNat - e.start.toNat)

/-- The edit that puts a new spelling in the place of a token. -/
def Token.renameTo (t : Token) (new : Text) : Edit := ⟨t.start, t.stop, new⟩

/-- A batch that renames identifiers of a source text. -/
structure Edit.RenameAll (source : Text) (edits : List Edit) : Prop where
  /-- Every edit replaces an identifier by another one, and both start with a letter or an
  underscore. -/
  edits_token : ∀ e ∈ edits, ∃ t ∈ tokens source, t.kind = .identifier ∧
    e = t.renameTo e.replacement ∧ Lexeme.StartsWord t.text
  isName : ∀ e ∈ edits, Lexeme.StartsWord e.replacement ∧ Lexeme.IsName e.replacement
  /-- All identifiers of one spelling are replaced together. -/
  all : ∀ e ∈ edits, ∀ t ∈ tokens source, t.kind = .identifier → t.text = e.replaced source →
    t.renameTo e.replacement ∈ edits
  before : edits.Pairwise Edit.Before

namespace Edit.RenameAll

variable {source : Text} {edits : List Edit}

theorem replaced_renameTo {t : Token} (ht : t ∈ tokens source) (new : Text) :
    (t.renameTo new).replaced source = t.text := by
  show (source.drop (t.start : Int).toNat).take ((t.stop : Int).toNat - (t.start : Int).toNat) = _
  rw [Int.toNat_natCast, Int.toNat_natCast]
  exact slice_eq_text ht

/-- The new spelling of a name is one only. -/
theorem replacement_unique (h : RenameAll source edits) {a b : Edit} (ha : a ∈ edits) (hb : b ∈ edits)
    (hab : a.replaced source = b.replaced source) : a.replacement = b.replacement := by
  obtain ⟨t, ht, hkind, heq, -⟩ := h.edits_token a ha
  have hta : t.text = a.replaced source := by
    rw [heq]
    exact (replaced_renameTo ht _).symm
  -- the batch has the edits of both at the token of `a`, and only one edit starts there
  have hmem := h.all b hb t ht hkind (hta.trans hab)
  have := eq_of_start_eq h.before ha hmem (by rw [heq]; rfl)
  rw [this]
  rfl

/-- The new spelling that a batch gives a name. -/
def newName (source : Text) (edits : List Edit) (name : Text) : Option Text :=
  (edits.find? fun e => e.replaced source == name).map (·.replacement)

theorem newName_eq_some_iff (h : RenameAll source edits) {name new : Text} :
    newName source edits name = some new ↔
      ∃ e ∈ edits, e.replaced source = name ∧ e.replacement = new := by
  unfold newName
  constructor
  · intro hnew
    obtain ⟨e, he, rfl⟩ := Option.map_eq_some_iff.mp hnew
    exact ⟨e, List.mem_of_find?_eq_some he, by simpa using List.find?_some he, rfl⟩
  · rintro ⟨e, he, rfl, rfl⟩
    cases hf : edits.find? fun a => a.replaced source == e.replaced source with
    | none =>
      have := List.find?_eq_none.mp hf e he
      exact absurd this (by simp)
    | some a =>
      have hsame : a.replaced source = e.replaced source := by simpa using List.find?_some hf
      rw [Option.map_some, h.replacement_unique (List.mem_of_find?_eq_some hf) he hsame]

/-- The renaming that a batch carries out. -/
def toRenaming (h : RenameAll source edits) : Renaming where
  newName := newName source edits
  startsWord_old hnew := by
    obtain ⟨e, he, rfl, rfl⟩ := h.newName_eq_some_iff.mp hnew
    obtain ⟨t, ht, -, heq, hstart⟩ := h.edits_token e he
    rw [heq, replaced_renameTo ht]
    exact hstart
  startsWord_new hnew := by
    obtain ⟨e, he, rfl, rfl⟩ := h.newName_eq_some_iff.mp hnew
    exact (h.isName e he).1
  isName_new hnew := by
    obtain ⟨e, he, rfl, rfl⟩ := h.newName_eq_some_iff.mp hnew
    exact (h.isName e he).2

/-- The edits of the batch are those of the identifiers with a new name. -/
theorem mem_iff (h : RenameAll source edits) {e : Edit} :
    e ∈ edits ↔ ∃ t ∈ tokens source, t.kind = .identifier ∧
      ∃ new, h.toRenaming.newName t.text = some new ∧ e = t.renameTo new := by
  constructor
  · intro he
    obtain ⟨t, ht, hkind, heq, -⟩ := h.edits_token e he
    refine ⟨t, ht, hkind, e.replacement, h.newName_eq_some_iff.mpr ⟨e, he, ?_, rfl⟩, heq⟩
    rw [heq, replaced_renameTo ht]
  · rintro ⟨t, ht, hkind, new, hnew, rfl⟩
    obtain ⟨e, he, hname, rfl⟩ := h.newName_eq_some_iff.mp hnew
    exact h.all e he t ht hkind hname.symm

end Edit.RenameAll

/-! ## The splice -/

/-- A stretch in front of all edits is left as it is. -/
theorem splice_append {o : Nat} {t u : Text} {es : List Edit}
    (h : ∀ e ∈ es, ((o + t.length : Nat) : Int) ≤ e.start ∧ e.start ≤ e.stop) :
    splice o (t ++ u) es = t ++ splice (o + t.length) u es := by
  cases es with
  | nil => rfl
  | cons e es =>
    obtain ⟨hstart, hstop⟩ := h e (by simp)
    obtain ⟨k, hk⟩ : ∃ k, e.start.toNat - o = t.length + k := ⟨e.start.toNat - o - t.length, by omega⟩
    obtain ⟨m, hm⟩ : ∃ m, e.stop.toNat - o = t.length + m := ⟨e.stop.toNat - o - t.length, by omega⟩
    rw [splice, splice, hk, hm, List.take_length_add_append, List.drop_length_add_append,
      show e.start.toNat - (o + t.length) = k by omega, show e.stop.toNat - (o + t.length) = m by omega]
    simp only [List.append_assoc]

/-- The batch of a renaming, from a piece on: the edits of the identifiers that are renamed. -/
def IsBatchFrom (ρ : Renaming) (p : Place) (ps : List Piece) (es : List Edit) : Prop :=
  es.Pairwise Edit.Before ∧ ∀ e, e ∈ es ↔ ∃ t ∈ Piece.place p ps, t.kind = .identifier ∧
    ∃ new, ρ.newName t.text = some new ∧ e = t.renameTo new

theorem IsBatchFrom.start_le {ρ : Renaming} {p : Place} {ps : List Piece} {es : List Edit}
    (h : IsBatchFrom ρ p ps es) : ∀ e ∈ es, (p.offset : Int) ≤ e.start ∧ e.start ≤ e.stop := by
  intro e he
  obtain ⟨t, ht, -, new, -, rfl⟩ := (h.2 e).mp he
  have := Piece.offset_le_start ht
  obtain ⟨_, _, -, -, hstop⟩ := Piece.mem_place ht
  exact ⟨by show (p.offset : Int) ≤ t.start; omega, by show (t.start : Int) ≤ t.stop; omega⟩

/-- Where the first piece is renamed, its edit is the first of the batch. -/
theorem IsBatchFrom.exists_cons {ρ : Renaming} {p : Place} {s new : Text} {ps : List Piece}
    {es : List Edit} (h : IsBatchFrom ρ p (.lexeme .identifier s :: ps) es)
    (hnew : ρ.newName s = some new) :
    ∃ later, es = ⟨p.offset, (p.past s).offset, new⟩ :: later ∧ IsBatchFrom ρ (p.past s) ps later := by
  obtain ⟨hbefore, hmem⟩ := h
  have hpos : p.offset < (p.past s).offset := by
    obtain ⟨g, more, rfl, -⟩ := ρ.startsWord_old hnew
    rw [Piece.offset_past, List.length_cons]
    omega
  have hfirst : (⟨p.offset, (p.past s).offset, new⟩ : Edit) ∈ es := by
    rw [hmem, Piece.place]
    exact ⟨_, List.mem_cons_self, rfl, new, hnew, rfl⟩
  -- the edits of the tokens behind start where the first one stops, or later
  have hlater : ∀ {t : Token} {n : Text}, t ∈ Piece.place (p.past s) ps →
      ((p.past s).offset : Int) ≤ (t.renameTo n).start := fun ht =>
    Int.ofNat_le.mpr (Piece.offset_le_start ht)
  cases es with
  | nil => exact absurd hfirst (by simp)
  | cons e later =>
    obtain ⟨hhead, hbefore'⟩ := List.pairwise_cons.mp hbefore
    have he : e = ⟨p.offset, (p.past s).offset, new⟩ := by
      rcases List.mem_cons.mp hfirst with heq | hin
      · exact heq.symm
      · have hlt := (hhead _ hin).2
        have hle := (IsBatchFrom.start_le ⟨hbefore, hmem⟩ e List.mem_cons_self).1
        dsimp only at hlt
        omega
    subst he
    refine ⟨later, rfl, hbefore', fun e => ?_⟩
    constructor
    · intro he
      obtain ⟨t, ht, hkind, n, hn, rfl⟩ := (hmem e).mp (List.mem_cons_of_mem _ he)
      rw [Piece.place] at ht
      rcases List.mem_cons.mp ht with rfl | ht
      · have hlt := (hhead _ he).2
        exact absurd hlt (Int.lt_irrefl _)
      · exact ⟨t, ht, hkind, n, hn, rfl⟩
    · rintro ⟨t, ht, hkind, n, hn, rfl⟩
      have hin := (hmem (t.renameTo n)).mpr
        ⟨t, by rw [Piece.place]; exact List.mem_cons_of_mem _ ht, hkind, n, hn, rfl⟩
      rcases List.mem_cons.mp hin with heq | hin
      · have hle := hlater (n := n) ht
        rw [heq] at hle
        dsimp only at hle
        omega
      · exact hin

/-- Where the first piece is not renamed, the batch is that of the pieces behind it. -/
theorem IsBatchFrom.of_unrenamed {ρ : Renaming} {p : Place} {q : Piece} {ps : List Piece}
    {es : List Edit} (h : IsBatchFrom ρ p (q :: ps) es)
    (hq : ∀ s, q = .lexeme .identifier s → ρ.newName s = none) : IsBatchFrom ρ (p.past q.text) ps es := by
  refine ⟨h.1, fun e => ?_⟩
  rw [h.2 e]
  cases q with
  | gap s => rfl
  | lexeme kind s =>
    rw [Piece.place]
    constructor
    · rintro ⟨t, ht, hkind, new, hnew, rfl⟩
      rcases List.mem_cons.mp ht with rfl | ht
      · dsimp only at hkind hnew
        subst hkind
        rw [hq s rfl] at hnew
        exact absurd hnew (by simp)
      · exact ⟨t, ht, hkind, new, hnew, rfl⟩
    · rintro ⟨t, ht, hrest⟩
      exact ⟨t, List.mem_cons_of_mem _ ht, hrest⟩

/-- Putting the edits of a renaming in gives the renamed pieces. -/
theorem splice_place {ρ : Renaming} {p : Place} {ps : List Piece} {es : List Edit}
    (h : IsBatchFrom ρ p ps es) : splice p.offset (Piece.join ps) es = ρ.text ps := by
  induction ps generalizing p es with
  | nil =>
    cases es with
    | nil => rfl
    | cons e es =>
      obtain ⟨t, ht, -⟩ := (h.2 e).mp (by simp)
      exact absurd ht (by simp [Piece.place])
  | cons q ps ih =>
    by_cases hrenamed : ∃ s new, q = .lexeme .identifier s ∧ ρ.newName s = some new
    · obtain ⟨s, new, rfl, hnew⟩ := hrenamed
      obtain ⟨later, rfl, hlater⟩ := h.exists_cons hnew
      have hlen := Piece.offset_past p s
      rw [splice, Int.toNat_natCast, Int.toNat_natCast, Nat.sub_self, List.take_zero, hlen,
        Nat.add_sub_cancel_left, Piece.join_cons, Piece.text, List.drop_left, ← hlen, ih hlater,
        Renaming.text_cons, Renaming.piece_identifier, Renaming.apply_of_some hnew]
      rfl
    · have hnone : ∀ s, q = .lexeme .identifier s → ρ.newName s = none := by
        intro s hs
        cases hnew : ρ.newName s with
        | none => rfl
        | some new => exact absurd ⟨s, new, hs, hnew⟩ hrenamed
      have hes := h.of_unrenamed hnone
      have hkeep : ρ.piece q = q := by
        rcases ρ.piece_cases q with ⟨s, new, hs, hnew⟩ | hkeep
        · exact absurd ⟨s, new, hs, hnew⟩ hrenamed
        · exact hkeep
      have hstart := hes.start_le
      rw [Piece.offset_past] at hstart
      rw [Piece.join_cons, splice_append hstart, ← Piece.offset_past, ih hes, Renaming.text_cons, hkeep]

namespace Edit.RenameAll

variable {source : Text} {edits : List Edit}

/-- Carrying the batch out is renaming the pieces of the text. -/
theorem splice_eq_text (h : RenameAll source edits) :
    splice 0 source edits = h.toRenaming.text (Piece.ofText true source) := by
  have hbatch : IsBatchFrom h.toRenaming .start (Piece.ofText true source) edits :=
    ⟨h.before, fun e => h.mem_iff⟩
  have := splice_place hbatch
  rwa [Piece.join_ofText] at this

/-- A new spelling joins the quote behind a token or not, told from the batch or from the pieces. -/
theorem noQuoteJoined_iff (h : RenameAll source edits) :
    Piece.NoQuoteJoined h.toRenaming [] (Piece.ofText true source) ↔
      ∀ e ∈ edits, Lexeme.joinsQuote e.replacement (source.drop e.stop.toNat) = false := by
  -- what stands behind a token is the text of the pieces behind it
  have behind : ∀ {front back : List Piece} {kind : TokenKind} {s : Text},
      Piece.ofText true source = front ++ .lexeme kind s :: back →
      source.drop ((Piece.join front).length + s.length) = Piece.join back := by
    intro front back kind s hps
    have hsource : source = (Piece.join front ++ s) ++ Piece.join back := by
      rw [← Piece.join_ofText true source, hps, Piece.join_append, Piece.join_cons, List.append_assoc]
      rfl
    rw [hsource, List.drop_left' List.length_append]
  rw [Piece.noQuoteJoined_iff_forall]
  constructor
  · intro hall e he
    obtain ⟨t, ht, hkind, new, hnew, rfl⟩ := h.mem_iff.mp he
    obtain ⟨front, back, hps, hstart, hstop⟩ := exists_piece_of_mem_tokens ht
    rw [hkind] at hps
    have := hall front t.text new back hps hnew
    rw [List.append_nil, ← behind hps, ← hstart, ← hstop] at this
    exact this
  · intro hall front name new back hps hnew
    obtain ⟨t, ht, hkind, rfl, hstart, hstop⟩ := mem_tokens_of_piece hps
    have := hall _ (h.mem_iff.mpr ⟨t, ht, hkind, new, hnew, rfl⟩)
    rw [List.append_nil, ← behind hps, ← hstart, ← hstop]
    exact this

end Edit.RenameAll

end HouseStyle
