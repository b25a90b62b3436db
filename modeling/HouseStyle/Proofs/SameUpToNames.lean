import HouseStyle.Proofs.RenamedText

/-!
# Programs that are the same up to names

Two lists of tokens are the same up to names (`SameUpToNames`) if one comes from the other by writing
names differently, different names differently and equal names equally. This is what a rename is
meant to keep.

- `sameUpToNames_splice_iff`: a batch that renames keeps it exactly when no two names get the same
  new one and no new name joins the quote of a literal.
-/

namespace HouseStyle

/-- Two lists of tokens agree in everything but how names are written. -/
structure SameUpToNames (a b : List Token) : Prop where
  length_eq : b.length = a.length
  kind_eq : ∀ (i : Nat) (s t : Token), a[i]? = some s → b[i]? = some t → t.kind = s.kind
  /-- Everything that is no name is written as before. -/
  text_eq : ∀ (i : Nat) (s t : Token), a[i]? = some s → b[i]? = some t → s.kind ≠ .identifier →
    t.text = s.text
  /-- Two names are one name after it if and only if they were before. -/
  name_iff : ∀ (i j : Nat) (s s' t t' : Token), a[i]? = some s → a[j]? = some s' → b[i]? = some t →
    b[j]? = some t' → s.kind = .identifier → s'.kind = .identifier →
    (t.text = t'.text ↔ s.text = s'.text)

/-- The kind and the text of a token. -/
def Token.lexeme (t : Token) : TokenKind × Text := (t.kind, t.text)

/-- The lexemes of two names at known places tell whether the names are merged. -/
theorem SameUpToNames.lexeme_iff {a b : List Token} (h : SameUpToNames a b) {i j : Nat}
    {x y x' y' : Text} (hx : (a.map Token.lexeme)[i]? = some (.identifier, x))
    (hy : (a.map Token.lexeme)[j]? = some (.identifier, y))
    (hx' : (b.map Token.lexeme)[i]? = some (.identifier, x'))
    (hy' : (b.map Token.lexeme)[j]? = some (.identifier, y')) : x' = y' ↔ x = y := by
  rw [List.getElem?_map, Option.map_eq_some_iff] at hx hy hx' hy'
  obtain ⟨s, hs, hsx⟩ := hx
  obtain ⟨s', hs', hsy⟩ := hy
  obtain ⟨t, ht, htx⟩ := hx'
  obtain ⟨t', ht', hty⟩ := hy'
  obtain ⟨hsk, rfl⟩ := Prod.mk.inj hsx
  obtain ⟨hsk', rfl⟩ := Prod.mk.inj hsy
  obtain ⟨-, rfl⟩ := Prod.mk.inj htx
  obtain ⟨-, rfl⟩ := Prod.mk.inj hty
  exact h.name_iff i j s s' t t' hs hs' ht ht' hsk hsk'

namespace Renaming

/-- A lexeme after the renaming. -/
def lexeme (ρ : Renaming) (l : TokenKind × Text) : TokenKind × Text :=
  if l.1 = .identifier then (l.1, ρ.apply l.2) else l

variable {ρ : Renaming}

theorem fst_lexeme (l : TokenKind × Text) : (ρ.lexeme l).1 = l.1 := by
  unfold lexeme
  split <;> rfl

theorem lexemes_map_piece (ps : List Piece) :
    Piece.lexemes (ps.map ρ.piece) = (Piece.lexemes ps).map ρ.lexeme := by
  induction ps with
  | nil => rfl
  | cons p ps ih =>
    cases p with
    | gap t => exact ih
    | lexeme kind t =>
      have hrest : Piece.lexemes ((.lexeme kind t :: ps).map ρ.piece) =
          Piece.lexemes [ρ.piece (.lexeme kind t)] ++ Piece.lexemes (ps.map ρ.piece) := by
        rw [← Piece.lexemes_append]
        rfl
      rw [hrest, ih]
      by_cases hk : kind = .identifier
      · subst hk
        rfl
      · rw [piece_lexeme hk]
        simp [Piece.lexemes, lexeme, hk]

end Renaming

/-- A kind of the tokens that are neither comments nor directives. -/
def TokenKind.isCode (k : TokenKind) : Bool := k != .comment && k != .directive

theorem map_lexeme_code (ts : List Token) :
    (Token.code ts).map Token.lexeme = (ts.map Token.lexeme).filter (·.1.isCode) := by
  rw [List.filter_map, Token.code]
  congr 1

/-- The lexemes of the code of a text, told from its pieces. -/
theorem lexemes_code_tokens (source : Text) :
    (Token.code (tokens source)).map Token.lexeme =
      (Piece.lexemes (Piece.ofText true source)).filter (·.1.isCode) := by
  rw [map_lexeme_code, ← Piece.map_place]
  rfl

theorem SameUpToNames.of_lexemes {ρ : Renaming} {a b : List Token}
    (h : b.map Token.lexeme = (a.map Token.lexeme).map ρ.lexeme) :
    SameUpToNames a b ↔ ∀ s ∈ a, ∀ s' ∈ a, s.kind = .identifier → s'.kind = .identifier →
      ρ.apply s.text = ρ.apply s'.text → s.text = s'.text := by
  -- the tokens at one index before and after
  have hat : ∀ {i : Nat} {s t : Token}, a[i]? = some s → b[i]? = some t → t.lexeme = ρ.lexeme s.lexeme := by
    intro i s t hs ht
    have := congrArg (·[i]?) h
    simpa [List.getElem?_map, hs, ht] using this
  have hlen : b.length = a.length := by
    have := congrArg List.length h
    simpa using this
  have hkind : ∀ {i : Nat} {s t : Token}, a[i]? = some s → b[i]? = some t → t.kind = s.kind := by
    intro i s t hs ht
    have := congrArg Prod.fst (hat hs ht)
    rwa [Renaming.fst_lexeme] at this
  have hname : ∀ {i : Nat} {s t : Token}, a[i]? = some s → b[i]? = some t → s.kind = .identifier →
      t.text = ρ.apply s.text := by
    intro i s t hs ht hk
    have := congrArg Prod.snd (hat hs ht)
    rwa [Renaming.lexeme, if_pos (by exact hk)] at this
  constructor
  · intro hsame s hs s' hs' hk hk' heq
    obtain ⟨i, hi⟩ := List.getElem?_of_mem hs
    obtain ⟨j, hj⟩ := List.getElem?_of_mem hs'
    obtain ⟨t, ht⟩ : ∃ t, b[i]? = some t := by
      obtain ⟨hlt, -⟩ := List.getElem?_eq_some_iff.mp hi
      exact ⟨_, List.getElem?_eq_getElem (by omega)⟩
    obtain ⟨t', ht'⟩ : ∃ t, b[j]? = some t := by
      obtain ⟨hlt, -⟩ := List.getElem?_eq_some_iff.mp hj
      exact ⟨_, List.getElem?_eq_getElem (by omega)⟩
    refine (hsame.name_iff i j s s' t t' hi hj ht ht' hk hk').mp ?_
    rw [hname hi ht hk, hname hj ht' hk', heq]
  · intro hinj
    refine ⟨hlen, fun i s t hs ht => hkind hs ht, fun i s t hs ht hk => ?_, ?_⟩
    · have := congrArg Prod.snd (hat hs ht)
      rwa [Renaming.lexeme, if_neg (by exact hk)] at this
    · intro i j s s' t t' hi hj ht ht' hk hk'
      rw [hname hi ht hk, hname hj ht' hk']
      exact ⟨hinj s (List.mem_of_getElem? hi) s' (List.mem_of_getElem? hj) hk hk', fun h => by rw [h]⟩

/-- Lists whose lexemes agree up to a place where their kinds differ are not the same up to names. -/
theorem not_sameUpToNames_of_kind_ne {a b : List Token} {front₁ front₂ back₁ back₂ : List (TokenKind × Text)}
    {x y : TokenKind × Text} (ha : a.map Token.lexeme = front₁ ++ x :: back₁)
    (hb : b.map Token.lexeme = front₂ ++ y :: back₂) (hlen : front₁.length = front₂.length)
    (hxy : x.1 ≠ y.1) : ¬SameUpToNames a b := by
  intro h
  have hx : (a.map Token.lexeme)[front₁.length]? = some x := by
    rw [ha, List.getElem?_append_right (Nat.le_refl _), Nat.sub_self]
    rfl
  have hy : (b.map Token.lexeme)[front₁.length]? = some y := by
    rw [hb, hlen, List.getElem?_append_right (Nat.le_refl _), Nat.sub_self]
    rfl
  rw [List.getElem?_map, Option.map_eq_some_iff] at hx hy
  obtain ⟨s, hs, rfl⟩ := hx
  obtain ⟨t, ht, rfl⟩ := hy
  exact hxy (h.kind_eq _ s t hs ht).symm

namespace Edit.RenameAll

variable {source : Text} {edits : List Edit}

/-- Where no new name joins a quote, the code of the new text is the renamed code. -/
theorem lexemes_code_splice (h : RenameAll source edits)
    (hquote : Piece.NoQuoteJoined h.toRenaming [] (Piece.ofText true source)) :
    (Token.code (tokens (splice 0 source edits))).map Token.lexeme =
      ((Token.code (tokens source)).map Token.lexeme).map h.toRenaming.lexeme := by
  rw [lexemes_code_tokens, lexemes_code_tokens, h.splice_eq_text,
    Piece.ofText_map_rename (by rw [Piece.join_ofText]) hquote, Renaming.lexemes_map_piece,
    List.filter_map]
  congr 2
  funext l
  show (h.toRenaming.lexeme l).1.isCode = l.1.isCode
  rw [Renaming.fst_lexeme]

/-- Where a new name joins a quote, there is a literal in place of an identifier. -/
theorem not_sameUpToNames_of_quoteJoined (h : RenameAll source edits)
    (hquote : ¬Piece.NoQuoteJoined h.toRenaming [] (Piece.ofText true source)) :
    ¬SameUpToNames (Token.code (tokens source)) (Token.code (tokens (splice 0 source edits))) := by
  rcases Piece.noQuoteJoined_or h.toRenaming (Piece.ofText true source) with hnone |
    ⟨front, name, new, back, hps, hnew, hjoin, hfront⟩
  · exact absurd hnone hquote
  have hcut : Piece.ofText true (Piece.join (front ++ .lexeme .identifier name :: back)) =
      front ++ .lexeme .identifier name :: back := by
    rw [← hps, Piece.join_ofText]
  obtain ⟨t, more, hliteral⟩ := Piece.ofText_joined (Piece.ofText_eq_append hcut) hnew hjoin
  have hnewcut := Piece.ofText_text_append h.toRenaming front _ hcut hfront
  rw [hliteral, ← hps, ← h.splice_eq_text] at hnewcut
  -- both lists of lexemes go on from the same number of code tokens
  have hold := lexemes_code_tokens source
  have hupdated := lexemes_code_tokens (splice 0 source edits)
  rw [hps, Piece.lexemes_append, List.filter_append] at hold
  rw [hnewcut, Piece.lexemes_append, List.filter_append, Renaming.lexemes_map_piece] at hupdated
  refine not_sameUpToNames_of_kind_ne (x := (.identifier, name)) (y := (.literal, t)) hold hupdated ?_ (by simp)
  rw [List.filter_map, List.length_map]
  congr 2
  funext l
  show l.1.isCode = (h.toRenaming.lexeme l).1.isCode
  rw [Renaming.fst_lexeme]

theorem mem_code_of_identifier {t : Token} (ht : t ∈ tokens source) (hkind : t.kind = .identifier) :
    t ∈ Token.code (tokens source) := by
  refine List.mem_filter.mpr ⟨ht, ?_⟩
  simp [Token.isCode, Token.isComment, Token.isDirective, hkind]

theorem apply_eq_of_mem (h : RenameAll source edits) {e : Edit} (he : e ∈ edits) :
    h.toRenaming.apply (e.replaced source) = e.replacement :=
  Renaming.apply_of_some (h.newName_eq_some_iff.mpr ⟨e, he, rfl, rfl⟩)

/-- Whether the renaming merges names of the code can be told from the batch alone, if no new name is
in use. -/
theorem apply_injective_iff (h : RenameAll source edits)
    (hfresh : ∀ e ∈ edits, ∀ t ∈ tokens source, t.kind = .identifier → t.text ≠ e.replacement) :
    (∀ s ∈ Token.code (tokens source), ∀ s' ∈ Token.code (tokens source), s.kind = .identifier →
        s'.kind = .identifier → h.toRenaming.apply s.text = h.toRenaming.apply s'.text →
        s.text = s'.text) ↔
      ∀ a ∈ edits, ∀ b ∈ edits, a.replacement = b.replacement →
        a.replaced source = b.replaced source := by
  constructor
  · -- two edits with one new name are at tokens that are called the same afterwards
    intro hinj a ha b hb hab
    obtain ⟨s, hs, hks, heqs, -⟩ := h.edits_token a ha
    obtain ⟨s', hs', hks', heqs', -⟩ := h.edits_token b hb
    have hra : a.replaced source = s.text := by rw [heqs, replaced_renameTo hs]
    have hrb : b.replaced source = s'.text := by rw [heqs', replaced_renameTo hs']
    rw [hra, hrb]
    refine hinj s (mem_code_of_identifier hs hks) s' (mem_code_of_identifier hs' hks') hks hks' ?_
    rw [← hra, ← hrb, h.apply_eq_of_mem ha, h.apply_eq_of_mem hb, hab]
  · -- names that become one are both renamed, since no new name is in use
    intro hmerge s hs s' hs' hks hks' heq
    have hs := (List.mem_filter.mp hs).1
    have hs' := (List.mem_filter.mp hs').1
    cases hn : h.toRenaming.newName s.text with
    | none =>
      cases hn' : h.toRenaming.newName s'.text with
      | none => rwa [Renaming.apply_of_none hn, Renaming.apply_of_none hn'] at heq
      | some new =>
        obtain ⟨e, he, -, rfl⟩ := h.newName_eq_some_iff.mp hn'
        rw [Renaming.apply_of_none hn, Renaming.apply_of_some hn'] at heq
        exact absurd heq (hfresh e he s hs hks)
    | some new =>
      obtain ⟨e, he, hes, rfl⟩ := h.newName_eq_some_iff.mp hn
      rw [Renaming.apply_of_some hn] at heq
      cases hn' : h.toRenaming.newName s'.text with
      | none =>
        rw [Renaming.apply_of_none hn'] at heq
        exact absurd heq.symm (hfresh e he s' hs' hks')
      | some new' =>
        obtain ⟨e', he', hes', rfl⟩ := h.newName_eq_some_iff.mp hn'
        rw [Renaming.apply_of_some hn'] at heq
        rw [← hes, ← hes']
        exact hmerge e he e' he' heq

/-- A batch that renames to names that are not in use keeps a program the same up to names exactly
when no two names get the same new one and no new name joins the quote of a literal. -/
theorem sameUpToNames_splice_iff (h : RenameAll source edits)
    (hfresh : ∀ e ∈ edits, ∀ t ∈ tokens source, t.kind = .identifier → t.text ≠ e.replacement) :
    SameUpToNames (Token.code (tokens source)) (Token.code (tokens (splice 0 source edits))) ↔
      (∀ a ∈ edits, ∀ b ∈ edits, a.replacement = b.replacement →
        a.replaced source = b.replaced source) ∧
      ∀ e ∈ edits, Lexeme.joinsQuote e.replacement (source.drop e.stop.toNat) = false := by
  by_cases hquote : Piece.NoQuoteJoined h.toRenaming [] (Piece.ofText true source)
  · rw [SameUpToNames.of_lexemes (h.lexemes_code_splice hquote), h.apply_injective_iff hfresh]
    exact ⟨fun hmerge => ⟨hmerge, h.noQuoteJoined_iff.mp hquote⟩, fun hboth => hboth.1⟩
  · refine ⟨fun hsame => absurd hsame (h.not_sameUpToNames_of_quoteJoined hquote), fun hboth => ?_⟩
    exact absurd (h.noQuoteJoined_iff.mpr hboth.2) hquote

end Edit.RenameAll

end HouseStyle
