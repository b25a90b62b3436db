import HouseStyle.Proofs.RenamedText

/-!
# A text with new names and `enum class`

Fixing spells identifiers in new ways and puts ` class` in behind some of the `enum`s. Piece by piece
this is `Piece.rewriteFrom`, and as a batch it is `Piece.editsFrom`, in the order in which the edits stand
in the text:

- `splice_editsFrom`: carrying the batch out is rewriting the pieces.
- `ofText_rewriteFrom`: the new text is cut into the rewritten pieces, as long as no new spelling joins
  the quote behind it.

An `enum` is a word and `enum class` starts with one, so what stands before it is cut as if a name had
been replaced there.
-/

namespace HouseStyle

namespace Lexeme

/-- A keyword is told by its text. -/
theorem text_of_word {name rest : Text} {k : Keyword} (hall : ∀ g ∈ name, continuesWord g = true)
    (hrest : EndsWord rest) (h : word (name ++ rest) = (.keyword k, name.length)) : name = k.text := by
  unfold word at h
  rw [takeWhile_name hall hrest, dropWhile_name hall hrest] at h
  dsimp only at h
  cases hk : Keyword.ofText? name with
  | none =>
    rw [hk] at h
    split at h
    next => exact absurd h (by simp)
    next =>
      split at h
      next => exact absurd h (by simp)
      next => split at h <;> exact absurd h (by simp)
  | some other =>
    rw [hk] at h
    obtain rfl : other = k := by
      split at h
      next => exact TokenKind.keyword.inj (Prod.mk.inj h).1
      next =>
        split at h
        next => exact absurd h (by simp)
        next =>
          split at h
          next => exact absurd h (by simp)
          next => exact TokenKind.keyword.inj (Prod.mk.inj h).1
    exact (by simpa using List.find?_some hk : other.text = name).symm

/-- The word `class` is no prefix of a literal. -/
theorem word_class {rest : Text} (hrest : EndsWord rest) :
    word (Text.ofString "class" ++ rest) = (.keyword .classKw, 5) := by
  have hall : ∀ g ∈ Text.ofString "class", continuesWord g = true := by decide
  have hraw : (rawStringLeads.map Text.ofString).contains (Text.ofString "class") = false := by decide
  have hstring : (stringLeads.map Text.ofString).contains (Text.ofString "class") = false := by decide
  unfold word
  rw [takeWhile_name hall hrest, dropWhile_name hall hrest]
  dsimp only
  cases rest with
  | nil => rfl
  | cons g inner =>
    dsimp only
    rw [hraw, hstring, Bool.and_false, Bool.and_false, if_neg (by decide), if_neg (by decide)]
    rfl

end Lexeme

namespace Piece

/-- A keyword that leads a text is written as it is, and no word goes on behind it. -/
theorem leads_keyword {lineStart : Bool} {k : Keyword} {t rest : Text}
    (h : Leads lineStart (.lexeme (.keyword k) t) rest) : t = k.text ∧ Lexeme.EndsWord rest := by
  have hne : t ≠ [] := text_ne_nil h
  obtain ⟨_, _, -, -, -, -, hl⟩ := h
  obtain ⟨-, hall, hend, hword⟩ := Lexeme.word_of_leading hne (Or.inr ⟨k, rfl⟩) hl
  exact ⟨Lexeme.text_of_word hall hend hword, hend⟩

theorem leads_class_of_endsWord (lineStart : Bool) {rest : Text} (hrest : Lexeme.EndsWord rest) :
    Leads lineStart (.lexeme (.keyword .classKw) (Text.ofString "class")) rest := by
  refine ⟨.scalar 'c', Text.ofString "lass", rfl, by decide, by decide, rfl, ?_⟩
  show Lexeme.leading lineStart (.scalar 'c' :: (Text.ofString "lass" ++ rest)) = _
  rw [Lexeme.leading_startsWord (by decide) (by decide)]
  exact Lexeme.word_class hrest

theorem leads_enum_space (lineStart : Bool) (rest : Text) :
    Leads lineStart (.lexeme (.keyword .enumKw) (Text.ofString "enum")) (.scalar ' ' :: rest) := by
  refine ⟨.scalar 'e', Text.ofString "num", rfl, by decide, by decide, rfl, ?_⟩
  show Lexeme.leading lineStart (.scalar 'e' :: (Text.ofString "num" ++ .scalar ' ' :: rest)) = _
  rw [Lexeme.leading_startsWord (by decide) (by decide)]
  rfl

/-! ## Rewriting -/

/-- The pieces of ` class`. -/
def classPieces : List Piece := [.gap [.scalar ' '], .lexeme (.keyword .classKw) (Text.ofString "class")]

/-- What is put in behind a piece that ends at an offset: ` class` behind an `enum` at one of the given
offsets. -/
def behind (scopesAt : Nat → Bool) (stop : Nat) : Piece → List Piece
  | .lexeme (.keyword .enumKw) _ => if scopesAt stop then classPieces else []
  | _ => []

/-- Pieces from an offset on, rewritten. -/
def rewriteFrom (ρ : Renaming) (scopesAt : Nat → Bool) (o : Nat) : List Piece → List Piece
  | [] => []
  | p :: ps =>
    ρ.piece p :: (behind scopesAt (o + p.text.length) p ++ rewriteFrom ρ scopesAt (o + p.text.length) ps)

variable {ρ : Renaming} {scopesAt : Nat → Bool}

/-- How a piece is rewritten: it is a name with a new spelling, an `enum` that becomes scoped, or it stays
as it is. -/
theorem rewrite_cases (ρ : Renaming) (scopesAt : Nat → Bool) (stop : Nat) (p : Piece) :
    (∃ name new, p = .lexeme .identifier name ∧ ρ.newName name = some new ∧ behind scopesAt stop p = []) ∨
      (∃ t, p = .lexeme (.keyword .enumKw) t ∧ scopesAt stop = true ∧ ρ.piece p = p ∧
        behind scopesAt stop p = classPieces) ∨
      ((∀ name, p = .lexeme .identifier name → ρ.newName name = none) ∧
        (∀ t, p = .lexeme (.keyword .enumKw) t → scopesAt stop = false) ∧
        ρ.piece p = p ∧ behind scopesAt stop p = []) := by
  by_cases hrenamed : ∃ name new, p = .lexeme .identifier name ∧ ρ.newName name = some new
  · obtain ⟨name, new, rfl, hnew⟩ := hrenamed
    exact Or.inl ⟨name, new, rfl, hnew, rfl⟩
  right
  have hp : ρ.piece p = p := (ρ.piece_cases p).resolve_left hrenamed
  by_cases hscoped : ∃ t, p = .lexeme (.keyword .enumKw) t ∧ scopesAt stop = true
  · obtain ⟨t, rfl, hs⟩ := hscoped
    exact Or.inl ⟨t, rfl, hs, hp, by rw [behind, if_pos hs]⟩
  right
  have hnew : ∀ name, p = .lexeme .identifier name → ρ.newName name = none := fun name hname =>
    Option.eq_none_iff_forall_ne_some.mpr fun new h => hrenamed ⟨name, new, hname, h⟩
  have hs : ∀ t, p = .lexeme (.keyword .enumKw) t → scopesAt stop = false := fun t ht =>
    Bool.eq_false_iff.mpr fun h => hscoped ⟨t, ht, h⟩
  refine ⟨hnew, hs, hp, ?_⟩
  unfold behind
  split
  next t => rw [if_neg (by rw [hs t rfl]; decide)]
  next => rfl

/-- Nothing is rewritten, or the texts agree up to the first piece that is. -/
theorem join_rewriteFrom_cases {lineStart : Bool} {ps : List Piece} (h : ofText lineStart (join ps) = ps)
    (o : Nat) :
    join (rewriteFrom ρ scopesAt o ps) = join ps ∨
      ∃ front back v, ps = front ++ back ∧ join (rewriteFrom ρ scopesAt o ps) = join front ++ v ∧
        Lexeme.StartsWord (join back) ∧ Lexeme.StartsWord v := by
  induction ps generalizing lineStart o with
  | nil => exact Or.inl rfl
  | cons p ps ih =>
    obtain ⟨-, hlead, hrest⟩ := ofText_eq_cons_iff.mp h
    rcases rewrite_cases ρ scopesAt (o + p.text.length) p with ⟨name, new, rfl, hnew, hbehind⟩ |
      ⟨t, rfl, -, hp, hbehind⟩ | ⟨-, -, hp, hbehind⟩
    · right
      refine ⟨[], .lexeme .identifier name :: ps, _, rfl, (List.nil_append _).symm, ?_, ?_⟩
      · obtain ⟨g, more, rfl, hg⟩ := ρ.startsWord_old hnew
        exact ⟨g, more ++ join ps, rfl, hg⟩
      · obtain ⟨g, more, heq, hg⟩ := ρ.startsWord_new hnew
        rw [rewriteFrom, join_cons, Renaming.piece_identifier, Renaming.apply_of_some hnew, text, heq]
        exact ⟨g, _, rfl, hg⟩
    · right
      obtain ⟨rfl, -⟩ := leads_keyword hlead
      refine ⟨[], .lexeme (.keyword .enumKw) _ :: ps, _, rfl, (List.nil_append _).symm,
        ⟨.scalar 'e', _, rfl, by decide⟩, ?_⟩
      rw [rewriteFrom, join_cons, hp]
      exact ⟨.scalar 'e', _, rfl, by decide⟩
    · rw [rewriteFrom, hp, hbehind, List.nil_append, join_cons, join_cons]
      rcases ih hrest (o + p.text.length) with heq | ⟨front, back, v, rfl, hv, hsu, hsv⟩
      · exact Or.inl (by rw [heq])
      · exact Or.inr ⟨p :: front, back, v, rfl, by rw [hv, join_cons, List.append_assoc], hsu, hsv⟩

/-- A piece that stays as it is still leads the text when what is behind it is rewritten. -/
theorem leads_before_rewritten {lineStart lineStart' : Bool} {p : Piece} {ps : List Piece}
    (hp : Leads lineStart p (join ps)) (hps : ofText lineStart' (join ps) = ps) (o : Nat) :
    Leads lineStart p (join (rewriteFrom ρ scopesAt o ps)) := by
  rcases @join_rewriteFrom_cases ρ scopesAt _ _ hps o with
    heq | ⟨front, back, v, rfl, hv, hu, hsv⟩
  · rw [heq]
    exact hp
  · rw [join_append] at hp
    rw [hv]
    exact leads_append_word hp hu hsv (join_ne_quote hps hu.term)

/-- Where no word goes on, the rewritten text goes on with the same glyph. -/
theorem head_rewriteFrom {lineStart : Bool} {ps : List Piece} (hps : ofText lineStart (join ps) = ps)
    (hend : Lexeme.EndsWord (join ps)) (o : Nat) :
    (join (rewriteFrom ρ scopesAt o ps)).head? = (join ps).head? := by
  rcases @join_rewriteFrom_cases ρ scopesAt _ _ hps o with
    heq | ⟨front, back, v, rfl, hv, ⟨a, as, hu, ha⟩, -⟩
  · rw [heq]
  · rw [hv]
    rw [join_append] at hend ⊢
    cases hfront : join front with
    | nil =>
      rw [hfront, List.nil_append, hu, Lexeme.endsWord_cons, Lexeme.continuesWord_of_opensWord ha] at hend
      exact absurd hend (by decide)
    | cons g more => rfl

/-- The rewritten text is cut into the rewritten pieces. -/
theorem ofText_rewriteFrom {lineStart : Bool} {ps : List Piece} (h : ofText lineStart (join ps) = ps)
    (hquote : NoQuoteJoined ρ [] ps) (o : Nat) :
    ofText lineStart (join (rewriteFrom ρ scopesAt o ps)) = rewriteFrom ρ scopesAt o ps := by
  induction ps generalizing lineStart o with
  | nil => rw [rewriteFrom, join_nil, ofText]
  | cons p ps ih =>
    obtain ⟨-, hlead, hrest⟩ := ofText_eq_cons_iff.mp h
    have hbehind := ih hrest hquote.2 (o + p.text.length)
    rw [rewriteFrom, join_cons]
    rcases rewrite_cases ρ scopesAt (o + p.text.length) p with ⟨name, new, rfl, hnew, hnone⟩ |
      ⟨t, rfl, -, hp, hclass⟩ | ⟨-, -, hp, hnone⟩
    · obtain ⟨-, hend, -⟩ := leads_identifier_iff.mp hlead
      have hhead := @head_rewriteFrom ρ scopesAt _ _ hrest hend (o + name.length)
      change ofText _ (join (rewriteFrom ρ scopesAt (o + name.length) ps)) = _ at hbehind
      have hnext := hquote.1 name new rfl hnew
      rw [List.append_nil] at hnext
      have hleads : Leads lineStart (.lexeme .identifier new)
          (join (rewriteFrom ρ scopesAt (o + name.length) ps)) :=
        leads_identifier_iff.mpr ⟨ρ.isName_new hnew, (Lexeme.endsWord_congr hhead).mpr hend,
          (Lexeme.joinsQuote_congr hhead).trans hnext⟩
      rw [hnone, List.nil_append, Renaming.piece_identifier, Renaming.apply_of_some hnew]
      exact (ofText_of_leads hleads).trans (congrArg _ hbehind)
    · obtain ⟨rfl, hend⟩ := leads_keyword hlead
      have hhead := @head_rewriteFrom ρ scopesAt _ _ hrest hend
        (o + Keyword.enumKw.text.length)
      -- `enum`, the blank and `class` are cut off one after another
      have hcut := ofText_of_leads (leads_class_of_endsWord false ((Lexeme.endsWord_congr hhead).mpr hend))
      have hstart : ofText lineStart (Text.ofString "enum" ++ (.scalar ' ' :: (Text.ofString "class" ++
          join (rewriteFrom ρ scopesAt (o + Keyword.enumKw.text.length) ps)))) = _ :=
        ofText_of_leads (p := .lexeme (.keyword .enumKw) (Text.ofString "enum")) (leads_enum_space lineStart _)
      rw [hp, hclass, join_append]
      refine hstart.trans ?_
      rw [ofText_spacing (by decide) (by decide)]
      exact congrArg (fun l => _ :: _ :: l) (hcut.trans (congrArg _ hbehind))
    · rw [hp, hnone, List.nil_append, ofText_of_leads (leads_before_rewritten hlead hrest _), hbehind]

/-! ## The batch -/

/-- The edit of a piece that begins at an offset, if it gets a new spelling. -/
def respelling (ρ : Renaming) (o : Nat) : Piece → List Edit
  | .lexeme .identifier name => (ρ.newName name).toList.map fun new => ⟨o, (o + name.length : Nat), new⟩
  | _ => []

/-- The edit behind a piece that ends at an offset, if something is put in there. -/
def insertion (scopesAt : Nat → Bool) (stop : Nat) (p : Piece) : List Edit :=
  if (behind scopesAt stop p).isEmpty then [] else [⟨stop, stop, join classPieces⟩]

/-- The edits that rewrite some pieces, from an offset on. -/
def editsFrom (ρ : Renaming) (scopesAt : Nat → Bool) (o : Nat) : List Piece → List Edit
  | [] => []
  | p :: ps =>
    respelling ρ o p ++
      (insertion scopesAt (o + p.text.length) p ++ editsFrom ρ scopesAt (o + p.text.length) ps)

/-- The edit of a piece, together with what the piece becomes. -/
theorem edits_cases (ρ : Renaming) (scopesAt : Nat → Bool) (o : Nat) (p : Piece) (ps : List Piece) :
    (∃ name new, p = .lexeme .identifier name ∧ ρ.newName name = some new ∧
        editsFrom ρ scopesAt o (p :: ps) =
          ⟨o, (o + name.length : Nat), new⟩ :: editsFrom ρ scopesAt (o + name.length) ps ∧
        rewriteFrom ρ scopesAt o (p :: ps) =
          .lexeme .identifier new :: rewriteFrom ρ scopesAt (o + name.length) ps) ∨
      (∃ t, p = .lexeme (.keyword .enumKw) t ∧ scopesAt (o + t.length) = true ∧
        editsFrom ρ scopesAt o (p :: ps) =
          ⟨(o + t.length : Nat), (o + t.length : Nat), join classPieces⟩ ::
            editsFrom ρ scopesAt (o + t.length) ps ∧
        rewriteFrom ρ scopesAt o (p :: ps) = p :: (classPieces ++ rewriteFrom ρ scopesAt (o + t.length) ps)) ∨
      ((∀ name, p = .lexeme .identifier name → ρ.newName name = none) ∧
        (∀ t, p = .lexeme (.keyword .enumKw) t → scopesAt (o + t.length) = false) ∧
        editsFrom ρ scopesAt o (p :: ps) = editsFrom ρ scopesAt (o + p.text.length) ps ∧
        rewriteFrom ρ scopesAt o (p :: ps) = p :: rewriteFrom ρ scopesAt (o + p.text.length) ps) := by
  -- a renamed identifier, an `enum` with a word put in behind it, and any other piece
  rcases rewrite_cases ρ scopesAt (o + p.text.length) p with ⟨name, new, rfl, hnew, hnone⟩ |
    ⟨t, rfl, hs, hp, hclass⟩ | ⟨hnew, hs, hp, hnone⟩
  · left
    refine ⟨name, new, rfl, hnew, ?_, ?_⟩
    · rw [editsFrom, insertion, hnone, respelling, hnew]
      rfl
    · rw [rewriteFrom, hnone, Renaming.piece_identifier, Renaming.apply_of_some hnew]
      rfl
  · right; left
    refine ⟨t, rfl, hs, ?_, ?_⟩
    · rw [editsFrom, insertion, hclass]
      rfl
    · rw [rewriteFrom, hp, hclass]
      rfl
  · right; right
    refine ⟨hnew, fun t ht => by subst ht; exact hs t rfl, ?_, ?_⟩
    · have hrespelling : respelling ρ o p = [] := by
        unfold respelling
        split
        next name => rw [hnew name rfl]; rfl
        next => rfl
      rw [editsFrom, insertion, hnone, hrespelling]
      rfl
    · rw [rewriteFrom, hp, hnone]
      rfl

/-- No edit starts before the first piece, and none ends before it starts. -/
theorem start_of_mem_editsFrom {o : Nat} {ps : List Piece} {e : Edit} (h : e ∈ editsFrom ρ scopesAt o ps) :
    (o : Int) ≤ e.start ∧ e.start ≤ e.stop := by
  induction ps generalizing o with
  | nil => exact absurd h (by simp [editsFrom])
  | cons p ps ih =>
    rcases edits_cases ρ scopesAt o p ps with ⟨name, new, -, -, hes, -⟩ | ⟨t, -, -, hes, -⟩ |
      ⟨-, -, hes, -⟩ <;> rw [hes] at h
    · rcases List.mem_cons.mp h with rfl | h
      · exact ⟨Int.le_refl _, by dsimp only; omega⟩
      · have := ih h
        omega
    · rcases List.mem_cons.mp h with rfl | h
      · exact ⟨by dsimp only; omega, Int.le_refl _⟩
      · have := ih h
        omega
    · have := ih h
      omega

/-- Carrying the edits out is rewriting the pieces. -/
theorem splice_editsFrom (o : Nat) (ps : List Piece) :
    splice o (join ps) (editsFrom ρ scopesAt o ps) = join (rewriteFrom ρ scopesAt o ps) := by
  induction ps generalizing o with
  | nil => rfl
  | cons p ps ih =>
    rcases edits_cases ρ scopesAt o p ps with ⟨name, new, rfl, -, hes, hps⟩ | ⟨t, rfl, -, hes, hps⟩ |
      ⟨-, -, hes, hps⟩
    · rw [hes, hps, splice, join_cons, join_cons, ← ih]
      simp only [text, Int.toNat_natCast, Nat.sub_self, List.take_zero, Nat.add_sub_cancel_left,
        List.drop_left, List.nil_append]
    · rw [hes, hps, splice, join_cons, join_cons, join_append, ← ih]
      simp only [text, Int.toNat_natCast, Nat.add_sub_cancel_left, List.drop_left, List.take_left,
        List.append_assoc]
    · rw [hes, hps, join_cons, join_cons, ← ih]
      exact splice_append fun e he => start_of_mem_editsFrom he

/-- Which edits these are: they respell names and put ` class` in behind an `enum`. -/
theorem mem_editsFrom_iff {p : Place} {ps : List Piece} {e : Edit} :
    e ∈ editsFrom ρ scopesAt p.offset ps ↔ ∃ t ∈ place p ps,
      (t.kind = .identifier ∧ ∃ new, ρ.newName t.text = some new ∧ e = t.renameTo new) ∨
        (t.kind = .keyword .enumKw ∧ scopesAt t.stop = true ∧ e = ⟨t.stop, t.stop, join classPieces⟩) := by
  induction ps generalizing p with
  | nil => simp [editsFrom, place]
  | cons q ps ih =>
    have hrest := ih (p := p.past q.text)
    rw [offset_past] at hrest
    rcases edits_cases ρ scopesAt p.offset q ps with ⟨name, new, rfl, hnew, hes, -⟩ |
      ⟨s, rfl, hs, hes, -⟩ | ⟨hnew, hs, hes, -⟩
    · simp only [hes, place, List.mem_cons, exists_eq_or_imp]
      refine or_congr ?_ hrest
      simp [hnew, Token.renameTo, offset_past]
    · simp only [hes, place, List.mem_cons, exists_eq_or_imp]
      refine or_congr ?_ hrest
      simp [hs, offset_past]
    · rw [hes, hrest]
      cases q with
      | gap s => rfl
      | lexeme kind s =>
        simp only [place, List.mem_cons, exists_eq_or_imp]
        refine (or_iff_right ?_).symm
        rintro (⟨hkind, new, h, -⟩ | ⟨hkind, h, -⟩) <;> subst hkind
        · rw [hnew s rfl] at h
          exact absurd h (by simp)
        · rw [offset_past, hs s rfl] at h
          exact absurd h (by simp)

/-- No edit ends where the first piece begins. -/
theorem lt_stop_of_mem_editsFrom {o : Nat} {ps : List Piece} {e : Edit} (hne : ∀ p ∈ ps, p.text ≠ [])
    (h : e ∈ editsFrom ρ scopesAt o ps) : (o : Int) < e.stop := by
  induction ps generalizing o with
  | nil => exact absurd h (by simp [editsFrom])
  | cons p ps ih =>
    rw [List.forall_mem_cons] at hne
    have hpos := List.length_pos_iff.mpr hne.1
    have later : ∀ {n : Nat}, e ∈ editsFrom ρ scopesAt (o + n) ps → (o : Int) < e.stop := fun h => by
      have := ih hne.2 h
      omega
    rcases edits_cases ρ scopesAt o p ps with ⟨name, new, rfl, -, hes, -⟩ | ⟨t, rfl, -, hes, -⟩ |
      ⟨-, -, hes, -⟩ <;> rw [hes] at h
    · rcases List.mem_cons.mp h with rfl | h
      · simp only [text] at hpos ⊢
        omega
      · exact later h
    · rcases List.mem_cons.mp h with rfl | h
      · simp only [text] at hpos ⊢
        omega
      · exact later h
    · exact later h

end Piece

/-- Of edits that are in order and apart, the one that starts first stands first. -/
theorem exists_cons_of_mem_iff {e : Edit} {es later : List Edit} (hbefore : es.Pairwise Edit.Before)
    (hmem : ∀ a, a ∈ es ↔ a ∈ e :: later) (hfirst : ∀ a ∈ later, e.start ≤ a.start ∧ a ≠ e) :
    ∃ rest, es = e :: rest ∧ rest.Pairwise Edit.Before ∧ ∀ a, a ∈ rest ↔ a ∈ later := by
  have he : e ∈ es := (hmem e).mpr List.mem_cons_self
  cases es with
  | nil => exact absurd he (by simp)
  | cons b rest =>
    obtain ⟨hb, hrest⟩ := List.pairwise_cons.mp hbefore
    have hbe : b = e := by
      rcases List.mem_cons.mp he with h | h
      · exact h.symm
      · rcases List.mem_cons.mp ((hmem b).mp List.mem_cons_self) with h' | h'
        · exact h'
        · have := (hb e h).2
          have := (hfirst b h').1
          omega
    subst hbe
    refine ⟨rest, rfl, hrest, fun a => ⟨fun ha => ?_, fun ha => ?_⟩⟩
    · refine (List.mem_cons.mp ((hmem a).mp (List.mem_cons_of_mem _ ha))).resolve_left ?_
      rintro rfl
      exact absurd (hb _ ha).2 (Int.lt_irrefl _)
    · exact (List.mem_cons.mp ((hmem a).mpr (List.mem_cons_of_mem _ ha))).resolve_left (hfirst a ha).2

namespace Piece

variable {ρ : Renaming} {scopesAt : Nat → Bool}

/-- A batch in order and apart that holds just these edits is this list. -/
theorem eq_editsFrom {o : Nat} {ps : List Piece} {es : List Edit} (hne : ∀ p ∈ ps, p.text ≠ [])
    (hbefore : es.Pairwise Edit.Before) (hmem : ∀ e, e ∈ es ↔ e ∈ editsFrom ρ scopesAt o ps) :
    es = editsFrom ρ scopesAt o ps := by
  induction ps generalizing o es with
  | nil => exact List.eq_nil_iff_forall_not_mem.mpr fun e he => absurd ((hmem e).mp he) (by simp [editsFrom])
  | cons p ps ih =>
    rw [List.forall_mem_cons] at hne
    rcases edits_cases ρ scopesAt o p ps with ⟨name, new, rfl, -, hes, -⟩ | ⟨t, rfl, -, hes, -⟩ |
      ⟨-, -, hes, -⟩ <;> rw [hes] at hmem ⊢
    all_goals try exact ih hne.2 hbefore hmem
    all_goals
      obtain ⟨rest, rfl, hrest, hmemRest⟩ := exists_cons_of_mem_iff hbefore hmem fun a ha => by
        have hstart := (start_of_mem_editsFrom ha).1
        have hstop := lt_stop_of_mem_editsFrom hne.2 ha
        refine ⟨by dsimp only; omega, ?_⟩
        rintro rfl
        exact absurd hstop (Int.lt_irrefl _)
      rw [ih hne.2 hrest hmemRest]

end Piece

end HouseStyle
