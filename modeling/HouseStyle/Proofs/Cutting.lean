import HouseStyle.Token.Piece

/-!
# How a text is cut into pieces

`Piece.ofText` cuts a text from the front. This file says what the cut is, piece by piece, in a form
that a proof about one piece can use without unfolding the recursion:

> `Piece.Leads b p rest`: the text of `p` followed by `rest` starts with the piece `p`, given that
> `b` tells whether there has been no token on the line yet.

- `join_ofText`: the pieces in order are the text, nothing lost and nothing twice.
- `ofText_eq_cons_iff`: a text is cut into `p` and then `ps` exactly when it is their text, `p` leads
  it, and what follows is cut into `ps`.

The second half carries this over to tokens, which are the lexemes with their places: `mem_place`
finds the piece of a token, and `place_ordered` says that tokens stand one after another.
-/

namespace HouseStyle

/-! ## No token is longer than the text -/

namespace Lexeme

theorem lengthThrough_le {mark t : Text} {n : Nat} (h : lengthThrough? mark t = some n) :
    n ≤ t.length := by
  induction t generalizing n with
  | nil =>
    unfold lengthThrough? at h
    split at h
    next => simp only [Option.some.injEq] at h; omega
    next => exact absurd h (by simp)
  | cons g t ih =>
    unfold lengthThrough? at h
    split at h
    next hp =>
      have := (List.isPrefixOf_iff_prefix.mp hp).length_le
      simp only [Option.some.injEq] at h
      omega
    next =>
      obtain ⟨m, hm, rfl⟩ := Option.map_eq_some_iff.mp h
      have := ih hm
      simp only [List.length_cons]
      omega

theorem numberTail_le (last : Glyph) (t : Text) : numberTail last t ≤ t.length := by
  induction t generalizing last with
  | nil => simp [numberTail]
  | cons g t ih =>
    have := ih g
    unfold numberTail
    simp only [List.length_cons]
    split
    · omega
    · split
      · omega
      · split <;> omega

theorem quotedTail_le (quote : Glyph) (t : Text) : quotedTail quote t ≤ t.length := by
  fun_induction quotedTail quote t with
  | case1 => simp
  | case2 => simp
  | case3 => simp
  | case4 _ _ ih => simp only [List.length_cons]; omega
  | case5 => simp
  | case6 => simp
  | case7 _ _ _ _ _ _ ih => simp only [List.length_cons] at ih ⊢; omega

/-- The delimiter, its bracket and the body are the text. -/
theorem append_of_rawDelimiter {room : Nat} {t delimiter body : Text}
    (h : rawDelimiter? room t = some (delimiter, body)) :
    t = delimiter ++ .scalar '(' :: body := by
  induction room generalizing t delimiter body with
  | zero => simp [rawDelimiter?] at h
  | succ room ih =>
    cases t with
    | nil => simp [rawDelimiter?] at h
    | cons g t =>
      unfold rawDelimiter? at h
      split at h
      next hg =>
        simp only [Option.some.injEq, Prod.mk.injEq] at h
        rw [← h.1, ← h.2, hg]
        rfl
      next =>
        split at h
        next => exact absurd h (by simp)
        next =>
          obtain ⟨⟨d, b⟩, hd, heq⟩ := Option.map_eq_some_iff.mp h
          simp only [Prod.mk.injEq] at heq
          rw [← heq.1, ← heq.2, ih hd]
          rfl

theorem rawStringTail_le (t : Text) : rawStringTail t ≤ t.length := by
  unfold rawStringTail
  split
  next => exact quotedTail_le _ _
  next delimiter body hd =>
    have ht := append_of_rawDelimiter hd
    split
    next n hn =>
      have := lengthThrough_le hn
      rw [ht]
      simp only [List.length_append, List.length_cons]
      omega
    next => exact Nat.le_refl _

theorem lineCommentTail_le (t : Text) : lineCommentTail t ≤ t.length := by
  unfold lineCommentTail
  have h₁ := (List.dropWhile_sublist (· == Glyph.scalar '\r')
    (l := (t.takeWhile (· != .scalar '\n')).reverse)).length_le
  have h₂ := (List.takeWhile_sublist (· != Glyph.scalar '\n') (l := t)).length_le
  simp only [List.length_reverse] at h₁
  omega

theorem blockCommentTail_le (t : Text) : blockCommentTail t ≤ t.length := by
  unfold blockCommentTail
  cases h : lengthThrough? (Text.ofString "*/") t with
  | none => simp
  | some n => simpa using lengthThrough_le h

theorem directiveTail_le (t : Text) : directiveTail t ≤ t.length := by
  unfold directiveTail
  have h := (List.dropWhile_sublist (fun g => g == Glyph.scalar ' ' || g == .scalar '\t' || g == .scalar '\r')
    (l := (t.take (directiveExtent [] t)).reverse)).length_le
  simp only [List.length_reverse, List.length_take] at h
  omega

theorem length_word_le (t : Text) : (word t).2 ≤ t.length := by
  have hsplit : (t.takeWhile continuesWord).length + (t.dropWhile continuesWord).length = t.length := by
    rw [← List.length_append, List.takeWhile_append_dropWhile]
  unfold word
  dsimp only
  split
  next => omega
  next g inner hrest =>
    rw [hrest, List.length_cons] at hsplit
    split
    next =>
      have := rawStringTail_le inner
      omega
    next =>
      split
      next =>
        have := quotedTail_le g inner
        omega
      next => dsimp only; omega

theorem length_symbol_le (g : Glyph) (t : Text) : (symbol (g :: t)).2 ≤ (g :: t).length := by
  unfold symbol
  split
  next p hp =>
    have := List.find?_some hp
    exact (List.isPrefixOf_iff_prefix.mp this).length_le
  next => simp

/-- No token is longer than the text it starts. -/
theorem length_leading_le (lineStart : Bool) (g : Glyph) (t : Text) :
    (leading lineStart (g :: t)).2 ≤ (g :: t).length := by
  unfold leading
  simp only [List.length_cons]
  split
  next => have := directiveTail_le t; dsimp only; omega
  next =>
    split
    next inner _ =>
      have := lineCommentTail_le inner
      simp only [List.length_cons]
      omega
    next inner _ =>
      have := blockCommentTail_le inner
      simp only [List.length_cons]
      omega
    next =>
      split
      next => have := numberTail_le g t; dsimp only; omega
      next =>
        split
        next => exact length_word_le (g :: t)
        next =>
          split
          next => have := quotedTail_le g t; dsimp only; omega
          next => exact length_symbol_le g t

end Lexeme

/-! ## Pieces -/

namespace Piece

/-- Pieces put together again. -/
def join (ps : List Piece) : Text := ps.flatMap text

@[simp] theorem join_nil : join [] = [] := rfl

@[simp] theorem join_cons (p : Piece) (ps : List Piece) : join (p :: ps) = p.text ++ join ps := rfl

@[simp] theorem join_append (ps qs : List Piece) : join (ps ++ qs) = join ps ++ join qs := by
  simp [join]

/-- Whether there has been no token on the line, after a piece. -/
def lineStartPast (lineStart : Bool) : Piece → Bool
  | .gap t => if t = [.scalar '\n'] then true else lineStart
  | .lexeme kind t => lineStartAfter lineStart kind t

/-- A text that is the text of a piece and then `rest` starts with that piece. -/
def Leads (lineStart : Bool) : Piece → Text → Prop
  | .gap t, rest =>
    t = [.scalar '\n'] ∨ (∃ g, t = [g] ∧ g ≠ .scalar '\n' ∧ g.isSpacing = true) ∨
      (0 < t.length ∧ t.length = Lexeme.spliceLength (t ++ rest))
  | .lexeme kind t, rest =>
    ∃ g more, t = g :: more ∧ g ≠ .scalar '\n' ∧ g.isSpacing = false ∧
      Lexeme.spliceLength (t ++ rest) = 0 ∧ Lexeme.leading lineStart (t ++ rest) = (kind, t.length)

/-- A splice starts with a backslash. -/
theorem head_of_spliceLength_pos {g : Glyph} {t : Text} (h : 0 < Lexeme.spliceLength (g :: t)) :
    g = .scalar '\\' := by
  unfold Lexeme.spliceLength at h
  split at h
  next heq => exact (List.cons.inj heq).1
  next heq => exact (List.cons.inj heq).1
  next => exact absurd h (Nat.lt_irrefl 0)

/-- A splice lies inside the text. -/
theorem spliceLength_le (t : Text) : Lexeme.spliceLength t ≤ t.length := by
  unfold Lexeme.spliceLength
  split <;> simp

theorem ofText_newline (lineStart : Bool) (rest : Text) :
    ofText lineStart (.scalar '\n' :: rest) = .gap [.scalar '\n'] :: ofText true rest := by
  rw [ofText, if_pos rfl]

theorem ofText_spacing {lineStart : Bool} {g : Glyph} {rest : Text} (hn : g ≠ .scalar '\n')
    (hg : g.isSpacing = true) :
    ofText lineStart (g :: rest) = .gap [g] :: ofText lineStart rest := by
  rw [ofText, if_neg hn, if_pos hg]

/-- The cut of a text whose first piece is known. -/
theorem ofText_of_leads {lineStart : Bool} {p : Piece} {rest : Text} (h : Leads lineStart p rest) :
    ofText lineStart (p.text ++ rest) = p :: ofText (lineStartPast lineStart p) rest := by
  cases p with
  | gap t =>
    rcases h with rfl | ⟨g, rfl, hn, hg⟩ | ⟨hpos, hlen⟩
    · exact ofText_newline lineStart rest
    · have : [g] ≠ [Glyph.scalar '\n'] := fun e => hn (List.cons.inj e).1
      simp only [lineStartPast, if_neg this]
      exact ofText_spacing hn hg
    · cases t with
      | nil => exact absurd hpos (by simp)
      | cons g more =>
        rw [hlen] at hpos
        have hback := head_of_spliceLength_pos hpos
        subst hback
        have hne : Glyph.scalar '\\' :: more ≠ [Glyph.scalar '\n'] := by simp
        simp only [lineStartPast, if_neg hne, text, List.cons_append] at hlen hpos ⊢
        rw [ofText, if_neg (by decide), if_neg (by decide), if_pos hpos]
        dsimp only
        rw [← hlen, ← List.cons_append, List.take_left, List.drop_left]
  | lexeme kind t =>
    obtain ⟨g, more, rfl, hn, hg, hs, hl⟩ := h
    simp only [text, List.cons_append] at hs hl ⊢
    rw [ofText, if_neg hn, if_neg (by simp [hg]), if_neg (by omega)]
    dsimp only
    rw [hl]
    dsimp only
    rw [← List.cons_append, List.take_left, List.drop_left]
    rfl

/-- A text that is not empty starts with a piece. -/
theorem exists_leads (lineStart : Bool) (g : Glyph) (t : Text) :
    ∃ p rest, g :: t = p.text ++ rest ∧ Leads lineStart p rest := by
  by_cases hn : g = .scalar '\n'
  · exact ⟨.gap [g], t, rfl, Or.inl (by rw [hn])⟩
  by_cases hg : g.isSpacing = true
  · exact ⟨.gap [g], t, rfl, Or.inr (Or.inl ⟨g, rfl, hn, hg⟩)⟩
  by_cases hs : 0 < Lexeme.spliceLength (g :: t)
  · refine ⟨.gap ((g :: t).take (Lexeme.spliceLength (g :: t))),
      (g :: t).drop (Lexeme.spliceLength (g :: t)), (List.take_append_drop _ _).symm, ?_⟩
    refine Or.inr (Or.inr ?_)
    rw [List.take_append_drop, List.length_take, Nat.min_eq_left (spliceLength_le _)]
    exact ⟨hs, rfl⟩
  · have hpos := Lexeme.length_leading_pos lineStart (g :: t)
    have hle := Lexeme.length_leading_le lineStart g t
    refine ⟨.lexeme (Lexeme.leading lineStart (g :: t)).1 ((g :: t).take (Lexeme.leading lineStart (g :: t)).2),
      (g :: t).drop (Lexeme.leading lineStart (g :: t)).2, (List.take_append_drop _ _).symm, ?_⟩
    refine ⟨g, t.take ((Lexeme.leading lineStart (g :: t)).2 - 1), ?_, hn, by simpa using hg, ?_, ?_⟩
    · obtain ⟨n, hn⟩ : ∃ n, (Lexeme.leading lineStart (g :: t)).2 = n + 1 :=
        ⟨_, (Nat.sub_add_cancel hpos).symm⟩
      rw [hn, List.take_succ_cons, Nat.add_sub_cancel]
    · rw [List.take_append_drop]
      omega
    · rw [List.take_append_drop, List.length_take, Nat.min_eq_left hle]

/-- A piece is not empty. -/
theorem text_ne_nil {lineStart : Bool} {p : Piece} {rest : Text} (h : Leads lineStart p rest) :
    p.text ≠ [] := by
  cases p with
  | gap t =>
    rcases h with rfl | ⟨g, rfl, -⟩ | ⟨hpos, -⟩
    · simp [text]
    · simp [text]
    · exact List.length_pos_iff.mp hpos
  | lexeme kind t =>
    obtain ⟨g, more, rfl, -⟩ := h
    simp [text]

/-- The pieces in order are the text. -/
@[simp] theorem join_ofText (lineStart : Bool) (t : Text) : join (ofText lineStart t) = t := by
  induction hn : t.length using Nat.strongRecOn generalizing lineStart t with
  | _ n ih =>
    cases t with
    | nil => rw [ofText]; rfl
    | cons g t =>
      obtain ⟨p, rest, hsplit, hp⟩ := exists_leads lineStart g t
      have hlen := congrArg List.length hsplit
      have hpos := List.length_pos_iff.mpr (text_ne_nil hp)
      rw [List.length_append] at hlen
      rw [hsplit, ofText_of_leads hp, join_cons, ih rest.length (by omega) _ _ rfl]

/-- Which texts are cut into a given piece and then some others. -/
theorem ofText_eq_cons_iff {lineStart : Bool} {t : Text} {p : Piece} {ps : List Piece} :
    ofText lineStart t = p :: ps ↔
      t = p.text ++ join ps ∧ Leads lineStart p (join ps) ∧
        ofText (lineStartPast lineStart p) (join ps) = ps := by
  constructor
  · intro h
    cases t with
    | nil => rw [ofText] at h; exact absurd h (by simp)
    | cons g t =>
      obtain ⟨q, rest, hsplit, hq⟩ := exists_leads lineStart g t
      rw [hsplit, ofText_of_leads hq] at h
      obtain ⟨rfl, hps⟩ := List.cons.inj h
      have hjoin : join ps = rest := by rw [← hps, join_ofText]
      rw [hjoin]
      exact ⟨hsplit, hq, hps⟩
  · rintro ⟨rfl, hp, hps⟩
    rw [ofText_of_leads hp, hps]

/-- The pieces behind some first ones are the cut of what follows these. -/
theorem ofText_eq_append {lineStart : Bool} {t : Text} {front ps : List Piece}
    (h : ofText lineStart t = front ++ ps) :
    ofText (front.foldl lineStartPast lineStart) (join ps) = ps := by
  induction front generalizing lineStart t with
  | nil => rw [← List.nil_append ps, ← h, join_ofText, List.foldl_nil]
  | cons p front ih =>
    obtain ⟨-, -, hrest⟩ := ofText_eq_cons_iff.mp h
    exact ih hrest

/-! ## Tokens -/

theorem offset_past (p : Place) (t : Text) : (p.past t).offset = p.offset + t.length := by
  unfold Place.past
  induction t generalizing p with
  | nil => rfl
  | cons g t ih =>
    have : (p.next g).offset = p.offset + 1 := by unfold Place.next; split <;> rfl
    rw [List.foldl_cons, ih, this, List.length_cons]
    omega

theorem offset_past_start (t : Text) : (Place.start.past t).offset = t.length :=
  (offset_past _ t).trans (Nat.zero_add _)

/-- The token of a lexeme at a place. -/
def tokenAt (p : Place) (kind : TokenKind) (t : Text) : Token :=
  { kind, text := t, start := p.offset, stop := (p.past t).offset, line := p.line, column := p.column
    endLine := (p.past t).line, endColumn := (p.past t).column }

theorem place_lexeme (p : Place) (kind : TokenKind) (t : Text) (ps : List Piece) :
    place p (.lexeme kind t :: ps) = tokenAt p kind t :: place (p.past t) ps := rfl

/-- Every token is a lexeme, and the text before it gives its place. -/
theorem mem_place {p : Place} {ps : List Piece} {t : Token} (h : t ∈ place p ps) :
    ∃ front back, ps = front ++ .lexeme t.kind t.text :: back ∧
      t.start = p.offset + (join front).length ∧ t.stop = t.start + t.text.length := by
  induction ps generalizing p with
  | nil => exact absurd h (by simp [place])
  | cons q ps ih =>
    cases q with
    | gap s =>
      obtain ⟨front, back, rfl, hstart, hstop⟩ := ih (by simpa [place] using h)
      refine ⟨.gap s :: front, back, rfl, ?_, hstop⟩
      rw [hstart, offset_past, join_cons, List.length_append, Nat.add_assoc]
      rfl
    | lexeme kind s =>
      rcases List.mem_cons.mp h with rfl | hmem
      · exact ⟨[], ps, rfl, rfl, offset_past p s⟩
      · obtain ⟨front, back, rfl, hstart, hstop⟩ := ih hmem
        refine ⟨.lexeme kind s :: front, back, rfl, ?_, hstop⟩
        rw [hstart, offset_past, join_cons, List.length_append, Nat.add_assoc]
        rfl

/-- No token starts before the first piece. -/
theorem offset_le_start {p : Place} {ps : List Piece} {t : Token} (h : t ∈ place p ps) :
    p.offset ≤ t.start := by
  obtain ⟨_, _, -, hstart, -⟩ := mem_place h
  omega

/-- No token ends behind the last piece. -/
theorem stop_le_offset {p : Place} {ps : List Piece} {t : Token} (h : t ∈ place p ps) :
    t.stop ≤ p.offset + (join ps).length := by
  obtain ⟨front, back, rfl, hstart, hstop⟩ := mem_place h
  simp only [join_append, join_cons, List.length_append, text]
  omega

/-- Tokens stand one after another. -/
theorem place_ordered (p : Place) (ps : List Piece) :
    (place p ps).Pairwise fun a b => a.stop ≤ b.start := by
  induction ps generalizing p with
  | nil => exact List.Pairwise.nil
  | cons q ps ih =>
    cases q with
    | gap s => exact ih _
    | lexeme kind s => exact List.Pairwise.cons (fun b hb => offset_le_start hb) (ih _)

theorem place_append (p : Place) (ps qs : List Piece) :
    place p (ps ++ qs) = place p ps ++ place (p.past (join ps)) qs := by
  induction ps generalizing p with
  | nil => rfl
  | cons q ps ih =>
    have hpast : (p.past q.text).past (join ps) = p.past (join (q :: ps)) := by
      rw [join_cons, Place.past, Place.past, Place.past, List.foldl_append]
    cases q with
    | gap s =>
      show place (p.past s) (ps ++ qs) = place (p.past s) ps ++ _
      rw [ih, ← hpast]
      rfl
    | lexeme kind s =>
      rw [List.cons_append, place, place, List.cons_append, ih, ← hpast]
      rfl

/-- The kinds and texts of the lexemes, without their places. -/
def lexemes (ps : List Piece) : List (TokenKind × Text) :=
  ps.filterMap fun
    | .gap _ => none
    | .lexeme kind t => some (kind, t)

@[simp] theorem lexemes_append (ps qs : List Piece) :
    lexemes (ps ++ qs) = lexemes ps ++ lexemes qs := List.filterMap_append

theorem map_place (p : Place) (ps : List Piece) :
    (place p ps).map (fun t => (t.kind, t.text)) = lexemes ps := by
  induction ps generalizing p with
  | nil => rfl
  | cons q ps ih =>
    cases q with
    | gap s => exact ih _
    | lexeme kind s =>
      rw [place, List.map_cons, ih]
      rfl

end Piece

/-! ## The tokens of a source text -/

/-- A token is a piece of its text. -/
theorem exists_piece_of_mem_tokens {source : Text} {t : Token} (h : t ∈ tokens source) :
    ∃ front back, Piece.ofText true source = front ++ .lexeme t.kind t.text :: back ∧
      t.start = (Piece.join front).length ∧ t.stop = t.start + t.text.length := by
  obtain ⟨front, back, hps, hstart, hstop⟩ := Piece.mem_place h
  exact ⟨front, back, hps, by rw [hstart]; exact Nat.zero_add _, hstop⟩

/-- Every lexeme is a token. -/
theorem mem_tokens_of_piece {source : Text} {front back : List Piece} {kind : TokenKind} {s : Text}
    (h : Piece.ofText true source = front ++ .lexeme kind s :: back) :
    ∃ t ∈ tokens source, t.kind = kind ∧ t.text = s ∧ t.start = (Piece.join front).length ∧
      t.stop = t.start + s.length := by
  have hplace := Piece.place_append .start front (.lexeme kind s :: back)
  rw [← h, Piece.place] at hplace
  unfold tokens
  rw [hplace]
  exact ⟨_, List.mem_append_right _ List.mem_cons_self, rfl, rfl, Piece.offset_past_start _, Piece.offset_past _ _⟩

/-- The tokens of a text stand one after another. -/
theorem tokens_ordered (source : Text) : (tokens source).Pairwise fun a b => a.stop ≤ b.start :=
  Piece.place_ordered _ _

/-- A token leads the text it stands in front of. -/
theorem exists_leads_of_mem_tokens {source : Text} {t : Token} (h : t ∈ tokens source) :
    ∃ lineStart before rest, source = before ++ t.text ++ rest ∧ t.start = before.length ∧
      t.stop = t.start + t.text.length ∧ Piece.Leads lineStart (.lexeme t.kind t.text) rest := by
  obtain ⟨front, back, hps, hstart, hstop⟩ := exists_piece_of_mem_tokens h
  obtain ⟨-, hlead, -⟩ := Piece.ofText_eq_cons_iff.mp (Piece.ofText_eq_append hps)
  refine ⟨_, Piece.join front, Piece.join back, ?_, hstart, hstop, hlead⟩
  rw [← Piece.join_ofText true source, hps, Piece.join_append, Piece.join_cons, List.append_assoc]
  rfl

/-- A token covers at least one glyph. -/
theorem start_lt_stop {source : Text} {t : Token} (h : t ∈ tokens source) : t.start < t.stop := by
  obtain ⟨_, _, _, -, -, hstop, hlead⟩ := exists_leads_of_mem_tokens h
  have := List.length_pos_iff.mpr (Piece.text_ne_nil hlead)
  simp only [Piece.text] at this
  omega

/-- A token ends within the text. -/
theorem stop_le_length {source : Text} {t : Token} (h : t ∈ tokens source) :
    t.stop ≤ source.length := by
  obtain ⟨_, before, rest, hsource, hstart, hstop, -⟩ := exists_leads_of_mem_tokens h
  rw [hsource, List.length_append, List.length_append]
  omega

/-- A token is the slice of the text between its two ends. -/
theorem slice_eq_text {source : Text} {t : Token} (h : t ∈ tokens source) :
    (source.drop t.start).take (t.stop - t.start) = t.text := by
  obtain ⟨_, before, rest, hsource, hstart, hstop, -⟩ := exists_leads_of_mem_tokens h
  rw [hsource, hstart, List.append_assoc, List.drop_left, hstop, hstart, Nat.add_sub_cancel_left,
    List.take_left]

/-- Of two tokens of a text one is over before the other starts. -/
theorem tokens_apart {source : Text} {t u : Token} (ht : t ∈ tokens source) (hu : u ∈ tokens source) :
    t = u ∨ t.stop ≤ u.start ∨ u.stop ≤ t.start := by
  have hordered := tokens_ordered source
  generalize tokens source = ts at ht hu hordered
  induction ts with
  | nil => exact absurd ht (by simp)
  | cons s ts ih =>
    obtain ⟨hfirst, hrest⟩ := List.pairwise_cons.mp hordered
    rcases List.mem_cons.mp ht with rfl | ht' <;> rcases List.mem_cons.mp hu with rfl | hu'
    · exact Or.inl rfl
    · exact Or.inr (Or.inl (hfirst u hu'))
    · exact Or.inr (Or.inr (hfirst t ht'))
    · exact ih ht' hu' hrest

end HouseStyle
