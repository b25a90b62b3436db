import HouseStyle.Proofs.PlacedReports
import HouseStyle.Proofs.TokenEnds

/-!
# Casts written out

The cast rule writes a cast of one operand anew: `(T)x` becomes `static_cast<T>(x)`, with the type in its
normalised text. The tokens of the new text are those of the old one, with the cast in place of the brackets and
the operand, if nothing runs into what stands next to it. What can run into its neighbour is told here.

- `CastSite`: a type in brackets and its operand among the tokens of a text; each edit of the rule writes one
  (`CastRule.exists_castSite`).
- `CastSite.isExactFor_iff`: the tokens come out right exactly when the site is clear (`CastSite.IsClear`). A
  keyword right in front of the bracket runs into the word of the cast, two signs of the type run into each
  other, and an unclosed literal runs on into the bracket behind it.
- `CastRule.edit_exact_iff`: the same of the edits of the rule, among all tokens and in the code alone.

The front of the text stays as it was because what is written starts with a word and what stood there with a
bracket (`Piece.ofText_append_term`): the tokens in front end at either, but for words. Only a keyword can be
the word there, for a cast stands behind no name and no literal. The text behind is cut as it was since the
operand starts no line. In between, the marks of the cast are read one by one, and the type and the operand by
the lemmas on where a token ends.
-/

namespace HouseStyle

namespace Piece

/-- Tokens are split where the pieces are. -/
theorem exists_of_place_eq_append {p : Place} {ps : List Piece} {before after : List Token} {t : Token}
    (h : place p ps = before ++ t :: after) :
    ∃ front back, ps = front ++ .lexeme t.kind t.text :: back ∧ place p front = before ∧
      place (p.past (join front ++ t.text)) back = after ∧ t = tokenAt (p.past (join front)) t.kind t.text := by
  induction ps generalizing p before with
  | nil => exact absurd h (by simp [place])
  | cons q ps ih =>
    have hlater : ∀ {before}, place (p.past q.text) ps = before ++ t :: after →
        ∃ front back, q :: ps = q :: front ++ .lexeme t.kind t.text :: back ∧ place (p.past q.text) front = before ∧
          place (p.past (join (q :: front) ++ t.text)) back = after ∧
          t = tokenAt (p.past (join (q :: front))) t.kind t.text := by
      intro before h
      obtain ⟨front, back, hps, hfront, hback, ht⟩ := ih h
      refine ⟨front, back, by rw [hps]; rfl, hfront, ?_, ?_⟩
      · rw [join_cons, List.append_assoc, Place.past_append]
        exact hback
      · rw [join_cons, Place.past_append]
        exact ht
    cases q with
    | gap s =>
      obtain ⟨front, back, hps, hfront, hrest⟩ := hlater h
      exact ⟨.gap s :: front, back, hps, hfront, hrest⟩
    | lexeme kind s =>
      cases before with
      | nil =>
        obtain ⟨rfl, hback⟩ := List.cons.inj h
        exact ⟨[], ps, rfl, rfl, hback, rfl⟩
      | cons u before =>
        obtain ⟨rfl, hrest⟩ := List.cons.inj h
        obtain ⟨front, back, hps, hfront, hrest⟩ := hlater hrest
        refine ⟨.lexeme kind s :: front, back, hps, ?_, hrest⟩
        exact congrArg (tokenAt p kind s :: ·) hfront

theorem lexemesOf_punct {keep : TokenKind → Bool} (hkeep : KeepsCode keep) {p : Punct} {rest : Text}
    (h : Leads false (.lexeme (.punct p) p.text) rest) :
    lexemesOf keep (ofText false (p.text ++ rest)) = (.punct p, p.text) :: lexemesOf keep (ofText false rest) := by
  have hcut := ofText_of_leads h
  change ofText false (p.text ++ rest) = _ at hcut
  rw [hcut, lexemesOf_cons (hkeep _ (by simp) (by simp))]
  rfl

/-- Round brackets and `>` are no beginnings of other punctuators. -/
theorem leads_bracket {p : Punct} (hp : p ∈ [Punct.greater, .lparen, .rparen]) (rest : Text) :
    Leads false (.lexeme (.punct p) p.text) rest := by
  obtain ⟨g, hg⟩ : ∃ g, p.text = [g] :=
    List.length_eq_one_iff.mp
      (Nat.le_antisymm (Punct.spelled_all.alone p hp p p.mem_all rfl) (Lexeme.text_length_pos p))
  have hlongest : ∀ q : Punct, q.text <+: p.text ++ rest → q.text.length ≤ p.text.length := by
    intro q hq
    obtain ⟨a, more, hmore⟩ := List.exists_cons_of_ne_nil (List.length_pos_iff.mp (Lexeme.text_length_pos q))
    rw [hmore, hg] at hq
    have ha : a = g := (List.cons_prefix_cons.mp hq).1
    rw [hg]
    exact Punct.spelled_all.alone p hp q q.mem_all (by rw [hmore, hg, ha]; rfl)
  refine leads_punct ?_ (Punct.leading_eq_some_iff.mpr ⟨List.prefix_append _ _, hlongest⟩)
  have hothers : ∀ p ∈ [Punct.greater, .lparen, .rparen],
      p ∉ [Punct.slash, .slashEq, .hash, .hashHash, .dot, .dotStar, .ellipsis] := by decide
  exact hothers p hp

/-- A `<` stands alone in front of what starts a type. -/
theorem leads_less {a : Glyph} {rest : Text} (ha : Lexeme.startsWord a = true ∨ a = .scalar ':') :
    Leads false (.lexeme (.punct .less) Punct.less.text) (a :: rest) := by
  refine leads_punct (by decide) (Punct.leading_eq_some_iff.mpr ⟨List.prefix_append _ _, fun q hq => ?_⟩)
  refine Nat.le_of_not_lt fun hlt => ?_
  obtain ⟨b, c, more, hmore⟩ : ∃ b c more, q.text = b :: c :: more := by
    match hq : q.text, hlt with
    | b :: c :: more, _ => exact ⟨b, c, more, rfl⟩
  rw [hmore] at hq
  obtain ⟨rfl, hrest⟩ := List.cons_prefix_cons.mp hq
  obtain ⟨rfl, -⟩ := List.cons_prefix_cons.mp hrest
  have hsecond := Punct.spelled_all.behindLess q q.mem_all (by rw [hmore]; rfl) hlt
  rw [hmore] at hsecond
  have hno : c ≠ .scalar '<' ∧ c ≠ .scalar '=' := by
    constructor <;>
    · rintro rfl
      rcases ha with ha | ha <;> exact absurd ha (by decide)
  rcases hsecond with h | h
  · exact hno.1 (Option.some.inj h)
  · exact hno.2 (Option.some.inj h)

end Piece

/-! ## The places of casts -/

/-- A keyword that a cast may be written with. -/
def Keyword.isCast (w : Keyword) : Bool := w == .staticCastKw || w == .reinterpretCastKw

theorem Piece.lexemesOf_cast {keep : TokenKind → Bool} (hkeep : KeepsCode keep) {w : Keyword}
    (hw : w.isCast = true) (lineStart : Bool) (rest : Text) :
    lexemesOf keep (ofText lineStart (w.text ++ (Punct.less.text ++ rest))) =
      (.keyword w, w.text) :: lexemesOf keep (ofText false (Punct.less.text ++ rest)) := by
  have hlead : Leads lineStart (.lexeme (.keyword w) w.text) (.scalar '<' :: rest) := by
    simp only [Keyword.isCast, Bool.or_eq_true, beq_iff_eq] at hw
    rcases hw with rfl | rfl
    · refine ⟨.scalar 's', Text.ofString "tatic_cast", rfl, by decide, by decide, rfl, ?_⟩
      show Lexeme.leading lineStart (.scalar 's' :: (Text.ofString "tatic_cast" ++ .scalar '<' :: rest)) = _
      rw [Lexeme.leading_startsWord (by decide) (by decide)]
      rfl
    · refine ⟨.scalar 'r', Text.ofString "einterpret_cast", rfl, by decide, by decide, rfl, ?_⟩
      show Lexeme.leading lineStart (.scalar 'r' :: (Text.ofString "einterpret_cast" ++ .scalar '<' :: rest)) = _
      rw [Lexeme.leading_startsWord (by decide) (by decide)]
      rfl
  have hcut := ofText_of_leads hlead
  change ofText lineStart (w.text ++ (Punct.less.text ++ rest)) = _ at hcut
  rw [hcut, lexemesOf_cons (hkeep _ (by simp) (by simp))]
  rfl

/-- A type in brackets and its operand among the tokens of a text, and the word to write the cast with. -/
structure CastSite (text : Text) where
  /-- The tokens before the brackets. -/
  front : List Token
  opener : Token
  /-- The tokens between the opening bracket and the operand, with comments and directives. -/
  between : List Token
  operand : Token
  /-- The tokens behind the operand. -/
  back : List Token
  /-- The tokens of the type. -/
  inside : List Token
  closer : Token
  word : Keyword
  tokens_eq : tokens text = front ++ opener :: (between ++ operand :: back)
  code_between : Token.code between = inside ++ [closer]
  opener_kind : opener.kind = .punct .lparen
  closer_kind : closer.kind = .punct .rparen
  operand_kind : operand.kind = .identifier ∨ operand.kind = .literal
  mayPrecede : ∀ t, (Token.code front).getLast? = some t → CastRule.mayPrecede t = true
  afterType : afterType? inside = some []
  isCast : word.isCast = true

namespace CastSite

variable {text : Text} (c : CastSite text)

/-- The cast as it is written. -/
def written : Text :=
  c.word.text ++ Punct.less.text ++ joinedText c.inside ++ Punct.greater.text ++ Punct.lparen.text ++
    c.operand.text ++ Punct.rparen.text

/-- The edit that writes the cast. -/
def edit : Edit := ⟨c.opener.start, c.operand.stop, c.written⟩

/-- The tokens of the cast as it is to be read. -/
def run : List (TokenKind × Text) :=
  (.keyword c.word, c.word.text) :: (.punct .less, Punct.less.text) :: (c.inside.map Token.reading ++
    [(.punct .greater, Punct.greater.text), (.punct .lparen, Punct.lparen.text), c.operand.reading,
      (.punct .rparen, Punct.rparen.text)])

/-- With the cast written out, the text has the tokens of the cast in place of those from the opening bracket to
the operand, and the other tokens of the kinds that are looked at as they were. -/
def IsExactFor (keep : TokenKind → Bool) : Prop :=
  ((tokens (applyEdit text c.edit)).filter fun t => keep t.kind).map Token.reading =
    (c.front.filter fun t => keep t.kind).map Token.reading ++
      (c.run ++ (c.back.filter fun t => keep t.kind).map Token.reading)

/-- With the cast written out, the text has the tokens of the cast in place of those from the opening bracket to
the operand, and all others as they were. -/
def IsExact : Prop :=
  (tokens (applyEdit text c.edit)).map Token.reading =
    c.front.map Token.reading ++ (c.run ++ c.back.map Token.reading)

/-- The same of the code of the text. -/
def IsExactInCode : Prop :=
  (Token.code (tokens (applyEdit text c.edit))).map Token.reading =
    (Token.code c.front).map Token.reading ++ (c.run ++ (Token.code c.back).map Token.reading)

/-- No keyword stands right in front of the brackets, and the tokens of the type and the operand end before what
is written next to them. -/
structure IsClear : Prop where
  front : ∀ t ∈ c.front, t.stop = c.opener.start → ∀ k, t.kind ≠ .keyword k
  type : Separate Punct.greater.text c.inside
  operand : c.operand.EndsBefore Punct.rparen.text

end CastSite

/-- A type starts with a word or with `::`. -/
theorem first_of_afterType {ts rest : List Token} (h : afterType? ts = some rest) :
    ∃ t more, ts = t :: more ∧ (t.kind = .identifier ∨ (∃ k, t.kind = .keyword k) ∨ t.kind = .punct .scope) := by
  cases ts with
  | nil => exact absurd h (by simp [afterType?, afterTypeWords?])
  | cons t ts =>
    refine ⟨t, ts, rfl, ?_⟩
    -- what is no word of any sort ends the words of a type, and then none has been named
    have hwords : (∀ k, t.kind ≠ .keyword k) → (t.isIdentifier || t.isPunct .scope) = false → False := by
      intro hkeyword hname
      have hno : ∀ k, t.isKeyword k = false := fun k => by simpa [Token.isKeyword] using hkeyword k
      have helaborated : t.isElaborated = false := by
        unfold Token.isElaborated
        split
        · next k hk => exact absurd hk (hkeyword k)
        · rfl
      have htypeName : t.isTypeName = false := by
        unfold Token.isTypeName
        split
        · next k hk => exact absurd hk (hkeyword k)
        · rfl
      rw [afterType?, Rewriting.afterTypeWords_eq false t ts (by simp [Token.isCv, hno, helaborated])
        (by simp [htypeName]), hno, if_neg (by decide), hname] at h
      exact absurd h (by simp)
    by_contra hnot
    simp only [not_or, not_exists] at hnot
    exact hwords hnot.2.1 (by simpa [Token.isIdentifier, Token.isPunct] using ⟨hnot.1, hnot.2.2⟩)

theorem Keyword.startsWord_text (k : Keyword) : Lexeme.StartsWord k.text := by
  cases k <;> exact ⟨_, _, rfl, by decide⟩

theorem Lexeme.StartsWord.append {t : Text} (h : StartsWord t) (u : Text) : StartsWord (t ++ u) := by
  obtain ⟨g, more, rfl, hg⟩ := h
  exact ⟨g, more ++ u, rfl, hg⟩

/-! ## The text with the cast written out -/

/-- An edit of a stretch of text puts its replacement in the place of the stretch. -/
theorem applyEdit_of_append (before stretch after replacement : Text) :
    applyEdit (before ++ stretch ++ after) ⟨before.length, (before ++ stretch).length, replacement⟩ =
      before ++ (replacement ++ after) := by
  rw [applyEdit_of_within (Edit.within_of_le replacement (by simp) (by simp))]
  show List.take before.length _ ++ replacement ++ List.drop (before ++ stretch).length _ = _
  rw [List.drop_left, List.append_assoc before, List.take_left, List.append_assoc]

namespace CastSite

variable {text : Text} (c : CastSite text)

theorem mem_code_inside {t : Token} (h : t ∈ c.inside) : t ∈ Token.code (tokens text) := by
  have hbetween : t ∈ Token.code c.between := by
    rw [c.code_between]
    exact List.mem_append_left _ h
  obtain ⟨hmem, hcode⟩ := List.mem_filter.mp hbetween
  refine List.mem_filter.mpr ⟨?_, hcode⟩
  rw [c.tokens_eq]
  simp [hmem]

theorem mem_code_operand : c.operand ∈ Token.code (tokens text) := by
  refine List.mem_filter.mpr ⟨by rw [c.tokens_eq]; simp, ?_⟩
  rcases c.operand_kind with h | h <;> simp [Token.isCode, Token.isComment, Token.isDirective, h]

variable {keep : TokenKind → Bool}

/-- The written cast is cut into its tokens exactly when those of the type and the operand end before what is
written next to them. -/
theorem lexemesOf_written_iff (hkeep : KeepsCode keep) (hcomment : keep .comment = true ∨ NoSlashStar c.inside)
    (lineStart : Bool) {rest : Text} {L : List (TokenKind × Text)} :
    Piece.lexemesOf keep (Piece.ofText lineStart (c.written ++ rest)) = c.run ++ L ↔
      Separate Punct.greater.text c.inside ∧ c.operand.EndsBefore Punct.rparen.text ∧
        Piece.lexemesOf keep (Piece.ofText false rest) = L := by
  have hmark : ∀ (t : Token) (p : Punct), p = .greater ∨ p = .rparen → t.ShownBy p.text := by
    rintro t p (rfl | rfl) <;> exact t.shownBy_cons _ (by decide) (by decide) (by decide) (by decide)
  obtain ⟨first, more, hinside, hfirst⟩ := first_of_afterType c.afterType
  -- behind `<` stands the first token of the type, which is a word or `::` and does not go on with it
  have hless : ∀ behind, Piece.Leads false (.lexeme (.punct .less) Punct.less.text)
      (joinedText c.inside ++ behind) := by
    intro behind
    have hmem := (List.mem_filter.mp (c.mem_code_inside (by rw [hinside]; exact List.mem_cons_self))).1
    obtain ⟨after, hafter⟩ := joinedText_cons first more
    rw [hinside, hafter, List.append_assoc]
    obtain ⟨a, inner, htext, ha⟩ : ∃ a inner, first.text = a :: inner ∧
        (Lexeme.startsWord a = true ∨ a = .scalar ':') := by
      rcases hfirst with h | h | h
      · obtain ⟨-, ⟨a, inner, htext, ha⟩, -⟩ := word_of_mem_tokens hmem (Or.inl h)
        exact ⟨a, inner, htext, Or.inl ha⟩
      · obtain ⟨-, ⟨a, inner, htext, ha⟩, -⟩ := word_of_mem_tokens hmem (Or.inr h)
        exact ⟨a, inner, htext, Or.inl ha⟩
      · exact ⟨_, _, text_eq_of_punct hmem h, Or.inr rfl⟩
    rw [htext, List.cons_append]
    exact Piece.leads_less ha
  -- the marks and the parts of the written cast, one behind the other
  have hwritten : c.written ++ rest = c.word.text ++ (Punct.less.text ++ (joinedText c.inside ++
      (Punct.greater.text ++ (Punct.lparen.text ++ (c.operand.text ++ (Punct.rparen.text ++ rest)))))) := by
    simp only [written, List.append_assoc]
  have hrun : c.run ++ L = (.keyword c.word, c.word.text) :: (.punct .less, Punct.less.text) ::
      (c.inside.map Token.reading ++ (.punct .greater, Punct.greater.text) ::
        (.punct .lparen, Punct.lparen.text) :: c.operand.reading :: (.punct .rparen, Punct.rparen.text) :: L) := by
    simp [run]
  rw [hwritten, hrun, Piece.lexemesOf_cast hkeep c.isCast, List.cons_inj_right,
    Piece.lexemesOf_punct hkeep (hless _), List.cons_inj_right,
    lexemesOf_joinedText_iff hkeep (fun _ => c.mem_code_inside) hcomment (fun t => hmark t _ (Or.inl rfl))
      (by decide),
    Piece.lexemesOf_punct hkeep (Piece.leads_bracket (by simp) _), List.cons_inj_right,
    Piece.lexemesOf_punct hkeep (Piece.leads_bracket (by simp) _), List.cons_inj_right,
    lexemesOf_token_iff hkeep c.mem_code_operand (hmark _ _ (Or.inr rfl))
      (Or.inr (kind_ne_comment_of_head c.mem_code_operand (hmark _ _ (Or.inr rfl)) (by decide))),
    Piece.lexemesOf_punct hkeep (Piece.leads_bracket (by simp) _), List.cons_inj_right]

/-- The pieces of the text around the cast, and what the edit makes of it. -/
theorem exists_pieces : ∃ front behind back, Piece.place .start front = c.front ∧
    Piece.ofText true text = front ++ .lexeme (.punct .lparen) Punct.lparen.text :: behind ∧
    c.opener.start = (Piece.join front).length ∧
    (∀ keep, (c.back.filter fun t => keep t.kind).map Token.reading = Piece.lexemesOf keep back) ∧
    Piece.ofText false (Piece.join back) = back ∧
    applyEdit text c.edit = Piece.join front ++ (c.written ++ Piece.join back) := by
  have hopener : c.opener ∈ tokens text := by
    rw [c.tokens_eq]
    simp
  obtain ⟨front, behind, hpieces, hfront, hbehind, hopen⟩ := Piece.exists_of_place_eq_append c.tokens_eq
  obtain ⟨middle, back, hmiddle, -, hback, hoperand⟩ := Piece.exists_of_place_eq_append hbehind
  -- the first bracket is a piece of its own, and what is behind the operand is cut from there
  rw [c.opener_kind, text_eq_of_punct hopener c.opener_kind] at hpieces
  have hstart : c.opener.start = (Piece.join front).length := by
    rw [hopen]
    exact Piece.offset_past_start _
  have hrest : Piece.ofText false (Piece.join back) = back := by
    have hcut : Piece.ofText true text = (front ++ .lexeme (.punct .lparen) Punct.lparen.text :: middle) ++
        .lexeme c.operand.kind c.operand.text :: back := by
      rw [hpieces, hmiddle, List.append_assoc]
      rfl
    obtain ⟨-, -, hrest⟩ := Piece.ofText_eq_cons_iff.mp (Piece.ofText_eq_append hcut)
    rcases c.operand_kind with h | h <;> rwa [h] at hrest
  refine ⟨front, behind, back, hfront, hpieces, hstart, ?_, hrest, ?_⟩
  · intro keep
    rw [← hback]
    exact Piece.map_reading_filter keep _ _
  · -- the text as what stands in front of the cast, the cast and the rest
    obtain ⟨cast, hcast⟩ : ∃ cast, cast = Punct.lparen.text ++ (Piece.join middle ++ c.operand.text) := ⟨_, rfl⟩
    have htext : text = Piece.join front ++ cast ++ Piece.join back := by
      conv_lhs => rw [← Piece.join_ofText true text, hpieces, hmiddle]
      simp only [hcast, Piece.join_append, Piece.join_cons, Piece.text, List.append_assoc]
    have hstop : c.operand.stop = (Piece.join front ++ cast).length := by
      rw [hoperand]
      show (Place.past _ _).offset = _
      rw [Piece.offset_past, Piece.offset_past, Piece.offset_past, text_eq_of_punct hopener c.opener_kind, hcast]
      have hzero : Place.start.offset = 0 := rfl
      simp only [List.length_append]
      omega
    have hedit : c.edit = ⟨(Piece.join front).length, (Piece.join front ++ cast).length, c.written⟩ := by
      rw [edit, hstart, hstop]
    rw [hedit]
    generalize c.written = written
    rw [htext, applyEdit_of_append]

/-- Right behind a keyword the word of a cast becomes a part of it. -/
theorem not_lexemesOf_eq_of_keyword (hkeep : KeepsCode keep) (k : Keyword) (lineStart : Bool) (rest : Text)
    (L : List (TokenKind × Text)) :
    Piece.lexemesOf keep (Piece.ofText lineStart (k.text ++ (c.written ++ rest))) ≠ (.keyword k, k.text) :: L := by
  intro h
  obtain ⟨g, more, htext, hg⟩ := k.startsWord_text
  obtain ⟨⟨hstarts, hdigit⟩, -⟩ : (Lexeme.startsWord g = true ∧ Lexeme.isDigit g = false) ∧ _ := by
    simpa only [Lexeme.opensWord, Bool.and_eq_true, Bool.not_eq_true'] using hg
  obtain ⟨hline, hspacing, hsplice⟩ := Piece.no_gap_of_startsWord hstarts (more ++ (c.written ++ rest))
  obtain ⟨kind, s, ps, hps, hkind⟩ := Piece.exists_lexeme lineStart hline hspacing hsplice
  rw [Lexeme.leading_startsWord hstarts hdigit] at hkind
  obtain ⟨hcomment, hdirective⟩ :=
    Lexeme.kind_ne_of_isWordOrLiteral (hkind ▸ Lexeme.isWordOrLiteral_word _ : Lexeme.isWordOrLiteral kind = true)
  rw [htext, List.cons_append, hps, ← htext, Piece.lexemesOf_cons (hkeep kind hcomment hdirective)] at h
  obtain ⟨hreading, -⟩ := List.cons.inj h
  obtain ⟨rfl, rfl⟩ := Prod.mk.inj hreading
  rw [← List.cons_append, ← htext] at hps
  obtain ⟨hjoin, hlead, -⟩ := Piece.ofText_eq_cons_iff.mp hps
  have hjoin : c.written ++ rest = Piece.join ps := List.append_cancel_left hjoin
  obtain ⟨-, hend⟩ := Piece.leads_keyword hlead
  obtain ⟨a, inner, hword, ha⟩ := c.word.startsWord_text
  rw [← hjoin] at hend
  simp only [written, List.append_assoc, hword, List.cons_append] at hend
  rw [Lexeme.endsWord_cons, Lexeme.continuesWord_of_opensWord ha] at hend
  exact absurd hend (by decide)

/-- No word and no literal ends right in front of the brackets if no keyword does. -/
theorem isWordOrLiteral_last {front : List Piece} (hfront : Piece.place .start front = c.front)
    (hstart : c.opener.start = (Piece.join front).length)
    (hclear : ∀ t ∈ c.front, t.stop = c.opener.start → ∀ k, t.kind ≠ .keyword k) {kind : TokenKind} {s : Text}
    (hlast : front.getLast? = some (.lexeme kind s)) : Lexeme.isWordOrLiteral kind = false := by
  obtain ⟨before, rfl⟩ := List.getLast?_eq_some_iff.mp hlast
  rw [Piece.place_append] at hfront
  obtain ⟨t, htoken⟩ : ∃ t, t = Piece.tokenAt (Place.start.past (Piece.join before)) kind s := ⟨_, rfl⟩
  have hfront : c.front = Piece.place .start before ++ [t] := by
    rw [htoken]
    exact hfront.symm
  have hkind : t.kind = kind := by rw [htoken]; rfl
  have hstop : t.stop = c.opener.start := by
    rw [htoken, hstart, Piece.join_append]
    show (Place.past _ _).offset = _
    have hzero : Place.start.offset = 0 := rfl
    rw [Piece.offset_past, Piece.offset_past, List.length_append]
    simp [Piece.text, hzero]
  have hcode : t.isCode = true → CastRule.mayPrecede t = true := by
    intro hcode
    refine c.mayPrecede t ?_
    rw [hfront, Token.code, List.filter_append, List.filter_cons_of_pos hcode]
    exact List.getLast?_concat
  have hkeyword : ∀ k, kind ≠ .keyword k := by
    rw [← hkind]
    exact hclear t (by rw [hfront]; simp) hstop
  cases kind with
  | keyword k => exact absurd rfl (hkeyword k)
  | identifier | literal =>
    have := hcode (by simp [Token.isCode, Token.isComment, Token.isDirective, hkind])
    rw [CastRule.mayPrecede, hkind] at this
    exact absurd this (by decide)
  | punct | comment | directive | unknown => rfl

/-- A keyword that ends right in front of the brackets is the last piece there. -/
theorem exists_keyword_last {front behind : List Piece} (hfront : Piece.place .start front = c.front)
    (hstart : c.opener.start = (Piece.join front).length)
    (hcut : Piece.ofText true (Piece.join (front ++ behind)) = front ++ behind) {t : Token} (ht : t ∈ c.front)
    (hstop : t.stop = c.opener.start) {k : Keyword} (hkind : t.kind = .keyword k) :
    ∃ before, front = before ++ [.lexeme (.keyword k) k.text] := by
  have hmem : t ∈ tokens text := by
    rw [c.tokens_eq]
    exact List.mem_append_left _ ht
  rw [← hfront] at ht
  obtain ⟨before, after, hsplit, htstart, htstop⟩ := Piece.mem_place ht
  have hafter : after = [] := by
    have hlength := congrArg (fun ps => (Piece.join ps).length) hsplit
    simp only [Piece.join_append, Piece.join_cons, List.length_append, Piece.text] at hlength
    have hzero : Place.start.offset = 0 := rfl
    have hjoin : Piece.join after = [] := List.eq_nil_of_length_eq_zero (by omega)
    refine List.eq_nil_iff_forall_not_mem.mpr fun p hp => ?_
    have hmem : p ∈ front ++ behind := by
      rw [hsplit]
      simp [hp]
    exact Piece.text_ne_nil_of_mem hcut p hmem (List.flatMap_eq_nil_iff.mp hjoin p hp)
  rw [hafter, hkind, text_eq_of_keyword hmem hkind] at hsplit
  exact ⟨before, hsplit⟩

/-- With the cast written out, the tokens that are looked at are as they should be exactly when nothing runs into
what stands next to it. Where comments are not looked at, none may be opened in the type. -/
theorem isExactFor_iff (hkeep : KeepsCode keep) (hcomment : keep .comment = true ∨ NoSlashStar c.inside) :
    c.IsExactFor keep ↔ c.IsClear := by
  obtain ⟨front, behind, back, hfront, hpieces, hstart, hback, hrest, hedited⟩ := c.exists_pieces
  have hcut : Piece.ofText true (Piece.join (front ++ .lexeme (.punct .lparen) Punct.lparen.text :: behind)) =
      front ++ .lexeme (.punct .lparen) Punct.lparen.text :: behind := by
    rw [← hpieces, Piece.join_ofText]
  have hexact : c.IsExactFor keep ↔
      Piece.lexemesOf keep (Piece.ofText true (Piece.join front ++ (c.written ++ Piece.join back))) =
        Piece.lexemesOf keep front ++ (c.run ++ Piece.lexemesOf keep back) := by
    rw [IsExactFor, hedited, hback, ← hfront, tokens, Piece.map_reading_filter, Piece.map_reading_filter]
  obtain ⟨a, inner, hword, ha⟩ := c.word.startsWord_text
  have hterm : Lexeme.StartsTerm (c.written ++ Piece.join back) := by
    simp only [written, hword, List.append_assoc, List.cons_append]
    exact Lexeme.StartsWord.term ⟨a, _, rfl, ha⟩
  rw [hexact]
  -- no keyword right in front: the front is cut as before, as it ends before a word and before a bracket
  by_cases hclear : ∀ t ∈ c.front, t.stop = c.opener.start → ∀ k, t.kind ≠ .keyword k
  · have hlast : ∀ kind s, front.getLast? = some (.lexeme kind s) → Lexeme.isWordOrLiteral kind = true →
        Lexeme.StartsWord (Piece.join (.lexeme (.punct .lparen) Punct.lparen.text :: behind)) := by
      intro kind s hs hkind
      rw [c.isWordOrLiteral_last hfront hstart hclear hs] at hkind
      exact absurd hkind (by decide)
    rw [Piece.ofText_append_term hcut ⟨_, _, rfl, by decide⟩ hterm hlast, Piece.lexemesOf_append,
      List.append_cancel_left_eq, c.lexemesOf_written_iff hkeep hcomment, hrest]
    exact ⟨fun h => ⟨hclear, h.1, h.2.1⟩, fun h => ⟨h.type, h.operand, rfl⟩⟩
  · -- a keyword right in front runs into the word of the cast
    refine iff_of_false ?_ fun h => hclear h.front
    simp only [not_forall, Decidable.not_not] at hclear
    obtain ⟨t, ht, hstop, k, hkind⟩ := hclear
    obtain ⟨before, hsplit⟩ := c.exists_keyword_last hfront hstart hcut ht hstop hkind
    rw [hsplit, List.append_assoc, List.singleton_append] at hcut
    have hold : Lexeme.StartsWord (Piece.join (.lexeme (.keyword k) k.text ::
        .lexeme (.punct .lparen) Punct.lparen.text :: behind)) := k.startsWord_text.append _
    have hnew : Lexeme.StartsWord (k.text ++ (c.written ++ Piece.join back)) := k.startsWord_text.append _
    have hbefore := Piece.ofText_append_term hcut hold.term hnew.term fun _ _ _ _ => hold
    rw [hsplit, Piece.join_append, List.append_assoc]
    change Piece.lexemesOf keep (Piece.ofText true (Piece.join before ++ (k.text ++ [] ++ _))) ≠ _
    rw [List.append_nil, hbefore, Piece.lexemesOf_append, Piece.lexemesOf_append, List.append_assoc,
      Piece.lexemesOf_cons (hkeep _ (by simp) (by simp))]
    exact fun h => c.not_lexemesOf_eq_of_keyword hkeep k _ _ _ (List.append_cancel_left h)

theorem isExact_iff : c.IsExact ↔ c.IsClear := by
  have hall : c.IsExactFor (fun _ => true) ↔ c.IsClear := c.isExactFor_iff (fun _ _ _ => rfl) (Or.inl rfl)
  rw [← hall]
  simp only [IsExact, IsExactFor, List.filter_true]

/-- What is right among all tokens is right in the code. -/
theorem IsExact.inCode {c : CastSite text} (h : c.IsExact) : c.IsExactInCode := by
  have hcode : ∀ ts : List Token, (Token.code ts).map Token.reading =
      (ts.map Token.reading).filter fun r => !(r.1 == .comment) && !(r.1 == .directive) := by
    intro ts
    rw [List.filter_map]
    rfl
  have hrun : c.run.filter (fun r => !(r.1 == .comment) && !(r.1 == .directive)) = c.run := by
    refine List.filter_eq_self.mpr fun r hr => ?_
    simp only [run, List.mem_cons, List.mem_append, List.mem_map, List.not_mem_nil, or_false] at hr
    rcases hr with rfl | rfl | ⟨t, ht, rfl⟩ | rfl | rfl | rfl | rfl
    · rfl
    · rfl
    · exact (List.mem_filter.mp (c.mem_code_inside ht)).2
    · rfl
    · rfl
    · exact (List.mem_filter.mp c.mem_code_operand).2
    · rfl
  rw [IsExactInCode, hcode, h, List.filter_append, List.filter_append, hrun, hcode, hcode]

/-- Where no comment is opened in the type, the code tells whether something runs into what stands next to it. -/
theorem isExactInCode_iff (h : NoSlashStar c.inside) : c.IsExactInCode ↔ c.IsClear := by
  have hcode : KeepsCode fun kind => !(kind == .comment) && !(kind == .directive) := by
    intro kind hcomment hdirective
    simp [hcomment, hdirective]
  exact c.isExactFor_iff hcode (Or.inr h)

theorem code_eq : Token.code (tokens text) =
    Token.code c.front ++ c.opener :: (c.inside ++ c.closer :: c.operand :: Token.code c.back) := by
  have hopener : c.opener.isCode = true := by
    simp [Token.isCode, Token.isComment, Token.isDirective, c.opener_kind]
  have hoperand := (List.mem_filter.mp c.mem_code_operand).2
  rw [c.tokens_eq, Token.code, List.filter_append, List.filter_cons_of_pos hopener, List.filter_append,
    List.filter_cons_of_pos hoperand]
  change _ ++ _ :: (Token.code c.between ++ _) = _
  rw [c.code_between, List.append_assoc]
  rfl

end CastSite

/-- A cast that is right in the code has three tokens more than one in the style of C. -/
theorem CastSite.IsExactInCode.length_eq {text : Text} {c : CastSite text} (h : c.IsExactInCode) :
    (Token.code (tokens (applyEdit text c.edit))).length = (Token.code (tokens text)).length + 3 := by
  have hlength := congrArg List.length h
  simp only [CastSite.run, List.length_map, List.length_append, List.length_cons, List.length_nil] at hlength
  rw [hlength, c.code_eq]
  simp only [List.length_append, List.length_cons]
  omega

/-- Where a token stands once, the tokens before and behind it are known. -/
theorem eq_of_append_cons {ts before before' after after' : List Token} {t : Token} (hts : ts.Nodup)
    (h : ts = before ++ t :: after) (h' : ts = before' ++ t :: after') : before = before' ∧ after = after' := by
  rw [h] at hts
  obtain ⟨-, htail, happart⟩ := List.nodup_append.mp hts
  have hbefore : t ∉ before := fun hmem => happart t hmem t List.mem_cons_self rfl
  have hafter : t ∉ after := (List.nodup_cons.mp htail).1
  obtain ⟨hfront, -, hback⟩ := (List.append_cons_inj_of_notMem hbefore hafter).mp (h.symm.trans h')
  exact ⟨hfront, hback⟩

/-- An edit tells which cast it writes. -/
theorem CastSite.IsClear.of_edit_eq {text : Text} {c d : CastSite text} (h : c.edit = d.edit) (hd : d.IsClear) :
    c.IsClear := by
  have hstart : (c.opener.start : Int) = d.opener.start := congrArg Edit.start h
  have hstop : (c.operand.stop : Int) = d.operand.stop := congrArg Edit.stop h
  have hnodup := nodup_tokens text
  have hmem : ∀ c : CastSite text, c.opener ∈ tokens text ∧ c.operand ∈ tokens text := by
    intro c
    rw [c.tokens_eq]
    simp
  have hopener : c.opener = d.opener := by
    have hc := start_lt_stop (hmem c).1
    have hd := start_lt_stop (hmem d).1
    exact (tokens_apart (hmem c).1 (hmem d).1).resolve_right (by omega)
  have hoperand : c.operand = d.operand := by
    have hc := start_lt_stop (hmem c).2
    have hd := start_lt_stop (hmem d).2
    exact (tokens_apart (hmem c).2 (hmem d).2).resolve_right (by omega)
  have hd' := d.tokens_eq
  rw [← hopener] at hd'
  obtain ⟨hfront, hbehind⟩ := eq_of_append_cons hnodup c.tokens_eq hd'
  have hrest : (c.between ++ c.operand :: c.back).Nodup :=
    hnodup.sublist (c.tokens_eq ▸ (List.sublist_cons_self _ _).trans (List.sublist_append_right _ _))
  rw [← hoperand] at hbehind
  obtain ⟨hbetween, -⟩ := eq_of_append_cons hrest rfl hbehind
  have hinside : c.inside = d.inside := by
    have hcode := c.code_between.symm.trans ((congrArg Token.code hbetween).trans d.code_between)
    exact (List.append_inj' hcode rfl).1
  exact ⟨hfront ▸ hopener ▸ hd.front, hinside ▸ hd.type, hoperand ▸ hd.operand⟩

/-! ## The edits of the rule -/

namespace CastRule

/-- The word of a cast. -/
theorem exists_castWord (names : Names) (target : Text) (operand : Token) :
    ∃ w : Keyword, w.isCast = true ∧ Text.ofString (castWord names target operand) = w.text := by
  unfold castWord
  dsimp only
  split
  · exact ⟨.staticCastKw, rfl, rfl⟩
  · split
    · exact ⟨.reinterpretCastKw, rfl, rfl⟩
    · exact ⟨.staticCastKw, rfl, rfl⟩

/-- An edit of the rule writes a cast of a type in brackets, the operand of which is one token. -/
theorem checkAt_edits {f : SourceFile} {names : Names} {opener : Token} {after : List Token} {v : Violation}
    (h : checkAt f names opener after = some v) {e : Edit} (he : e ∈ v.edits) :
    ∃ inside closer operand back, ∃ w : Keyword, after = inside ++ closer :: operand :: back ∧
      closer.isPunct .rparen = true ∧ afterType? inside = some [] ∧
      (operand.kind = .identifier ∨ operand.kind = .literal) ∧ w.isCast = true ∧
      v.edits = [⟨opener.start, operand.stop, w.text ++ Punct.less.text ++ joinedText inside ++
        Punct.greater.text ++ Punct.lparen.text ++ operand.text ++ Punct.rparen.text⟩] := by
  obtain ⟨enclosed, operand, back, _, _, henclosed, hafter, htype, rfl⟩ := checkAt_eq_some h
  obtain ⟨w, hw, hword⟩ := exists_castWord names (joinedText enclosed.inside) operand
  change e ∈ (if isSingleToken enclosed.after then _ else []) at he
  split at he
  next hsingle =>
    refine ⟨enclosed.inside, enclosed.closer, operand, back, w, ?_, (closing_append henclosed).2, htype, ?_, hw, ?_⟩
    · rw [(closing_append henclosed).1, hafter]
    · rw [hafter, isSingleToken] at hsingle
      simpa [Token.isIdentifier, Token.isLiteral] using (Bool.and_eq_true_iff.mp hsingle).1
    · show (if isSingleToken enclosed.after then _ else []) = _
      rw [if_pos hsingle, hword]
      simp only [List.flatten_cons, List.flatten_nil, List.append_assoc, List.append_nil]
      rfl
  next => exact absurd he (by simp)

section

variable {config : Config} {isOneOfMany : Bool} {path : SourcePath} {text : Text} {v : Violation} {e : Edit}

/-- An edit of the rule writes a cast of the text. -/
theorem exists_castSite (hv : v ∈ check (.ofText config isOneOfMany path text)) (he : e ∈ v.edits) :
    ∃ c : CastSite text, v.edits = [c.edit] := by
  obtain ⟨codeBefore, opener, after, hcode, hopener, hbefore, hat⟩ := exists_of_mem_checkFrom hv
  obtain ⟨inside, closer, operand, codeBack, w, rfl, hcloser, htype, hoperand, hw, hedits⟩ := checkAt_edits hat he
  -- the tokens of the code stand among all tokens
  obtain ⟨front, behind, htokens, hfront, hbehind⟩ := List.filter_eq_append_iff.mp hcode
  obtain ⟨quiet, inner, rfl, hquiet, -, hinner⟩ := List.filter_eq_cons_iff.mp hbehind
  have hinner : Token.code inner = (inside ++ [closer]) ++ operand :: codeBack := by
    rw [List.append_assoc]
    exact hinner
  obtain ⟨between, rest, rfl, hbetween, hrest⟩ := List.filter_eq_append_iff.mp hinner
  obtain ⟨quiet', back, rfl, hquiet', -, -⟩ := List.filter_eq_cons_iff.mp hrest
  have hskip : ∀ {ts us : List Token}, (∀ t ∈ us, ¬t.isCode = true) → Token.code (ts ++ us) = Token.code ts := by
    intro ts us hus
    rw [Token.code, List.filter_append, List.filter_eq_nil_iff.mpr hus, List.append_nil]
    rfl
  refine ⟨{
    front := front ++ quiet, opener, between := between ++ quiet', operand, back, inside, closer, word := w
    tokens_eq := ?_
    code_between := (hskip hquiet').trans hbetween
    opener_kind := by simpa [Token.isPunct] using hopener
    closer_kind := by simpa [Token.isPunct] using hcloser
    operand_kind := hoperand
    mayPrecede := fun t ht => ?_
    afterType := htype
    isCast := hw }, hedits⟩
  · change tokens text = _ at htokens
    rw [htokens]
    simp only [List.append_assoc]
  · rw [hskip hquiet] at ht
    change Token.code front = codeBefore at hfront
    rw [hfront] at ht
    rw [ht] at hbefore
    exact hbefore

/-- An edit of the rule puts the tokens of the cast in place of the brackets with the type and the operand, and
keeps the other tokens as they are, exactly when no keyword stands right in front of the brackets and every
token of the type and the operand ends before what is written next to it. In the code the same holds, but for
types in which a `/` stands in front of a `*`. -/
theorem edit_exact_iff (hv : v ∈ check (.ofText config isOneOfMany path text)) (he : e ∈ v.edits) :
    ∃ c : CastSite text, v.edits = [e] ∧ e = c.edit ∧
      (SourceFile.ofText config isOneOfMany path text).code =
        Token.code c.front ++ c.opener :: (c.inside ++ c.closer :: c.operand :: Token.code c.back) ∧
      (c.IsClear → c.IsExactInCode) ∧ (c.IsExact ↔ c.IsClear) ∧
      (NoSlashStar c.inside → (c.IsExactInCode ↔ c.IsClear)) := by
  obtain ⟨c, hedits⟩ := exists_castSite hv he
  rw [hedits] at he
  obtain rfl := List.mem_singleton.mp he
  exact ⟨c, hedits, rfl, c.code_eq, fun h => (c.isExact_iff.mpr h).inCode, c.isExact_iff, c.isExactInCode_iff⟩

end

/-- A cast behind a blank. -/
def castBehindBlank : Text := Text.ofString "long y = (long)x;\n"

/-- The pieces of that text. -/
def piecesBehindBlank : List Piece :=
  [.lexeme (.keyword .longKw) (.ofString "long"), .gap (.ofString " "), .lexeme .identifier (.ofString "y"),
    .gap (.ofString " "), .lexeme (.punct .eq) (.ofString "="), .gap (.ofString " "),
    .lexeme (.punct .lparen) (.ofString "("), .lexeme (.keyword .longKw) (.ofString "long"),
    .lexeme (.punct .rparen) (.ofString ")"), .lexeme .identifier (.ofString "x"),
    .lexeme (.punct .semicolon) (.ofString ";"), .gap (.ofString "\n")]

theorem tokens_castBehindBlank : tokens castBehindBlank = Piece.place .start piecesBehindBlank :=
  congrArg (Piece.place .start) (by decide +kernel : Piece.ofText true castBehindBlank = piecesBehindBlank)

/-- The cast there is made up of the tokens from the fourth on. -/
def siteBehindBlank : CastSite castBehindBlank where
  front := (Piece.place .start piecesBehindBlank).take 3
  opener := (Piece.place .start piecesBehindBlank).get ⟨3, by decide⟩
  between := ((Piece.place .start piecesBehindBlank).drop 4).take 2
  operand := (Piece.place .start piecesBehindBlank).get ⟨6, by decide⟩
  back := (Piece.place .start piecesBehindBlank).drop 7
  inside := ((Piece.place .start piecesBehindBlank).drop 4).take 1
  closer := (Piece.place .start piecesBehindBlank).get ⟨5, by decide⟩
  word := .staticCastKw
  tokens_eq := tokens_castBehindBlank.trans rfl
  code_between := rfl
  opener_kind := rfl
  closer_kind := rfl
  operand_kind := Or.inl rfl
  mayPrecede := fun t ht => by
    obtain rfl := Option.some.inj ht
    rfl
  afterType := by cbv
  isCast := rfl

theorem siteBehindBlank_isClear : siteBehindBlank.IsClear := by
  refine ⟨fun t ht hstop => ?_, by decide +kernel, by decide +kernel⟩
  have hall : siteBehindBlank.front.all (fun t => t.stop != siteBehindBlank.opener.start) = true := rfl
  exact absurd hstop (by simpa using List.all_eq_true.mp hall t ht)

set_option maxRecDepth 10000 in
theorem edit_exact_behind_blank :
    ∃ v ∈ check (.ofText {} false (.ofString "a.cpp") castBehindBlank), ∃ e ∈ v.edits,
      ∃ c : CastSite castBehindBlank, e = c.edit ∧ c.IsExact ∧ c.IsExactInCode := by
  have hreported := SourceFile.of_asRead {} false (.ofString "a.cpp") castBehindBlank
    (P := fun f => (check f).any (·.edits == [⟨9, 16, Text.ofString "static_cast<long>(x)"⟩]) = true) (by
      rw [castBehindBlank, Text.ofString_ofList]
      decide +kernel)
  obtain ⟨v, hv, hedits⟩ := List.any_eq_true.mp hreported
  have hedits := eq_of_beq hedits
  have he : ⟨9, 16, Text.ofString "static_cast<long>(x)"⟩ ∈ v.edits := by
    rw [hedits]
    exact List.mem_singleton_self _
  obtain ⟨c, -, hedit, -, hcode, hexact, -⟩ := edit_exact_iff hv he
  have hsite : c.edit = siteBehindBlank.edit := hedit.symm.trans (by decide +kernel)
  have hclear : c.IsClear := .of_edit_eq hsite siteBehindBlank_isClear
  exact ⟨v, hv, _, he, c, hedit, hexact.mpr hclear, hcode hclear⟩

/-- In a file with this text the rule has an edit that does not put the tokens of the cast in the code. -/
def Misreads (text : Text) : Prop :=
  ∃ c : CastSite text, ∃ v ∈ check (.ofText {} false (.ofString "a.cpp") text), v.edits = [c.edit] ∧
    ¬ c.IsExactInCode

/-- The rule has this edit, and the code does not become longer by three tokens through it. -/
def Miscounts (text : Text) (e : Edit) : Prop :=
  InOrder text ∧ (check (.asRead {} false (.ofString "a.cpp") text)).any (·.edits == [e]) = true ∧
    (Token.code (tokens (applyEdit text e))).length ≠ (Token.code (tokens text)).length + 3

instance (text : Text) (e : Edit) : Decidable (Miscounts text e) := inferInstanceAs (Decidable (_ ∧ _ ∧ _))

theorem misreads_of_miscounts {text : Text} {e : Edit} (h : Miscounts text e) : Misreads text := by
  obtain ⟨horder, hreported, hlength⟩ := h
  rw [← SourceFile.ofText_eq_asRead horder] at hreported
  obtain ⟨v, hv, hedits⟩ := List.any_eq_true.mp hreported
  have hedits := eq_of_beq hedits
  obtain ⟨c, hc⟩ := exists_castSite hv (hedits ▸ List.mem_singleton_self e)
  refine ⟨c, v, hv, hc, fun hexact => hlength ?_⟩
  rw [List.singleton_inj.mp (hedits.symm.trans hc)]
  exact hexact.length_eq

/-- A cast right behind a keyword. -/
def castBehindKeyword : Text := Text.ofString "long f() \x7b return(long)x; \x7d\n"

/-- A cast to a type that is written with two signs next to each other. -/
def castToSigns : Text := Text.ofString "long y = (long & &)x;\n"

/-- A cast of a literal that is not closed. -/
def castOfOpenLiteral : Text := Text.ofString "char x = (char)'a\n"

set_option maxRecDepth 10000 in
/-- The word of a cast runs into the keyword in front of it, the signs of a type run into each other, and a
literal runs on into what is written behind it. -/
theorem exists_misread_cast :
    Misreads castBehindKeyword ∧ Misreads castToSigns ∧ Misreads castOfOpenLiteral := by
  obtain ⟨hkeyword, hsigns, hliteral⟩ :
      Miscounts castBehindKeyword ⟨17, 24, Text.ofString "static_cast<long>(x)"⟩ ∧
        Miscounts castToSigns ⟨9, 20, Text.ofString "static_cast<long&&>(x)"⟩ ∧
        Miscounts castOfOpenLiteral ⟨9, 17, Text.ofString "static_cast<char>('a)"⟩ := by
    rw [castBehindKeyword, castToSigns, castOfOpenLiteral, Text.ofString_ofList, Text.ofString_ofList,
      Text.ofString_ofList, Text.ofString_ofList, Text.ofString_ofList, Text.ofString_ofList]
    decide +kernel
  exact ⟨misreads_of_miscounts hkeyword, misreads_of_miscounts hsigns, misreads_of_miscounts hliteral⟩

end CastRule

end HouseStyle
