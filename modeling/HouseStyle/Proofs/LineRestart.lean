import HouseStyle.Proofs.CarriageReturns
import HouseStyle.Proofs.CutShort
import HouseStyle.Proofs.MovedTokens

/-!
# Reading on from the start of a line

A text may be read in two parts if the first one ends in a line feed. The tokens are those of the first part and
then those of the second one, behind the first:

> `tokens_append_line`: if no token goes over the start of a line, and the line end in front of it is not spliced, the
> tokens of the text are those of the lines above and those of the lines below.

Nothing that was read above looked at what is below (`Lexeme.leading_cut`). What is carried over the line end is
whether there has been a token on the line, and a line feed between two tokens sets it back. A line feed may also be
the last glyph of a token: of a comment that is never closed, of a directive with a spliced line end or such a comment
in it, of a literal with a spliced line end. Then there may have been a token on the line, but it does not matter, since
the next line has nothing on it but blanks and perhaps a line comment (`LineOver`).
-/

namespace HouseStyle

/-! ## The line behind a token that ends in a line feed -/

/-- The text is at the end of a line, or in front of a line comment. -/
def AtLineEnd (t : Text) : Prop :=
  t = [] ∨ (∃ below, t = .scalar '\n' :: below) ∨ ∃ more, t = .scalar '/' :: .scalar '/' :: more

/-- Nothing follows on the line but blanks and perhaps a line comment. -/
def LineOver (t : Text) : Prop :=
  ∃ blanks rest, t = blanks ++ rest ∧ (∀ g ∈ blanks, g = .scalar ' ' ∨ g = .scalar '\t' ∨ g = .scalar '\r') ∧
    AtLineEnd rest

theorem AtLineEnd.lineOver {t : Text} (h : AtLineEnd t) : LineOver t := ⟨[], t, rfl, by simp, h⟩

namespace Lexeme

/-- A quoted literal stops at the end of the text, in front of a line feed, or behind its closing quote. -/
theorem quotedTail_stop (quote : Glyph) (t : Text) :
    t.drop (quotedTail quote t) = [] ∨ (∃ below, t.drop (quotedTail quote t) = .scalar '\n' :: below) ∨
      (t.take (quotedTail quote t)).getLast? = some quote := by
  have hbehind : ∀ (g : Glyph) (u : Text), u.getLast? = some quote → (g :: u).getLast? = some quote := by
    intro g u hu
    rw [List.getLast?_cons, hu]
    rfl
  fun_induction quotedTail quote t with
  | case1 => exact .inl rfl
  | case2 => exact .inr (.inl ⟨[], rfl⟩)
  | case3 => exact .inl rfl
  | case4 h t ih =>
    rw [Nat.add_comm, List.drop_succ_cons, List.drop_succ_cons, List.take_succ_cons, List.take_succ_cons]
    exact ih.imp_right (.imp_right fun hlast => hbehind _ _ (hbehind _ _ hlast))
  | case5 => exact .inr (.inr rfl)
  | case6 h t => exact .inr (.inl ⟨h :: t, rfl⟩)
  | case7 g h t _ _ _ ih =>
    rw [Nat.add_comm, List.drop_succ_cons, List.take_succ_cons]
    exact ih.imp_right (.imp_right (hbehind g _))

/-- A mark stands right in front of where it is found to end. -/
theorem mark_suffix_of_lengthThrough {mark t : Text} {n : Nat} (h : lengthThrough? mark t = some n) :
    mark <:+ t.take n := by
  induction t generalizing n with
  | nil =>
    unfold lengthThrough? at h
    split at h
    next hempty =>
      rw [List.isEmpty_iff.mp hempty]
      exact List.nil_suffix
    next => exact absurd h (by simp)
  | cons g t ih =>
    unfold lengthThrough? at h
    split at h
    next hhere =>
      obtain rfl := Option.some.inj h
      have htake := List.prefix_iff_eq_take.mp (List.isPrefixOf_iff_prefix.mp hhere)
      exact ⟨[], (List.nil_append mark).trans htake⟩
    next =>
      obtain ⟨m, hm, rfl⟩ := Option.map_eq_some_iff.mp h
      rw [List.take_succ_cons]
      exact (ih hm).trans (List.suffix_cons _ _)

theorem rawStringTail_stop (t : Text) :
    t.drop (rawStringTail t) = [] ∨ (∃ below, t.drop (rawStringTail t) = .scalar '\n' :: below) ∨
      (t.take (rawStringTail t)).getLast? = some (.scalar '"') := by
  unfold rawStringTail
  split
  next => exact quotedTail_stop _ t
  next delimiter body hd =>
    split
    next n hn =>
      right; right
      have ht : t = (delimiter ++ [.scalar '(']) ++ body := by
        rw [append_of_rawDelimiter hd, List.append_assoc]
        rfl
      obtain ⟨front, hfront⟩ := mark_suffix_of_lengthThrough hn
      have hlen : delimiter.length + 1 = (delimiter ++ [Glyph.scalar '(']).length := by simp
      rw [ht, hlen, List.take_length_add_append, ← hfront, ← List.append_assoc, ← List.append_assoc,
        List.getLast?_concat]
    next => exact .inl List.drop_length

/-- A number has no line feed. -/
theorem newline_not_mem_numberTail (last : Glyph) (t : Text) : .scalar '\n' ∉ t.take (numberTail last t) := by
  induction t generalizing last with
  | nil => simp
  | cons g t ih =>
    by_cases hg : g = .scalar '\n'
    · subst hg
      rw [numberTail, if_neg (by decide), if_neg (by simp), if_neg (by simp)]
      simp
    have hlater : .scalar '\n' ∉ (g :: t).take (1 + numberTail g t) := by
      rw [Nat.add_comm, List.take_succ_cons, List.mem_cons, not_or]
      exact ⟨Ne.symm hg, ih g⟩
    rw [numberTail]
    split
    · exact hlater
    split
    · exact hlater
    split
    · exact hlater
    · simp

/-- A directive stops at the end of its line or in front of a line comment. -/
theorem directiveExtent_stop (behind t : Text) : AtLineEnd (t.drop (directiveExtent behind t)) := by
  fun_induction directiveExtent behind t with
  | case1 => exact .inl rfl
  | case2 behind rest hs ih => rwa [Nat.add_comm, List.drop_succ_cons]
  | case3 behind rest hs => exact .inr (.inl ⟨rest, rfl⟩)
  | case4 behind more => exact .inr (.inr ⟨more, rfl⟩)
  | case5 behind _ inner n ih =>
    rw [Nat.add_assoc, Nat.add_comm 2, List.drop_succ_cons, List.drop_succ_cons, ← List.drop_drop]
    exact ih
  | case6 behind g rest _ _ _ _ n ih =>
    rw [Nat.add_assoc, Nat.add_comm 1, List.drop_succ_cons, ← List.drop_drop]
    exact ih
  | case7 behind g rest _ _ _ _ ih => rwa [Nat.add_comm, List.drop_succ_cons]

/-- What is taken off the end of the first part of a text. -/
theorem exists_trimmed (drop : Glyph → Bool) (t rest : Text) :
    ∃ off, (t ++ rest).drop (t.reverse.dropWhile drop).length = off ++ rest ∧ ∀ g ∈ off, drop g = true := by
  refine ⟨(t.reverse.takeWhile drop).reverse, ?_, fun g hg => ?_⟩
  · have ht : t = (t.reverse.dropWhile drop).reverse ++ (t.reverse.takeWhile drop).reverse := by
      rw [← List.reverse_append, List.takeWhile_append_dropWhile, List.reverse_reverse]
    conv_lhs => arg 2; rw [ht, List.append_assoc]
    rw [← List.length_reverse, List.drop_left]
  · exact List.all_eq_true.mp List.all_takeWhile g (List.mem_reverse.mp hg)

/-- The blanks at the end of a directive are what follows it on its line. -/
theorem directiveTail_stop (t : Text) : LineOver (t.drop (directiveTail t)) := by
  obtain ⟨off, hoff, hblank⟩ := exists_trimmed
    (fun g => g == .scalar ' ' || g == .scalar '\t' || g == .scalar '\r')
    (t.take (directiveExtent [] t)) (t.drop (directiveExtent [] t))
  rw [List.take_append_drop] at hoff
  refine ⟨off, _, hoff, fun g hg => ?_, directiveExtent_stop [] t⟩
  simpa [or_assoc] using hblank g hg

/-- A line comment is followed by the carriage returns of its line and the line end. -/
theorem lineCommentTail_stop (t : Text) : ∃ returns rest, t.drop (lineCommentTail t) = returns ++ rest ∧
    (∀ g ∈ returns, g = .scalar '\r') ∧ (rest = [] ∨ ∃ below, rest = .scalar '\n' :: below) := by
  obtain ⟨off, hoff, hreturn⟩ := exists_trimmed (· == Glyph.scalar '\r')
    (t.takeWhile (· != .scalar '\n')) (t.dropWhile (· != .scalar '\n'))
  rw [List.takeWhile_append_dropWhile] at hoff
  refine ⟨off, _, hoff, fun g hg => by simpa using hreturn g hg, ?_⟩
  cases hrest : t.dropWhile (· != .scalar '\n') with
  | nil => exact .inl rfl
  | cons g below =>
    have hg := List.head?_dropWhile_not (· != Glyph.scalar '\n') t
    rw [hrest] at hg
    exact .inr ⟨below, by simpa using hg⟩

/-! ## The line behind a token that ends in a line feed -/

theorem EndsLine.of_append {p q : Text} (h : EndsLine (p ++ q)) (hq : q ≠ []) : EndsLine q := by
  rwa [EndsLine, List.getLast?_append_of_ne_nil _ hq] at h

/-- A literal that ends in a line feed has been given up at the end of a line. -/
theorem atLineEnd_of_literal {quote : Glyph} (hquote : quote ≠ .scalar '\n') {t u : Text} (ht : EndsLine t)
    (h : (t ++ u).drop t.length = [] ∨ (∃ below, (t ++ u).drop t.length = .scalar '\n' :: below) ∨
      ((t ++ u).take t.length).getLast? = some quote) : AtLineEnd u := by
  rw [List.drop_left, List.take_left] at h
  rcases h with hend | hline | hlast
  · exact .inl hend
  · exact .inr (.inl hline)
  · exact absurd (Option.some.inj (hlast.symm.trans ht)) hquote

theorem atLineEnd_of_quoted {quote : Glyph} (hquote : isQuote quote = true) {t u : Text} (ht : EndsLine t)
    (h : quotedTail quote (t ++ u) = t.length) : AtLineEnd u :=
  atLineEnd_of_literal (ne_of_isQuote hquote (by decide)) ht (h ▸ quotedTail_stop quote (t ++ u))

theorem atLineEnd_of_rawString {t u : Text} (ht : EndsLine t) (h : rawStringTail (t ++ u) = t.length) :
    AtLineEnd u :=
  atLineEnd_of_literal (by decide) ht (h ▸ rawStringTail_stop (t ++ u))

/-- A word that ends in a line feed is the prefix of such a literal. -/
theorem atLineEnd_of_word {t u : Text} {kind : TokenKind} (ht : EndsLine t)
    (h : word (t ++ u) = (kind, t.length)) : AtLineEnd u := by
  obtain ⟨name, g, more, rfl, hcut⟩ := exists_name_of_endsLine ht
  have hinner : isQuote g = true → EndsLine more := fun hg =>
    (ht.of_append (List.cons_ne_nil g more)).of_cons (ne_of_isQuote hg (by decide))
  unfold word at h
  rw [(hcut u).1, (hcut u).2, List.length_append, List.length_cons] at h
  dsimp only at h
  split at h
  next hraw =>
    obtain rfl := of_decide_eq_true (Bool.and_eq_true_iff.mp hraw).1
    have hlength := (Prod.mk.inj h).2
    exact atLineEnd_of_rawString (hinner rfl) (by omega)
  next =>
    split at h
    next hq =>
      have hquote := (Bool.and_eq_true_iff.mp hq).1
      have hlength := (Prod.mk.inj h).2
      exact atLineEnd_of_quoted hquote (hinner hquote) (by omega)
    next =>
      have hlength := (Prod.mk.inj h).2
      omega

/-- No symbol ends in a line feed. -/
theorem length_symbol_ne {g : Glyph} {t u : Text} (ht : EndsLine (g :: t)) (hg : g ≠ .scalar '\n') :
    (symbol (g :: (t ++ u))).2 ≠ (g :: t).length := by
  intro h
  unfold symbol at h
  split at h
  next q hq =>
    have hfront := (Punct.leading_eq_some_iff.mp hq).1
    rw [← List.cons_append] at hfront
    have htext := (List.prefix_of_prefix_length_le hfront (List.prefix_append _ u) (Nat.le_of_eq h)).eq_of_length h
    exact (newline_not_mem_punct q).2 (htext ▸ List.mem_of_getLast? ht)
  next =>
    have hpos := List.length_pos_iff.mpr (ht.of_cons hg).ne_nil
    rw [List.length_cons] at h
    omega

end Lexeme

namespace Piece

open Lexeme (EndsLine comment_cases leading_directive leading_lineComment leading_blockComment leading_plain)

/-- Behind a token with a line feed at the end, but for a comment, nothing follows on the line but blanks and perhaps
a line comment. -/
theorem lineOver_of_leads {lineStart : Bool} {kind : TokenKind} {t u : Text}
    (h : Leads lineStart (.lexeme kind t) u) (ht : EndsLine t) (hkind : kind ≠ .comment) : LineOver u := by
  obtain ⟨g, more, rfl, hn, -, -, hl⟩ := h
  have hmore := ht.of_cons hn
  rw [List.cons_append] at hl
  by_cases hd : g = .scalar '#' ∧ lineStart = true
  · obtain ⟨rfl, rfl⟩ := hd
    rw [leading_directive, List.length_cons] at hl
    have hlength : Lexeme.directiveTail (more ++ u) = more.length := by
      have := (Prod.mk.inj hl).2
      omega
    have hstop := Lexeme.directiveTail_stop (more ++ u)
    rwa [hlength, List.drop_left] at hstop
  rcases comment_cases g (more ++ u) with ⟨rest, rfl, hrest⟩ | ⟨rest, rfl, hrest⟩ | hplain
  · rw [hrest, leading_lineComment] at hl
    exact absurd (Prod.mk.inj hl).1.symm hkind
  · rw [hrest, leading_blockComment] at hl
    exact absurd (Prod.mk.inj hl).1.symm hkind
  rw [leading_plain hd hplain] at hl
  split at hl
  next =>
    -- a number does not end in a line feed
    have hlength := (Prod.mk.inj hl).2
    rw [List.length_cons] at hlength
    have hnot := Lexeme.newline_not_mem_numberTail g (more ++ u)
    rw [show Lexeme.numberTail g (more ++ u) = more.length by omega, List.take_left] at hnot
    exact absurd (List.mem_of_getLast? hmore) hnot
  split at hl
  next => exact (Lexeme.atLineEnd_of_word (t := g :: more) ht hl).lineOver
  split at hl
  next hq =>
    have hlength := (Prod.mk.inj hl).2
    rw [List.length_cons] at hlength
    exact (Lexeme.atLineEnd_of_quoted hq hmore (by omega)).lineOver
  next => exact absurd (congrArg Prod.snd hl) (Lexeme.length_symbol_ne ht hn)

/-- Whether there has been a token on the line does not matter in front of some blanks if it does not behind them. -/
theorem ofText_blanks_of_eq {blanks rest : Text}
    (hblanks : ∀ g ∈ blanks, g = .scalar ' ' ∨ g = .scalar '\t' ∨ g = .scalar '\r')
    (h : ofText true rest = ofText false rest) : ofText true (blanks ++ rest) = ofText false (blanks ++ rest) := by
  induction blanks with
  | nil => exact h
  | cons g blanks ih =>
    rw [List.forall_mem_cons] at hblanks
    have hg : g ≠ .scalar '\n' ∧ g.isSpacing = true := by
      rcases hblanks.1 with rfl | rfl | rfl <;> decide
    rw [List.cons_append, ofText_spacing hg.1 hg.2, ofText_spacing hg.1 hg.2, ih hblanks.2]

/-- Nor does it on a line that is over. -/
theorem ofText_of_lineOver {t : Text} (h : LineOver t) : ofText true t = ofText false t := by
  obtain ⟨blanks, rest, rfl, hblanks, hrest⟩ := h
  refine ofText_blanks_of_eq hblanks ?_
  have hbreak : ∀ rest : Text, rest = [] ∨ (∃ below, rest = .scalar '\n' :: below) →
      ofText true rest = ofText false rest := by
    rintro rest (rfl | ⟨below, rfl⟩)
    · rw [ofText, ofText]
    · rw [ofText_newline, ofText_newline]
  rcases hrest with hnil | hline | ⟨more, rfl⟩
  · exact hbreak rest (.inl hnil)
  · exact hbreak rest (.inr hline)
  · -- the comment is the same, and behind it the line is over
    obtain ⟨returns, rest, hstop, hreturns, hrest⟩ := Lexeme.lineCommentTail_stop more
    have hlater := ofText_blanks_of_eq (fun g hg => .inr (.inr (hreturns g hg))) (hbreak rest hrest)
    have hlead : ∀ b, Leads b (.lexeme .comment (.scalar '/' :: .scalar '/' :: more.take (Lexeme.lineCommentTail more)))
        (more.drop (Lexeme.lineCommentTail more)) := by
      intro b
      refine ⟨_, _, rfl, by decide, by decide, rfl, ?_⟩
      rw [List.cons_append, List.cons_append, List.take_append_drop, leading_lineComment, List.length_cons,
        List.length_cons, List.length_take, Nat.min_eq_left (Lexeme.lineCommentTail_le more), Nat.add_comm]
    have hcut := fun b => ofText_of_leads (hlead b)
    simp only [text, List.cons_append, List.take_append_drop] at hcut
    rw [hcut true, hcut false, hstop]
    cases lineStartPast false
        (.lexeme .comment (.scalar '/' :: .scalar '/' :: more.take (Lexeme.lineCommentTail more))) with
    | true => rfl
    | false =>
      rw [← hlater]
      rfl

/-! ## The pieces above and below -/

/-- A piece leads a text that is cut off behind a line feed. -/
theorem leads_cut {lineStart : Bool} {p : Piece} {rest u : Text} (h : Leads lineStart p (rest ++ u))
    (hline : EndsLine (p.text ++ rest)) : Leads lineStart p rest := by
  cases p with
  | gap t =>
    change EndsLine (t ++ rest) at hline
    rcases h with hnewline | hblank | ⟨hpos, hlen⟩
    · exact .inl hnewline
    · exact .inr (.inl hblank)
    · rw [← List.append_assoc, ← Lexeme.spliceLength_cut hline] at hlen
      exact .inr (.inr ⟨hpos, hlen⟩)
  | lexeme kind t =>
    change EndsLine (t ++ rest) at hline
    obtain ⟨g, more, ht, hn, hg, hs, hl⟩ := h
    rw [← List.append_assoc] at hs hl
    have hcut : Lexeme.leading lineStart (t ++ rest) = Lexeme.leading lineStart (t ++ rest ++ u) := by
      refine Lexeme.leading_cut hline ?_
      rw [hl, List.length_append]
      exact Nat.le_add_right _ _
    exact ⟨g, more, ht, hn, hg, by rwa [Lexeme.spliceLength_cut hline u], hcut.trans hl⟩

/-- The pieces above a line are those of the text above. -/
theorem ofText_cut {lineStart : Bool} {front back : List Piece}
    (h : ofText lineStart (join (front ++ back)) = front ++ back) (hline : front = [] ∨ EndsLine (join front)) :
    ofText lineStart (join front) = front := by
  induction front generalizing lineStart with
  | nil => rw [join_nil, ofText]
  | cons p front ih =>
    obtain ⟨-, hlead, hrest⟩ := ofText_eq_cons_iff.mp h
    change Leads lineStart p (join (front ++ back)) at hlead
    change ofText _ (join (front ++ back)) = front ++ back at hrest
    rw [join_append] at hlead
    have hline := hline.resolve_left (List.cons_ne_nil p front)
    have hlater : front = [] ∨ EndsLine (join front) := by
      cases front with
      | nil => exact .inl rfl
      | cons q front =>
        obtain ⟨-, hq, -⟩ := ofText_eq_cons_iff.mp hrest
        refine .inr (hline.of_append fun hnil => text_ne_nil hq ?_)
        exact (List.append_eq_nil_iff.mp hnil).1
    exact ofText_eq_cons_iff.mpr ⟨rfl, leads_cut hlead hline, ih hrest hlater⟩

/-- The pieces below a line are those of the text below. -/
theorem ofText_below {source : Text} {front back : List Piece} {p : Piece}
    (h : ofText true source = (front ++ [p]) ++ back) (hline : EndsLine (join (front ++ [p])))
    (hgap : ∀ t, p = .gap t → t = [.scalar '\n']) : ofText true (join back) = back := by
  have hback := ofText_eq_append h
  rw [List.foldl_append, List.foldl_cons, List.foldl_nil] at hback
  rw [List.append_assoc, List.singleton_append] at h
  obtain ⟨-, hlead, -⟩ := ofText_eq_cons_iff.mp (ofText_eq_append h)
  cases p with
  | gap t =>
    obtain rfl := hgap t rfl
    exact hback
  | lexeme kind t =>
    have ht : EndsLine t := by
      refine Lexeme.EndsLine.of_append (p := join front) ?_ (text_ne_nil hlead)
      rwa [join_append, join_cons, join_nil, List.append_nil] at hline
    by_cases hkind : kind = .comment
    · subst hkind
      have hany : t.any (· == .scalar '\n') = true :=
        List.any_eq_true.mpr ⟨_, List.mem_of_getLast? ht, beq_self_eq_true _⟩
      rwa [lineStartPast, lineStartAfter, hany, Bool.or_true] at hback
    · have hfalse : lineStartPast (front.foldl lineStartPast true) (.lexeme kind t) = false := by
        rw [lineStartPast]
        unfold lineStartAfter
        split
        next => exact absurd rfl hkind
        next => rfl
      rw [hfalse] at hback
      rwa [ofText_of_lineOver (lineOver_of_leads hlead ht hkind)]

/-- The piece that holds the last one of some first glyphs. -/
theorem exists_piece_of_le {ps : List Piece} {k : Nat} (hpos : 0 < k) (hle : k ≤ (join ps).length) :
    ∃ front p back, ps = front ++ p :: back ∧ (join front).length < k ∧ k ≤ (join front).length + p.text.length := by
  induction ps generalizing k with
  | nil => exact absurd hle (Nat.not_le.mpr hpos)
  | cons p ps ih =>
    rw [join_cons, List.length_append] at hle
    by_cases hk : k ≤ p.text.length
    · exact ⟨[], p, ps, rfl, hpos, by rwa [join_nil, List.length_nil, Nat.zero_add]⟩
    · obtain ⟨front, q, back, rfl, hlt, hq⟩ := ih (k := k - p.text.length) (by omega) (by omega)
      refine ⟨p :: front, q, back, rfl, ?_, ?_⟩ <;> rw [join_cons, List.length_append] <;> omega

/-- A gap is in no token. -/
theorem not_mem_gap {p : Place} {front back : List Piece} {s : Text} {t : Token} {i : Nat}
    (ht : t ∈ place p (front ++ .gap s :: back)) (hi : p.offset + (join front).length ≤ i)
    (hi' : i < p.offset + (join front).length + s.length) : ¬(t.start ≤ i ∧ i < t.stop) := by
  rw [place_append] at ht
  rcases List.mem_append.mp ht with hfront | hback
  · have := stop_le_offset hfront
    omega
  · have := offset_le_start (p := (p.past (join front)).past s) hback
    rw [offset_past, offset_past] at this
    omega

end Piece

/-! ## Tokens -/

/-- The token as it is behind so many more glyphs and so many more lines. -/
def Token.shifted (t : Token) (offset lines : Nat) : Token :=
  { t with start := t.start + offset, stop := t.stop + offset, line := t.line + lines, endLine := t.endLine + lines }

/-- A token that is moved from the start of a text to the start of a line. -/
theorem Token.Moved.eq_shifted {offset lines : Nat} {t u : Token}
    (h : Token.Moved .start ⟨offset, 1 + lines, 1⟩ t u) : u = t.shifted offset lines := by
  obtain ⟨hkind, htext, ⟨_, _, _, hstart, hline, hsame, hlater⟩, ⟨_, _, _, hstop, hendLine, hsame', hlater'⟩⟩ := h
  simp only [Token.startPlace, Token.stopPlace, Place.start] at *
  cases u
  simp only [Token.shifted, Token.mk.injEq] at *
  refine ⟨hkind, htext, ?_, ?_, ?_, ?_, ?_, ?_⟩ <;> omega

theorem Piece.place_shifted (offset lines : Nat) (ps : List Piece) :
    place ⟨offset, 1 + lines, 1⟩ ps = (place .start ps).map (·.shifted offset lines) := by
  have h := place_moved .start ⟨offset, 1 + lines, 1⟩ ps
  generalize place .start ps = ts at h ⊢
  generalize place ⟨offset, 1 + lines, 1⟩ ps = us at h ⊢
  induction h with
  | nil => rfl
  | cons htu _ ih => rw [List.map_cons, htu.eq_shifted, ih]

/-! ## Lines -/

/-- The line end in front of an offset is spliced: a backslash that belongs to no token stands right in front of the
line feed, or in front of the carriage return before it. -/
def SplicedBefore (source : Text) (k : Nat) : Prop :=
  ∃ front lineEnd, (lineEnd = [.scalar '\n'] ∨ lineEnd = [.scalar '\r', .scalar '\n']) ∧
    source.take k = front ++ .scalar '\\' :: lineEnd ∧
    ∀ t ∈ tokens source, ¬(t.start ≤ front.length ∧ front.length < t.stop)

/-- In front of the line feed of a spliced line end there is the backslash or a carriage return. -/
theorem SplicedBefore.getLast?_dropLast {source : Text} {k : Nat} (h : SplicedBefore source k) :
    (source.take k).dropLast.getLast? = some (.scalar '\\') ∨
      (source.take k).dropLast.getLast? = some (.scalar '\r') := by
  obtain ⟨front, lineEnd, rfl | rfl, hfront, -⟩ := h
  · left
    rw [hfront, List.dropLast_append_of_ne_nil (by simp)]
    simp
  · right
    rw [hfront, List.dropLast_append_of_ne_nil (by simp)]
    simp

/-- The piece of a text that ends in front of a line is a line feed or a token. -/
theorem exists_piece_above {source : Text} {k : Nat} (hpos : 0 < k) (hline : source[k - 1]? = some (.scalar '\n'))
    (hsplice : ¬SplicedBefore source k) (hover : ∀ t ∈ tokens source, ¬(t.start < k ∧ k < t.stop)) :
    ∃ front p back, Piece.ofText true source = front ++ p :: back ∧ (Piece.join (front ++ [p])).length = k ∧
      ∀ t, p = .gap t → t = [.scalar '\n'] := by
  have hlt : k - 1 < source.length := (List.getElem?_eq_some_iff.mp hline).1
  have hle : k ≤ (Piece.join (Piece.ofText true source)).length := by
    rw [Piece.join_ofText]
    omega
  obtain ⟨front, p, back, hps, hfront, hp⟩ := Piece.exists_piece_of_le hpos hle
  have hsource : source = Piece.join front ++ (p.text ++ Piece.join back) := by
    rw [← Piece.join_ofText true source, hps, Piece.join_append, Piece.join_cons]
  have hlast : p.text[k - 1 - (Piece.join front).length]? = some (.scalar '\n') := by
    rwa [hsource, List.getElem?_append_right (by omega), List.getElem?_append_left (by omega)] at hline
  have hlength : (Piece.join (front ++ [p])).length = (Piece.join front).length + p.text.length := by
    rw [Piece.join_append, List.length_append, Piece.join_cons, Piece.join_nil, List.append_nil]
  cases p with
  | lexeme kind s =>
    simp only [Piece.text] at hp hlength
    obtain ⟨t, ht, -, -, hstart, hstop⟩ := mem_tokens_of_piece hps
    have hwithin := hover t ht
    exact ⟨front, _, back, hps, by omega, fun s hs => Piece.noConfusion hs⟩
  | gap s =>
    simp only [Piece.text] at hp hlength hlast hsource
    -- a gap of more than one glyph would be a splice
    have hnot : ∀ lineEnd, lineEnd = [.scalar '\n'] ∨ lineEnd = [.scalar '\r', .scalar '\n'] →
        s = .scalar '\\' :: lineEnd → (Piece.join front).length + s.length ≠ k := by
      rintro lineEnd hend rfl hk
      refine hsplice ⟨Piece.join front, lineEnd, hend, ?_, fun t ht => ?_⟩
      · rw [hsource, ← hk, ← List.append_assoc, ← List.length_append]
        exact List.take_left
      · rw [tokens, hps] at ht
        exact Piece.not_mem_gap ht (Nat.le_of_eq (Nat.zero_add _)) (by simp [Place.start])
    obtain ⟨i, hi⟩ : ∃ i, k = (Piece.join front).length + (i + 1) := ⟨k - (Piece.join front).length - 1, by omega⟩
    rw [show k - 1 - (Piece.join front).length = i by omega] at hlast
    rcases Piece.isSeparator_of_mem_ofText (hps ▸ List.mem_append_right _ List.mem_cons_self) with
      ⟨c, -, rfl⟩ | rfl | rfl
    · cases i with
      | zero =>
        obtain rfl := Glyph.scalar.inj (Option.some.inj hlast)
        exact ⟨front, _, back, hps, by rw [hlength, hi]; rfl, fun t ht => (Piece.gap.inj ht).symm⟩
      | succ i => simp at hlast
    · have hbound : i < 2 := (List.getElem?_eq_some_iff.mp hlast).1
      obtain rfl | rfl : i = 0 ∨ i = 1 := by omega
      · exact absurd hlast (by decide)
      · exact absurd hi.symm (hnot _ (.inl rfl) rfl)
    · have hbound : i < 3 := (List.getElem?_eq_some_iff.mp hlast).1
      obtain rfl | rfl | rfl : i = 0 ∨ i = 1 ∨ i = 2 := by omega
      · exact absurd hlast (by decide)
      · exact absurd hlast (by decide)
      · exact absurd hi.symm (hnot _ (.inr rfl) rfl)

/-- Reading can start anew at any line: if the line feed in front of an offset is not that of a spliced line end, and
no token goes over the offset, the tokens of the text are those of the text in front of the offset and then those of
the text behind it, shifted by the glyphs and the line feeds in front. -/
theorem tokens_append_line {source : Text} {k : Nat} (hpos : 0 < k) (hline : source[k - 1]? = some (.scalar '\n'))
    (hsplice : ¬SplicedBefore source k) (hover : ∀ t ∈ tokens source, ¬(t.start < k ∧ k < t.stop)) :
    tokens source = tokens (source.take k) ++
      (tokens (source.drop k)).map (·.shifted k ((source.take k).count (.scalar '\n'))) := by
  obtain ⟨front, p, back, hps, hlength, hgap⟩ := exists_piece_above hpos hline hsplice hover
  rw [← List.singleton_append, ← List.append_assoc] at hps
  have hsource : source = Piece.join (front ++ [p]) ++ Piece.join back := by
    rw [← Piece.join_append, ← hps, Piece.join_ofText]
  have habove : source.take k = Piece.join (front ++ [p]) := by
    rw [hsource, ← hlength, List.take_left]
  have hbelow : source.drop k = Piece.join back := by
    rw [hsource, ← hlength, List.drop_left]
  have hends : Lexeme.EndsLine (Piece.join (front ++ [p])) := by
    rw [Lexeme.EndsLine, ← habove, List.getLast?_take, if_neg (Nat.ne_of_gt hpos), hline, Option.some_or]
  have hcut := Piece.ofText_cut (by rw [← hps, Piece.join_ofText]) (.inr hends)
  have hrest : Piece.ofText true (Piece.join back) = back := Piece.ofText_below hps hends hgap
  have hplace : Place.start.past (Piece.join (front ++ [p])) =
      ⟨k, 1 + (source.take k).count (.scalar '\n'), 1⟩ := by
    obtain ⟨above, habove'⟩ := List.getLast?_eq_some_iff.mp hends
    rw [Place.past_start, hlength, habove, habove']
    simp
  rw [tokens, hps, Piece.place_append, hplace, Piece.place_shifted, tokens, habove, hcut, tokens, hbelow, hrest]

/-- A directive with a spliced line in it and a comment behind it are read before another directive. -/
theorem tokens_append_line_directives :
    ∃ (source : Text) (k : Nat), source = Text.ofString "#define F(x) \\\n  x // f\n#if 1\nint a;\n" ∧ k = 24 ∧
      source[k - 1]? = some (.scalar '\n') ∧ ¬SplicedBefore source k ∧
      (∀ t ∈ tokens source, ¬(t.start < k ∧ k < t.stop)) ∧
      tokens source = tokens (source.take k) ++
        (tokens (source.drop k)).map (·.shifted k ((source.take k).count (.scalar '\n'))) := by
  refine ⟨_, _, rfl, rfl, ?_⟩
  have hline : (Text.ofString "#define F(x) \\\n  x // f\n#if 1\nint a;\n")[24 - 1]? = some (.scalar '\n') := by
    decide +kernel
  have hsplice : ¬SplicedBefore (Text.ofString "#define F(x) \\\n  x // f\n#if 1\nint a;\n") 24 := by
    intro h
    rcases h.getLast?_dropLast with h | h <;> exact absurd h (by decide +kernel)
  have hover : ∀ t ∈ tokens (Text.ofString "#define F(x) \\\n  x // f\n#if 1\nint a;\n"),
      ¬(t.start < 24 ∧ 24 < t.stop) := by decide +kernel
  exact ⟨hline, hsplice, hover, tokens_append_line (by decide) hline hsplice hover⟩

end HouseStyle
