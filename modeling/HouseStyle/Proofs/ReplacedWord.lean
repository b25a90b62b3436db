import HouseStyle.Proofs.Conversion
import HouseStyle.Proofs.MovedTokens
import Mathlib.Data.List.Forall2

/-!
# One word replaced by another

A token may be a word that can be replaced without a look at the rest of the text. What stands in front of it is cut
as it was, since no token in front of a word looks into it; the new word ends where the old one did; and from there
on the text is the same. So the tokens are the old ones with the new word in the place of the old one, and what
stands behind it moves with its end (`Token.afterReplacing`).

> `tokens_replaced`: the tokens of a text in which one identifier has been replaced.

This asks nothing of the other tokens of the text, and so it holds of each step of a rename.
-/

namespace HouseStyle

namespace Place

/-- Within a line only the offset and the column grow. -/
theorem past_of_line {t : Text} (h : .scalar '\n' ∉ t) (p : Place) :
    p.past t = ⟨p.offset + t.length, p.line, p.column + t.length⟩ := by
  induction t generalizing p with
  | nil => rfl
  | cons g t ih =>
    rw [List.mem_cons, not_or] at h
    have hnext : p.next g = ⟨p.offset + 1, p.line, p.column + 1⟩ := if_neg (Ne.symm h.1)
    show (p.next g).past t = _
    rw [ih h.2, hnext, List.length_cons]
    dsimp only
    congr 1 <;> omega

end Place

/-! ## Replacing -/

namespace Token

/-- Where a place is when a word stands in the place of the token: from the end of the token on, what is on its line
moves with its end, and what is on later lines keeps its column. -/
def placeAfter (t : Token) (word : Text) (p : Place) : Place :=
  if p.offset < t.stop then p
  else
    { offset := p.offset - t.text.length + word.length
      line := p.line
      column := if p.line = t.endLine then p.column - t.text.length + word.length else p.column }

/-- A token of a text when a word stands in the place of the token `t`. -/
def afterReplacing (t : Token) (word : Text) (u : Token) : Token :=
  let p := t.placeAfter word u.startPlace
  let q := t.placeAfter word u.stopPlace
  { kind := u.kind, text := if u.start = t.start then word else u.text, start := p.offset, stop := q.offset,
    line := p.line, column := p.column, endLine := q.line, endColumn := q.column }

end Token

section

variable {t : Token} {p : Place} {word : Text} (ht : .scalar '\n' ∉ t.text) (hword : .scalar '\n' ∉ word)

include ht hword

/-- What is behind the old word is as far behind the new one. -/
theorem Token.placeAfter_of_moved (hstop : t.stopPlace = p.past t.text) {r s : Place}
    (h : (p.past t.text).Moved (p.past word) r s) : t.placeAfter word r = s := by
  rw [Place.past_of_line ht] at hstop h
  rw [Place.past_of_line hword] at h
  obtain ⟨hoffset, hline, hcolumn⟩ := Place.mk.inj hstop
  obtain ⟨o, l, c⟩ := s
  obtain ⟨hoffset_le, -, hcolumn_le, hoffset', hline', hsame, hlater⟩ := h
  dsimp only at *
  rw [Token.placeAfter, if_neg (by omega), Place.mk.injEq]
  refine ⟨by omega, by omega, ?_⟩
  split <;> omega

/-- The word itself stays where it starts. -/
theorem Token.afterReplacing_self (hstart : t.startPlace = p) (hstop : t.stopPlace = p.past t.text)
    (hpos : t.start < t.stop) : t.afterReplacing word t = Piece.tokenAt p t.kind word := by
  have hkept : t.placeAfter word t.startPlace = p := (if_pos hpos).trans hstart
  rw [Token.afterReplacing, hkept, hstop, Token.placeAfter_of_moved ht hword hstop (.refl _ _), if_pos rfl]
  rfl

/-- The tokens behind the old word are those behind the new one, moved. -/
theorem Piece.map_place_afterReplacing (hstop : t.stopPlace = p.past t.text) (hpos : t.start < t.stop)
    (back : List Piece) :
    (place (p.past t.text) back).map (t.afterReplacing word) = place (p.past word) back := by
  have hbehind : ∀ {u v : Token}, u.Moved (p.past t.text) (p.past word) v → t.afterReplacing word u = v := by
    intro u v h
    have hlater : u.start ≠ t.start := by
      have hle := h.start.offset_le
      rw [← hstop] at hle
      exact Nat.ne_of_gt (Nat.lt_of_lt_of_le hpos hle)
    rw [Token.afterReplacing, Token.placeAfter_of_moved ht hword hstop h.start,
      Token.placeAfter_of_moved ht hword hstop h.stop, if_neg hlater, ← h.kind, ← h.text]
    rfl
  rw [← List.forall₂_eq_eq_eq, List.forall₂_map_left_iff]
  exact (place_moved _ _ back).imp fun u v => hbehind

end

/-- A token that is over before the word stays as it is. -/
theorem Token.afterReplacing_of_before {t u : Token} (hpos : u.start < u.stop) (hstop : u.stop ≤ t.start)
    (ht : t.start < t.stop) (word : Text) : t.afterReplacing word u = u := by
  have hkept : ∀ p : Place, p.offset ≤ t.start → t.placeAfter word p = p := fun p hp =>
    if_pos (Nat.lt_of_le_of_lt hp ht)
  rw [Token.afterReplacing, hkept u.startPlace (by simp only [Token.startPlace]; omega), hkept u.stopPlace hstop,
    if_neg (by omega)]
  rfl

/-! ## Names -/

/-- A name has no line feed. -/
theorem Lexeme.IsName.noLineFeed {name : Text} (h : Lexeme.IsName name) : .scalar '\n' ∉ name := fun hmem =>
  absurd (h.2.1 _ hmem) (by decide)

/-- A name with a letter or an underscore in front starts with a word, which one with a dollar sign does not. -/
theorem Lexeme.IsName.startsWord {name rest : Text} {c : Char} (h : Lexeme.IsName name)
    (hname : name = .scalar c :: rest) (hc : c = '_' ∨ Letter.isLetter c = true) : Lexeme.StartsWord name := by
  obtain ⟨⟨g, more, rfl, hg, hdigit⟩, -⟩ := h
  obtain ⟨rfl, -⟩ := List.cons.inj hname
  refine ⟨_, _, rfl, ?_⟩
  have hdollar : (Glyph.scalar c != .scalar '$') = true := by
    rw [bne_iff_ne]
    rintro heq
    obtain rfl := Glyph.scalar.inj heq
    exact absurd hc (by decide)
  rw [Lexeme.opensWord, hg, hdigit, hdollar]
  rfl

/-- The pieces of a text in which one identifier has been replaced. -/
theorem Piece.ofText_replaced {lineStart : Bool} {front back : List Piece} {name word : Text}
    (h : ofText lineStart (join (front ++ .lexeme .identifier name :: back)) =
      front ++ .lexeme .identifier name :: back)
    (hname : Lexeme.StartsWord name) (hword : Lexeme.StartsWord word) (hnew : Lexeme.IsName word)
    (hquote : Lexeme.joinsQuote word (join back) = false) :
    ofText lineStart (join front ++ (word ++ join back)) = front ++ .lexeme .identifier word :: back := by
  have hextends : ∀ {t : Text}, Lexeme.StartsWord t → Lexeme.StartsWord (t ++ join back) := by
    rintro _ ⟨g, more, rfl, hg⟩
    exact ⟨g, more ++ join back, rfl, hg⟩
  obtain ⟨-, hlead, hback⟩ := ofText_eq_cons_iff.mp (ofText_eq_append h)
  obtain ⟨-, hend, -⟩ := leads_identifier_iff.mp hlead
  -- the new word ends where the old one did, since what is behind it is no part of a word
  have hleads : Leads (front.foldl lineStartPast lineStart) (.lexeme .identifier word) (join back) :=
    leads_identifier_iff.mpr ⟨hnew, hend, hquote⟩
  rw [ofText_append_term h (hextends hname).term (hextends hword).term fun _ _ _ _ => hextends hname]
  exact congrArg (front ++ ·) ((ofText_of_leads hleads).trans (congrArg _ hback))

/-- A token stands between the pieces in front of it and those behind it. -/
theorem exists_pieces_around {source : Text} {t : Token} (ht : t ∈ tokens source) :
    ∃ front back, Piece.ofText true source = front ++ .lexeme t.kind t.text :: back ∧
      source.take t.start = Piece.join front ∧ source.drop t.stop = Piece.join back ∧
      t = Piece.tokenAt (Place.start.past (Piece.join front)) t.kind t.text := by
  obtain ⟨front, back, hps, htoken⟩ := Piece.exists_place_of_mem ht
  have hstart : t.start = (Piece.join front).length :=
    (congrArg Token.start htoken).trans (Piece.offset_past_start _)
  have hstop : t.stop = (Piece.join front ++ t.text).length := by
    rw [← Piece.offset_past_start, Place.past_append]
    exact congrArg Token.stop htoken
  have hsource : source = Piece.join front ++ t.text ++ Piece.join back := by
    rw [← Piece.join_ofText true source, hps, Piece.join_append, Piece.join_cons, List.append_assoc]
    rfl
  refine ⟨front, back, hps, ?_, ?_, htoken⟩
  · rw [hsource, hstart, List.append_assoc, List.take_left]
  · rw [hsource, hstop, List.drop_left]

/-- When an identifier that starts with a letter or an underscore is replaced by another word of ASCII, which is no
keyword and joins no quote right behind it, the tokens are the old ones with the new word in its place, and what is
behind it moves with its end. -/
theorem tokens_replaced {source : Text} {t : Token} (ht : t ∈ tokens source) (hkind : t.kind = .identifier)
    {c : Char} {more : Text} (hfirst : t.text = .scalar c :: more) (hc : c = '_' ∨ Letter.isLetter c = true)
    {word : Text} (hword : Style.isIdentifier word = true) (hkey : Keyword.ofText? word = none)
    (hquote : Lexeme.joinsQuote word (source.drop t.stop) = false) :
    tokens (source.take t.start ++ word ++ source.drop t.stop) = (tokens source).map (t.afterReplacing word) := by
  obtain ⟨hnew, hopens⟩ := Style.isName_of_isIdentifier hword hkey
  have hold := isName_text ht hkind
  have hpos := start_lt_stop ht
  obtain ⟨front, back, hps, hbefore, hafter, htoken⟩ := exists_pieces_around ht
  have hstart : t.startPlace = Place.start.past (Piece.join front) := congrArg Token.startPlace htoken
  have hstop : t.stopPlace = (Place.start.past (Piece.join front)).past t.text := congrArg Token.stopPlace htoken
  -- the word itself and what is behind it, in the old text and in the new one
  have hself := Token.afterReplacing_self hold.noLineFeed hnew.noLineFeed hstart hstop hpos
  have hbehind := Piece.map_place_afterReplacing hold.noLineFeed hnew.noLineFeed hstop hpos back
  rw [hkind] at hps htoken hself
  rw [hafter] at hquote
  have hcut : Piece.ofText true (Piece.join front ++ (word ++ Piece.join back)) =
      front ++ .lexeme .identifier word :: back :=
    Piece.ofText_replaced (by rw [← hps, Piece.join_ofText]) (hold.startsWord hfirst hc) hopens hnew hquote
  have htokens : tokens source = Piece.place .start front ++
      t :: Piece.place ((Place.start.past (Piece.join front)).past t.text) back := by
    rw [tokens, hps, Piece.place_append, Piece.place_lexeme, ← htoken]
  -- what is in front of the word is over before it starts
  have hfront : (Piece.place .start front).map (t.afterReplacing word) = Piece.place .start front := by
    have hkept : ∀ u ∈ Piece.place .start front, t.afterReplacing word u = id u := by
      intro u hu
      have hmem : u ∈ tokens source := htokens ▸ List.mem_append_left _ hu
      have hover := (List.pairwise_append.mp (htokens ▸ tokens_ordered source)).2.2 u hu t List.mem_cons_self
      exact Token.afterReplacing_of_before (start_lt_stop hmem) hover hpos word
    rw [List.map_congr_left hkept, List.map_id]
  rw [htokens, List.map_append, List.map_cons, hfront, hself, hbehind, hbefore, hafter, tokens, List.append_assoc,
    hcut, Piece.place_append, Piece.place_lexeme]

/-- A name between a number and a quote, with another one in its place. -/
theorem tokens_replaced_betweenLiterals :
    { kind := .identifier, text := Text.ofString "x", start := 4, stop := 5, line := 1, column := 5, endLine := 1
      endColumn := 6 : Token } ∈ tokens (Text.ofString "1e3+x\"\";") ∧
      tokens (Text.ofString "1e3+value\"\";") =
        (tokens (Text.ofString "1e3+x\"\";")).map (Token.afterReplacing
          { kind := .identifier, text := Text.ofString "x", start := 4, stop := 5, line := 1, column := 5
            endLine := 1, endColumn := 6 } (Text.ofString "value")) := by
  have hmem : { kind := .identifier, text := Text.ofString "x", start := 4, stop := 5, line := 1, column := 5
                endLine := 1, endColumn := 6 : Token } ∈ tokens (Text.ofString "1e3+x\"\";") := by decide +kernel
  have hword : Style.isIdentifier (Text.ofString "value") = true := by decide
  exact ⟨hmem, tokens_replaced hmem rfl rfl (.inr (by decide)) hword (by decide +kernel) (by decide +kernel)⟩

end HouseStyle
