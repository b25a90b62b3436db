import HouseStyle.Proofs.CarriageReturns
import HouseStyle.Proofs.Renaming
import HouseStyle.Proofs.TokenPlaces

/-!
# Tokens do not depend on how lines end, but for continued literals

A text whose lines end in a carriage return and a line feed should be read like the text whose lines end in a line
feed alone: the same tokens on the same lines. It is, unless a quoted literal is open at the end of a line. Such a
literal goes on below if a backslash stands there, or else ends in front of the line feed; with carriage returns it
ends behind the carriage return in both cases.

- `Lexeme.keepsLine`: what may not happen to a token, told from the text with line feeds alone.
- `Lexeme.exists_stretched`: how the token at the front of a text goes on with carriage returns.
- `Piece.forall₂_place_iff`: the run, by induction over the pieces. As long as tokens keep to their lines the two
  texts are read in step; the first one that does not is another token.
- `tokens_withReturns_iff`: the tokens of the two texts, exactly.
-/

namespace HouseStyle

namespace Lexeme

open Text

/-! ## Literals and directives that keep to their lines -/

/-- The quote and what stands behind it, if a text starts with a quoted literal. A raw string is one only if it has
no delimiter. -/
def quoted? (t : Text) : Option (Glyph × Text) :=
  let name := t.takeWhile continuesWord
  match t.dropWhile continuesWord with
  | [] => none
  | g :: inner =>
    if g = .scalar '"' && (rawStringLeads.map Text.ofString).contains name then
      if (rawDelimiter? (maxDelimiter + 1) inner).isSome then none else some (g, inner)
    else if isQuote g && (name.isEmpty || (stringLeads.map Text.ofString).contains name) then some (g, inner)
    else none

/-- Whether a token, of which the kind and the text from its start on are given, does not come to an end otherwise if
quoted literals have to end in their lines: a quoted literal is not open at the end of its line, and a directive is as
long as if the literals in it were over there. -/
def keepsLine (kind : TokenKind) (t : Text) : Bool :=
  match kind with
  | .literal =>
    match quoted? t with
    | some (quote, inner) => !(inLine quote inner).2
    | none => true
  | .directive => directiveTailInLine t.tail == directiveTail t.tail
  | _ => true

/-- The token at the front of a text, with carriage returns: it covers the first `m` glyphs of the text, and the
carriage return behind them if it is `cut` at the end of a line. -/
structure Stretched (lineStart : Bool) (t : Text) (m : Nat) (cut : Bool) : Prop where
  leading_eq : leading lineStart t.withReturns = ((leading lineStart t).1, stretch t m + cut.toNat)
  le_length : m ≤ t.length
  newline : cut = true → (t.drop m).head? = some (.scalar '\n')
  keeps_iff : m = (leading lineStart t).2 ∧ cut = false ↔ keepsLine (leading lineStart t).1 t = true

/-- A token that goes as far with carriage returns. -/
theorem Stretched.whole {lineStart : Bool} {t : Text} (h : t ≠ [])
    (hleading : leading lineStart t.withReturns = ((leading lineStart t).1, stretch t (leading lineStart t).2))
    (hkeeps : keepsLine (leading lineStart t).1 t = true) :
    Stretched lineStart t (leading lineStart t).2 false := by
  obtain ⟨g, rest, rfl⟩ := List.exists_cons_of_ne_nil h
  exact ⟨hleading, length_leading_le lineStart g rest, fun h => absurd h (by decide), by simp [hkeeps]⟩

/-- A quoted literal behind its prefix. -/
theorem Stretched.quoted {lineStart : Bool} {lead inner : Text} {quote : Glyph}
    (hlead : .scalar '\n' ∉ lead) (hquote : isQuote quote = true)
    (hold : leading lineStart (lead ++ quote :: inner) = (.literal, lead.length + 1 + quotedTail quote inner))
    (hnew : leading lineStart (lead ++ quote :: inner.withReturns) =
      (.literal, lead.length + 1 + quotedTail quote inner.withReturns))
    (hquoted : quoted? (lead ++ quote :: inner) = some (quote, inner)) :
    Stretched lineStart (lead ++ quote :: inner) (lead.length + 1 + (inLine quote inner).1)
      (inLine quote inner).2 := by
  have hn := ne_of_isQuote hquote (c := '\n') (by decide)
  have hr := ne_of_isQuote hquote (c := '\r') (by decide)
  obtain ⟨hle, -, hopen, hclosed⟩ := inLine_spec hn inner
  have hstretch : stretch (lead ++ quote :: inner) (lead.length + 1 + (inLine quote inner).1) =
      lead.length + 1 + (inLine quote inner).1 := by
    rw [Nat.add_assoc, stretch_append hlead, stretch_cons hn, stretch_inLine hn]
  refine ⟨?_, ?_, ?_, ?_⟩
  · rw [withReturns_append, withReturns_of_line hlead, withReturns_cons hn, hnew, hold, quotedTail_withReturns hr hn,
      hstretch, ← Nat.add_assoc]
  · simp only [List.length_append, List.length_cons]
    omega
  · intro h
    rw [Nat.add_assoc, List.drop_length_add_append, Nat.add_comm 1, List.drop_succ_cons]
    exact hopen h
  · rw [hold]
    simp only [keepsLine, hquoted, Bool.not_eq_true']
    exact ⟨fun h => h.2, fun h => ⟨by rw [hclosed h], h⟩⟩

/-! ## The token at the front of a text -/

/-- No prefix of a literal starts with a digit. -/
theorem not_isDigit_of_mem_leads {g : Glyph} {name : Text}
    (h : g :: name ∈ (rawStringLeads ++ stringLeads).map Text.ofString) : isDigit g = false := by
  have hall : ∀ lead ∈ (rawStringLeads ++ stringLeads).map Text.ofString,
      (lead.head?.map isDigit).getD true = false := by decide
  exact hall _ h

/-- A text that starts with a number starts with no quoted literal. -/
theorem quoted?_number {g : Glyph} {rest : Text} (h : isDigit g = true ∨ g = .scalar '.') :
    quoted? (g :: rest) = none := by
  have hquote : isQuote g = false := by
    rw [Bool.eq_false_iff]
    intro hq
    rcases h with h | rfl
    · simp only [isQuote, Bool.or_eq_true, beq_iff_eq] at hq
      rcases hq with rfl | rfl <;> exact absurd h (by decide)
    · exact absurd hq (by decide)
  have hne : g ≠ .scalar '"' := by
    rintro rfl
    exact absurd hquote (by decide)
  unfold quoted?
  by_cases hg : continuesWord g = true
  · have hdigit : isDigit g = true := by
      refine h.resolve_right ?_
      rintro rfl
      exact absurd hg (by decide)
    have hlead : ∀ {leads : List String} {name : Text}, leads ⊆ rawStringLeads ++ stringLeads →
        (leads.map Text.ofString).contains (g :: name) = false := by
      intro leads name hsub
      rw [Bool.eq_false_iff]
      intro hc
      have hmem := List.map_subset Text.ofString hsub (List.contains_iff_mem.mp hc)
      rw [not_isDigit_of_mem_leads hmem] at hdigit
      exact absurd hdigit (by decide)
    rw [List.takeWhile_cons, if_pos hg, List.dropWhile_cons, if_pos hg]
    dsimp only
    rw [hlead (List.subset_append_left _ _), hlead (List.subset_append_right _ _)]
    split
    · rfl
    · simp
  · rw [List.takeWhile_cons, if_neg hg, List.dropWhile_cons, if_neg hg]
    simp [hne, hquote]

/-- A text that starts with a quote starts with a quoted literal. -/
theorem quoted?_quote {g : Glyph} {rest : Text} (h : isQuote g = true) : quoted? (g :: rest) = some (g, rest) := by
  have hg : continuesWord g = false := by
    simp only [isQuote, Bool.or_eq_true, beq_iff_eq] at h
    rcases h with rfl | rfl <;> decide
  unfold quoted?
  rw [List.takeWhile_cons, List.dropWhile_cons, hg]
  simp only [Bool.false_eq_true, if_false]
  rw [if_neg, if_pos]
  · rw [h]
    rfl
  · have hempty : (rawStringLeads.map Text.ofString).contains [] = false := by decide
    rw [hempty, Bool.and_false]
    exact Bool.false_ne_true

/-- A literal that starts with a word and a quote, with carriage returns: a raw string ends at the same glyph, unless
it has no delimiter and is an ordinary one. -/
theorem exists_stretched_prefixed {lineStart : Bool} {name inner : Text} {quote : Glyph}
    (ht : .scalar '\r' ∉ name ++ quote :: inner) (hname : ∀ g ∈ name, continuesWord g = true)
    (hquote : isQuote quote = true)
    (hleading : ∀ u : Text, leading lineStart (name ++ quote :: u) = word (name ++ quote :: u))
    (hlead : (quote = .scalar '"' && (rawStringLeads.map Text.ofString).contains name) = true ∨
      (stringLeads.map Text.ofString).contains name = true) :
    ∃ m cut, Stretched lineStart (name ++ quote :: inner) m cut := by
  have hn : .scalar '\n' ∉ name := fun h => absurd (hname _ h) (by decide)
  have hqn := ne_of_isQuote hquote (c := '\n') (by decide)
  have hinner : .scalar '\r' ∉ inner := fun h => ht (by simp [h])
  have hstop : continuesWord quote = false := by
    simp only [isQuote, Bool.or_eq_true, beq_iff_eq] at hquote
    rcases hquote with rfl | rfl <;> decide
  have htake : ∀ u : Text, (name ++ quote :: u).takeWhile continuesWord = name := by
    intro u
    rw [List.takeWhile_append_of_pos hname, List.takeWhile_cons, hstop]
    simp
  have hdrop : ∀ u : Text, (name ++ quote :: u).dropWhile continuesWord = quote :: u := by
    intro u
    rw [List.dropWhile_append_of_pos hname, List.dropWhile_cons, hstop]
    simp
  have hnew : withReturns (name ++ quote :: inner) = name ++ quote :: inner.withReturns := by
    rw [withReturns_append, withReturns_of_line hn, withReturns_cons hqn]
  by_cases hraw : (quote = .scalar '"' && (rawStringLeads.map Text.ofString).contains name) = true
  · -- whether there is a delimiter is the same in both texts
    have hword : ∀ u : Text, leading lineStart (name ++ quote :: u) =
        (.literal, name.length + 1 + rawStringTail u) := by
      intro u
      rw [hleading, word, htake, hdrop]
      simp only [hraw, if_true]
    have hquoted : quoted? (name ++ quote :: inner) =
        if (rawDelimiter? (maxDelimiter + 1) inner).isSome then none else some (quote, inner) := by
      rw [quoted?, htake, hdrop]
      simp only [hraw, if_true]
    by_cases hd : rawDelimiter? (maxDelimiter + 1) inner = none
    · rw [hd] at hquoted
      have hq : quote = .scalar '"' := by simpa using (Bool.and_eq_true_iff.mp hraw).1
      refine ⟨_, _, .quoted hn hquote ?_ ?_ hquoted⟩
      · rw [hword, rawStringTail, hd, hq]
      · rw [hword, rawStringTail, rawDelimiter_withReturns, hd, hq]
        rfl
    · refine ⟨_, false, .whole (by simp) ?_ ?_⟩
      · rw [hnew, hword, hword, rawStringTail_withReturns hinner hd, Nat.add_assoc, Nat.add_assoc,
          stretch_append hn, stretch_cons hqn]
      · rw [hword, keepsLine, hquoted, if_pos (Option.isSome_iff_ne_none.mpr hd)]
  · have hlead := hlead.resolve_left hraw
    have hword : ∀ u : Text, leading lineStart (name ++ quote :: u) =
        (.literal, name.length + 1 + quotedTail quote u) := by
      intro u
      rw [hleading, word, htake, hdrop]
      simp only [if_neg hraw, hquote, hlead, Bool.and_self, if_true]
    have hquoted : quoted? (name ++ quote :: inner) = some (quote, inner) := by
      rw [quoted?, htake, hdrop]
      simp only [if_neg hraw, hquote, hlead, Bool.or_true, Bool.and_self, if_true]
    exact ⟨_, _, .quoted hn hquote (hword inner) (hword inner.withReturns) hquoted⟩

/-- A word that joins no quote is a keyword or an identifier. -/
theorem word_plain {t : Text} (h : joinsQuote (t.takeWhile continuesWord) (t.dropWhile continuesWord) = false) :
    word t = (((Keyword.ofText? (t.takeWhile continuesWord)).map TokenKind.keyword).getD .identifier,
      (t.takeWhile continuesWord).length) := by
  unfold word
  dsimp only
  cases hrest : t.dropWhile continuesWord with
  | nil => cases Keyword.ofText? (t.takeWhile continuesWord) <;> rfl
  | cons g inner =>
    rw [hrest] at h
    simp only [joinsQuote, Bool.or_eq_false_iff] at h
    dsimp only
    rw [if_neg (by rw [h.1]; decide), if_neg (by rw [h.2]; decide)]
    cases Keyword.ofText? (t.takeWhile continuesWord) <;> rfl

/-- A line end joins no word. -/
theorem joinsQuote_withReturns (name t : Text) : joinsQuote name t.withReturns = joinsQuote name t := by
  cases t using line_rec with
  | nil => rfl
  | newline t => rfl
  | glyph g t hg =>
    rw [withReturns_cons hg]
    rfl

/-- A word, with carriage returns. -/
theorem exists_stretched_word {lineStart : Bool} {g : Glyph} {rest : Text} (ht : .scalar '\r' ∉ g :: rest)
    (hg : startsWord g = true) (hd : isDigit g = false) : ∃ m cut, Stretched lineStart (g :: rest) m cut := by
  have hn : g ≠ .scalar '\n' := by
    rintro rfl
    exact absurd hg (by decide)
  have hword : ∀ u : Text, leading lineStart (g :: u) = word (g :: u) := fun u => leading_startsWord hg hd
  have hsplit := List.takeWhile_append_dropWhile (p := continuesWord) (l := g :: rest)
  have hname : ∀ a ∈ (g :: rest).takeWhile continuesWord, continuesWord a = true :=
    List.all_eq_true.mp List.all_takeWhile
  have htake := takeWhile_withReturns (p := continuesWord) (by decide) (by decide) (g :: rest)
  have hdrop := dropWhile_withReturns (p := continuesWord) (by decide) (by decide) (g :: rest)
  by_cases hjoin : joinsQuote ((g :: rest).takeWhile continuesWord) ((g :: rest).dropWhile continuesWord) = true
  · obtain ⟨quote, inner, hrest⟩ : ∃ quote inner, (g :: rest).dropWhile continuesWord = quote :: inner := by
      cases h : (g :: rest).dropWhile continuesWord with
      | nil => exact absurd (h ▸ hjoin) (by simp [joinsQuote])
      | cons quote inner => exact ⟨quote, inner, rfl⟩
    rw [hrest] at hjoin hsplit
    simp only [joinsQuote, Bool.or_eq_true] at hjoin
    have hquote : isQuote quote = true := by
      rcases hjoin with h | h
      · have hq : quote = .scalar '"' := by simpa using (Bool.and_eq_true_iff.mp h).1
        rw [hq]
        decide
      · exact (Bool.and_eq_true_iff.mp h).1
    rw [← hsplit] at ht ⊢
    refine exists_stretched_prefixed ht hname hquote ?_ (hjoin.imp_right fun h => (Bool.and_eq_true_iff.mp h).2)
    intro u
    rw [List.takeWhile_cons, if_pos (continuesWord_of_startsWord hg), List.cons_append]
    exact hword _
  · have hjoin := Bool.eq_false_iff.mpr hjoin
    have hjoin' : joinsQuote ((withReturns (g :: rest)).takeWhile continuesWord)
        ((withReturns (g :: rest)).dropWhile continuesWord) = false := by
      rw [htake, hdrop, joinsQuote_withReturns, hjoin]
    have hold := (hword rest).trans (word_plain hjoin)
    have hnew := word_plain hjoin'
    rw [withReturns_cons hn, ← hword, ← withReturns_cons hn, htake] at hnew
    have hstretch : stretch (g :: rest) ((g :: rest).takeWhile continuesWord).length =
        ((g :: rest).takeWhile continuesWord).length := by
      have h := stretch_append (u := (g :: rest).takeWhile continuesWord)
        (fun h => absurd (hname _ h) (by decide)) ((g :: rest).dropWhile continuesWord) 0
      rwa [hsplit, stretch_zero] at h
    -- the line end behind the word, if there is one, is not part of it
    refine ⟨_, false, .whole (by simp) ?_ ?_⟩
    · rw [hnew, hold, hstretch]
    · rw [hold]
      cases Keyword.ofText? ((g :: rest).takeWhile continuesWord) <;> rfl

/-- The token at the front of a text goes on with carriage returns as it does without them, but it may end in the line
in which a quoted literal is open. -/
theorem exists_stretched (lineStart : Bool) {g : Glyph} {rest : Text} (ht : .scalar '\r' ∉ g :: rest)
    (hn : g ≠ .scalar '\n') : ∃ m cut, Stretched lineStart (g :: rest) m cut := by
  have hrest : .scalar '\r' ∉ rest := fun h => ht (List.mem_cons_of_mem g h)
  by_cases hd : g = .scalar '#' ∧ lineStart = true
  · -- a directive is never cut: its trailing carriage return is taken off
    obtain ⟨rfl, rfl⟩ := hd
    refine ⟨1 + directiveTailInLine rest, false, ?_, ?_, fun h => absurd h (by decide), ?_⟩
    · rw [withReturns_cons hn, leading_directive, leading_directive, directiveTail_withReturns hrest,
        stretch_cons hn]
      rfl
    · have := directiveTailInLine_le rest
      simp only [List.length_cons]
      omega
    · rw [leading_directive]
      simp [keepsLine]
  rcases comment_cases g rest with ⟨more, rfl, rfl⟩ | ⟨more, rfl, rfl⟩ | hplain
  · have hmore : .scalar '\r' ∉ more := fun h => hrest (List.mem_cons_of_mem _ h)
    refine ⟨_, false, .whole (by simp) ?_ ?_⟩
    · rw [withReturns_cons (by decide), withReturns_cons (by decide), leading_lineComment, leading_lineComment,
        lineCommentTail_withReturns hmore, stretch_two (by decide) (by decide)]
    · rw [leading_lineComment]
      rfl
  · refine ⟨_, false, .whole (by simp) ?_ ?_⟩
    · rw [withReturns_cons (by decide), withReturns_cons (by decide), leading_blockComment, leading_blockComment,
        blockCommentTail_withReturns, stretch_two (by decide) (by decide)]
    · rw [leading_blockComment]
      rfl
  have hold := leading_plain hd hplain
  have hnew := leading_plain hd (opensNoComment_withReturns hplain)
  rw [map_head?_withReturns (by decide)] at hnew
  by_cases hnumber : (isDigit g || (g == .scalar '.' && (rest.head?.map isDigit).getD false)) = true
  · -- a number holds no line feed, and is as long as before
    rw [if_pos hnumber] at hold hnew
    refine ⟨_, false, .whole (by simp) ?_ ?_⟩
    · rw [withReturns_cons hn, hnew, hold, numberTail_withReturns, stretch_cons hn]
    · rw [hold, keepsLine, quoted?_number]
      simp only [Bool.or_eq_true, Bool.and_eq_true, beq_iff_eq] at hnumber
      exact hnumber.imp_right And.left
  rw [if_neg hnumber] at hold hnew
  by_cases hword : startsWord g = true
  · have hdigit : isDigit g = false := by
      simp only [Bool.or_eq_true, not_or] at hnumber
      exact Bool.eq_false_iff.mpr hnumber.1
    exact exists_stretched_word ht hword hdigit
  rw [if_neg hword] at hold hnew
  by_cases hquote : isQuote g = true
  · rw [if_pos hquote] at hold hnew
    have hlead : Glyph.scalar '\n' ∉ ([] : Text) := List.not_mem_nil
    exact ⟨_, _, Stretched.quoted hlead hquote (by rw [List.nil_append, hold]; simp)
      (by rw [List.nil_append, hnew]; simp) (quoted?_quote hquote)⟩
  rw [if_neg hquote] at hold hnew
  refine ⟨_, false, .whole (by simp) ?_ ?_⟩
  · have hsymbol := symbol_withReturns hn rest
    rw [withReturns_cons hn] at hsymbol ⊢
    rw [hnew, hold, hsymbol]
  · rw [hold]
    unfold symbol
    split <;> rfl

end Lexeme

/-- Two tokens are the same up to how the lines of their text end, wherever in their lines they stand. -/
structure Token.SameButLineEnds (a b : Token) : Prop where
  kind : b.kind = a.kind
  line : b.line = a.line
  endLine : b.endLine = a.endLine
  text : Text.withoutReturns b.text = a.text

instance (a b : Token) : Decidable (a.SameButLineEnds b) :=
  decidable_of_iff (b.kind = a.kind ∧ b.line = a.line ∧ b.endLine = a.endLine ∧ Text.withoutReturns b.text = a.text)
    ⟨fun h => ⟨h.1, h.2.1, h.2.2.1, h.2.2.2⟩, fun h => ⟨h.kind, h.line, h.endLine, h.text⟩⟩

namespace Piece

open Text

/-! ## Pieces -/

/-- Every token among some pieces keeps to its line. -/
def KeepLines : List Piece → Prop
  | [] => True
  | .gap _ :: ps => KeepLines ps
  | .lexeme kind s :: ps => Lexeme.keepsLine kind (s ++ join ps) = true ∧ KeepLines ps

theorem count_withReturns (t : Text) : t.withReturns.count (.scalar '\n') = t.count (.scalar '\n') := by
  induction t using line_rec with
  | nil => rfl
  | newline t ih => simp [ih]
  | glyph g t hg ih => rw [withReturns_cons hg, List.count_cons, List.count_cons, ih]

/-- A comment starts a line anew in both texts or in neither. -/
theorem lineStartAfter_withReturns (lineStart : Bool) (kind : TokenKind) (t : Text) :
    lineStartAfter lineStart kind t.withReturns = lineStartAfter lineStart kind t := by
  have hany : ∀ u : Text, u.any (· == .scalar '\n') = decide (0 < u.count (.scalar '\n')) := by
    intro u
    rw [Bool.eq_iff_iff, decide_eq_true_iff, List.count_pos_iff]
    simp
  unfold lineStartAfter
  rw [hany, hany, count_withReturns]

/-- A gap, with carriage returns. -/
theorem place_gap_withReturns {lineStart : Bool} {s rest : Text} (ht : .scalar '\r' ∉ s ++ rest)
    (hlead : Leads lineStart (.gap s) rest) (p : Place) :
    place p (ofText lineStart (withReturns (s ++ rest))) =
      place (p.past s.withReturns) (ofText (lineStartPast lineStart (.gap s)) rest.withReturns) := by
  by_cases hs : s = [.scalar '\n']
  · -- the carriage return is a gap of its own
    subst hs
    rw [withReturns_append, withReturns_newline, List.cons_append, List.cons_append,
      ofText_spacing (by decide) (by decide), withReturns_nil, List.nil_append, ofText_newline]
    rfl
  · have hs' : s.withReturns ≠ [.scalar '\n'] := by
      intro h
      cases s using line_rec with
      | nil => exact absurd h (by simp)
      | newline s => exact absurd h (by simp)
      | glyph g s hg =>
        rw [withReturns_cons hg] at h
        exact hg (List.cons.inj h).1
    have hlead' : Leads lineStart (.gap s.withReturns) rest.withReturns := by
      rcases hlead with h | ⟨g, rfl, hn, hg⟩ | ⟨hpos, hlen⟩
      · exact absurd h hs
      · rw [withReturns_cons hn]
        exact Or.inr (Or.inl ⟨g, rfl, hn, hg⟩)
      · have hsplice := Lexeme.spliceLength_withReturns ht
        rw [← hlen, stretch, List.take_left, withReturns_append] at hsplice
        refine Or.inr (Or.inr ⟨?_, hsplice.symm⟩)
        rw [List.length_pos_iff, ne_eq, withReturns_eq_nil]
        exact List.length_pos_iff.mp hpos
    have hcut := ofText_of_leads hlead'
    simp only [text, lineStartPast, if_neg hs'] at hcut
    rw [withReturns_append, hcut, lineStartPast, if_neg hs]
    rfl

/-- A token, with carriage returns: it covers the same text if it keeps to its line, and otherwise does not. -/
theorem exists_lexeme_withReturns {lineStart : Bool} {kind : TokenKind} {s rest : Text}
    (ht : .scalar '\r' ∉ s ++ rest) (hlead : Leads lineStart (.lexeme kind s) rest) :
    ∃ s' rest', ofText lineStart (withReturns (s ++ rest)) =
        .lexeme kind s' :: ofText (lineStartAfter lineStart kind s') rest' ∧
      (Lexeme.keepsLine kind (s ++ rest) = true → s' = s.withReturns ∧ rest' = rest.withReturns) ∧
      (withoutReturns s' = s → Lexeme.keepsLine kind (s ++ rest) = true) := by
  obtain ⟨g, more, rfl, hn, hg, hsplice, hleading⟩ := hlead
  rw [List.cons_append] at hsplice hleading ht ⊢
  obtain ⟨m, cut, hstretched⟩ := Lexeme.exists_stretched lineStart ht hn
  obtain ⟨heq, hle, hnewline, hkeeps⟩ := hstretched
  rw [hleading] at heq hkeeps
  have hsplice' := Lexeme.spliceLength_withReturns ht
  rw [hsplice, stretch_zero, withReturns_cons hn] at hsplice'
  refine ⟨(withReturns (g :: (more ++ rest))).take (stretch (g :: (more ++ rest)) m + cut.toNat),
    (withReturns (g :: (more ++ rest))).drop (stretch (g :: (more ++ rest)) m + cut.toNat), ?_, ?_, ?_⟩
  · rw [withReturns_cons hn] at heq ⊢
    rw [ofText, if_neg hn, if_neg (by simp [hg]), if_neg (by omega), heq]
  · intro h
    obtain ⟨rfl, rfl⟩ := hkeeps.mpr h
    rw [Bool.toNat_false, Nat.add_zero, take_withReturns, drop_withReturns, ← List.cons_append, List.take_left,
      List.drop_left]
    exact ⟨rfl, rfl⟩
  · intro h
    have hclean : .scalar '\r' ∉ (g :: (more ++ rest)).take m := fun hm => ht (List.mem_of_mem_take hm)
    cases cut with
    | true =>
      -- the text of the new token ends in a carriage return, and that of the old one has none
      rw [Bool.toNat_true, take_withReturns_succ (hnewline rfl), withoutReturns_withReturns hclean] at h
      have hreturn : .scalar '\r' ∈ g :: more := by
        rw [← h]
        simp [withoutReturns]
      exact absurd (List.mem_append_left rest hreturn) ht
    | false =>
      have hwhole := withoutReturns_withReturns hclean []
      rw [withoutReturns, List.append_nil, List.append_nil] at hwhole
      rw [Bool.toNat_false, Nat.add_zero, take_withReturns, hwhole] at h
      have hlength := congrArg List.length h
      rw [List.length_take, Nat.min_eq_left hle] at hlength
      exact hkeeps.mp ⟨hlength, rfl⟩

/-- The tokens of both texts are the same up to how lines end exactly if each of them keeps to its line. -/
theorem forall₂_place_iff {lineStart : Bool} {t : Text} {p p' : Place} (ht : .scalar '\r' ∉ t)
    (hp : p'.line = p.line) :
    List.Forall₂ Token.SameButLineEnds (place p (ofText lineStart t)) (place p' (ofText lineStart t.withReturns)) ↔
      KeepLines (ofText lineStart t) := by
  induction hl : t.length using Nat.strongRecOn generalizing lineStart t p p' with
  | _ n ih =>
    subst hl
    cases t with
    | nil =>
      rw [withReturns_nil, ofText]
      exact iff_of_true .nil trivial
    | cons g t =>
      obtain ⟨q, rest, hsplit, hlead⟩ := exists_leads lineStart g t
      rw [hsplit] at ht ih ⊢
      have hrest : .scalar '\r' ∉ rest := fun h => ht (List.mem_append_right _ h)
      have hshorter : rest.length < (q.text ++ rest).length := by
        rw [List.length_append]
        have := List.length_pos_iff.mpr (text_ne_nil hlead)
        omega
      have hpast : ∀ s : Text, (p'.past s.withReturns).line = (p.past s).line := by
        intro s
        rw [Place.line_past, Place.line_past, hp, count_withReturns]
      rw [ofText_of_leads hlead]
      cases q with
      | gap s =>
        simp only [text] at ht ⊢
        rw [place_gap_withReturns ht hlead]
        exact ih rest.length hshorter hrest (hpast s) rfl
      | lexeme kind s =>
        simp only [text] at ht ⊢
        obtain ⟨s', rest', hcut, hkept, hkeeps⟩ := exists_lexeme_withReturns ht hlead
        rw [hcut, place_lexeme, place_lexeme, List.forall₂_cons, KeepLines, join_ofText]
        -- behind a token that keeps to its line the two texts are read on from the same glyph
        have hbelow : Lexeme.keepsLine kind (s ++ rest) = true →
            (List.Forall₂ Token.SameButLineEnds (place (p.past s) (ofText (lineStartAfter lineStart kind s) rest))
                (place (p'.past s') (ofText (lineStartAfter lineStart kind s') rest')) ↔
              KeepLines (ofText (lineStartAfter lineStart kind s) rest)) := by
          intro hkeep
          obtain ⟨rfl, rfl⟩ := hkept hkeep
          rw [lineStartAfter_withReturns]
          exact ih rest.length hshorter hrest (hpast s) rfl
        constructor
        · rintro ⟨hsame, hmore⟩
          have hkeep := hkeeps hsame.text
          exact ⟨hkeep, (hbelow hkeep).mp hmore⟩
        · rintro ⟨hkeep, hmore⟩
          refine ⟨?_, (hbelow hkeep).mpr hmore⟩
          obtain ⟨rfl, -⟩ := hkept hkeep
          have hclean : .scalar '\r' ∉ s := fun h => ht (List.mem_append_left _ h)
          have htext := withoutReturns_withReturns hclean []
          rw [withoutReturns, List.append_nil, List.append_nil] at htext
          exact ⟨rfl, hp, hpast s, htext⟩

/-- Every token of a text keeps to its line exactly if every lexeme among its pieces does. -/
theorem keepLines_iff {source : Text} (before : Text) {p : Place} {ps : List Piece}
    (hsource : source = before ++ join ps) (hp : p.offset = before.length) :
    KeepLines ps ↔ ∀ t ∈ place p ps, Lexeme.keepsLine t.kind (source.drop t.start) = true := by
  induction ps generalizing before p with
  | nil => simp [KeepLines, place]
  | cons q ps ih =>
    have hoffset : (p.past q.text).offset = (before ++ q.text).length := by
      rw [offset_past, hp, List.length_append]
    have hrest := ih (before ++ q.text) (by rw [hsource, join_cons, List.append_assoc]) hoffset
    cases q with
    | gap s => exact hrest
    | lexeme kind s =>
      have hdrop : source.drop p.offset = s ++ join ps := by
        rw [hsource, hp, List.drop_left]
        rfl
      rw [KeepLines, place_lexeme, List.forall_mem_cons, hrest]
      change _ ↔ Lexeme.keepsLine kind (source.drop p.offset) = true ∧ _
      rw [hdrop]
      rfl

end Piece

/-! ## The tokens of a text -/

/-- The tokens of a text with carriage returns are those of the text, of the same kinds and on the same lines and with
the same texts up to how their lines end, exactly if each of them keeps to its line. -/
theorem tokens_withReturns_iff {source : Text} (h : .scalar '\r' ∉ source) :
    List.Forall₂ Token.SameButLineEnds (tokens source) (tokens source.withReturns) ↔
      ∀ t ∈ tokens source, Lexeme.keepsLine t.kind (source.drop t.start) = true :=
  (Piece.forall₂_place_iff h rfl).trans
    (Piece.keepLines_iff [] (Piece.join_ofText true source).symm rfl)

/-- Directives, raw strings, block comments and splices may go on over lines. -/
theorem tokens_withReturns_several_lines :
    ∃ source : Text, source = Text.ofString
        "#define F(x) \\\n  g(x, \"x\") // f\nint a = R\"-(\\\n)-\"; /* a\n */ char c = 'c';\nfloat b\\\n = 1e+3;\n" ∧
      .scalar '\r' ∉ source ∧
      List.Forall₂ Token.SameButLineEnds (tokens source) (tokens source.withReturns) := by
  obtain ⟨source, hsource, hno, hkeeps⟩ : ∃ source : Text, source = Text.ofString
        "#define F(x) \\\n  g(x, \"x\") // f\nint a = R\"-(\\\n)-\"; /* a\n */ char c = 'c';\nfloat b\\\n = 1e+3;\n" ∧
      .scalar '\r' ∉ source ∧ ∀ t ∈ tokens source, Lexeme.keepsLine t.kind (source.drop t.start) = true := by
    refine ⟨_, rfl, ?_⟩
    rw [Text.ofString_ofList]
    decide +kernel
  exact ⟨source, hsource, hno, (tokens_withReturns_iff hno).mpr hkeeps⟩

/-- A string that a backslash continues on the next line ends in its line with carriage returns, and what is below is
read as code. -/
theorem exists_continued_literal :
    ∃ source : Text, source = Text.ofString "\"a\\\nb\";\n" ∧ .scalar '\r' ∉ source ∧
      (tokens source).map Token.kind = [.literal, .punct .semicolon] ∧
      (tokens source.withReturns).map Token.kind = [.literal, .identifier, .literal] ∧
      ¬ List.Forall₂ Token.SameButLineEnds (tokens source) (tokens source.withReturns) := by
  refine ⟨_, rfl, ?_⟩
  decide +kernel

end HouseStyle
