import HouseStyle.Proofs.CarriageReturns
import HouseStyle.Proofs.MovedTokens
import HouseStyle.Proofs.Renaming
import Mathlib.Data.List.DropRight

/-!
# What stands in comments and literals

Comments, quoted literals and raw strings each open with some text and close with another one. What stands between
the two is the body, and it may look like anything else: like the beginning of another comment or literal, or like
a part of the text that closes it. An `Enclosure` is what a body is written in, and `Enclosure.Encloses` says which
bodies it may have.

> `leads_covered`: whatever the body is, the one token that stands there goes up to the text that closes it.

So the tokens behind it are those of the text behind it, and the body decides no more than where they stand and
whether a line has been started anew in front of them.

- `tokens_enclosed`: the tokens of a text with an enclosure where a token starts.
- `enclosed_opaque`: and what another body, or another text in front, changes about the tokens behind it.
-/

namespace HouseStyle

/-! ## Bodies -/

/-- What stands between two quotes: pairs of a backslash and any glyph, and glyphs that are neither the quote nor a
backslash nor a line feed. -/
inductive QuotedBody (quote : Glyph) : Text → Prop where
  | nil : QuotedBody quote []
  | pair (g : Glyph) {t : Text} (ht : QuotedBody quote t) : QuotedBody quote (.scalar '\\' :: g :: t)
  | plain {g : Glyph} {t : Text} (hquote : g ≠ quote) (hback : g ≠ .scalar '\\') (hline : g ≠ .scalar '\n')
    (ht : QuotedBody quote t) : QuotedBody quote (g :: t)

/-- A delimiter that a raw string may have. -/
def IsDelimiter (d : Text) : Prop :=
  d.length ≤ 16 ∧ ∀ g ∈ d, g ∉ ['(', ')', ' ', '\\', '\t', '\n', '"'].map Glyph.scalar

/-- What a body is written in. A literal may have a prefix. -/
inductive Enclosure where
  | lineComment
  | blockComment
  | quoted (lead : String) (hlead : lead ∈ "" :: Lexeme.stringLeads) (mark : Char) (hmark : mark ∈ ['"', '\''])
  | raw (lead : String) (hlead : lead ∈ Lexeme.rawStringLeads) (delimiter : Text) (hdelimiter : IsDelimiter delimiter)

namespace Enclosure

/-- The text in front of the body. -/
def opening : Enclosure → Text
  | .lineComment => Text.ofString "//"
  | .blockComment => Text.ofString "/*"
  | .quoted lead _ mark _ => Text.ofString lead ++ [.scalar mark]
  | .raw lead _ delimiter _ => Text.ofString lead ++ .scalar '"' :: (delimiter ++ [.scalar '('])

/-- The text behind the body. -/
def closing : Enclosure → Text
  | .lineComment => []
  | .blockComment => Text.ofString "*/"
  | .quoted _ _ mark _ => [.scalar mark]
  | .raw _ _ delimiter _ => .scalar ')' :: delimiter ++ [.scalar '"']

/-- The bodies that may be written so. -/
def Encloses (e : Enclosure) (body : Text) : Prop :=
  match e with
  | .lineComment => .scalar '\n' ∉ body
  | .quoted _ _ mark _ => QuotedBody (.scalar mark) body
  | .blockComment | .raw _ _ _ _ => ¬ e.closing <:+: body

/-- A body with what it is written in. -/
def write (e : Enclosure) (body : Text) : Text := e.opening ++ body ++ e.closing

/-- What may stand behind: a line comment ends with its line. -/
def Allows (e : Enclosure) (rest : Text) : Prop :=
  match e with
  | .lineComment => ∀ g ∈ rest.head?, g = .scalar '\n'
  | _ => True

/-- The kind of the token. -/
def kind : Enclosure → TokenKind
  | .lineComment | .blockComment => .comment
  | .quoted _ _ _ _ | .raw _ _ _ _ => .literal

/-- The carriage returns at the end of a line comment, which do not belong to it. -/
def returns (e : Enclosure) (body : Text) : Text :=
  match e with
  | .lineComment => body.rtakeWhile (· == .scalar '\r')
  | _ => []

/-- The text of the token: all that is written, without the carriage returns at the end of a line comment. -/
def covered (e : Enclosure) (body : Text) : Text :=
  match e with
  | .lineComment => e.opening ++ body.rdropWhile (· == .scalar '\r')
  | _ => e.write body

theorem covered_append_returns (e : Enclosure) (body : Text) : e.covered body ++ e.returns body = e.write body := by
  cases e with
  | lineComment =>
    simp only [covered, returns, write, closing, List.append_nil, List.append_assoc]
    rw [List.rdropWhile, List.rtakeWhile, ← List.reverse_append, List.takeWhile_append_dropWhile,
      List.reverse_reverse]
  | _ => exact List.append_nil _

end Enclosure

/-! ## How far the shapes go -/

namespace Lexeme

/-- A quoted literal ends with the quote behind its body. -/
theorem quotedTail_body {quote : Glyph} (hquote : isQuote quote = true) {body : Text} (h : QuotedBody quote body)
    (rest : Text) : quotedTail quote (body ++ quote :: rest) = body.length + 1 := by
  have hback := ne_of_isQuote hquote (c := '\\') (by decide)
  have hline := ne_of_isQuote hquote (c := '\n') (by decide)
  induction h with
  | nil => rw [List.nil_append, quotedTail_plain hback hline, if_pos rfl]; rfl
  | pair g _ ih =>
    rw [List.cons_append, List.cons_append, quotedTail_cons, if_pos rfl, ih, List.length_cons, List.length_cons]
    omega
  | plain hg hback hline _ ih =>
    rw [List.cons_append, quotedTail_plain hback hline, if_neg hg, ih, List.length_cons]
    omega

/-- The delimiter of a raw string is what stands in front of the first round bracket. -/
theorem rawDelimiter_append {delimiter : Text} {room : Nat} (hroom : delimiter.length < room)
    (h : ∀ g ∈ delimiter, g ∉ ['(', ')', ' ', '\\', '\t', '\n', '"'].map Glyph.scalar) (body : Text) :
    rawDelimiter? room (delimiter ++ .scalar '(' :: body) = some (delimiter, body) := by
  induction delimiter generalizing room with
  | nil =>
    obtain ⟨room, rfl⟩ := Nat.exists_eq_add_one_of_ne_zero (Nat.ne_of_gt hroom)
    rw [List.nil_append, rawDelimiter?, if_pos rfl]
  | cons g delimiter ih =>
    obtain ⟨room, rfl⟩ := Nat.exists_eq_add_one_of_ne_zero (Nat.ne_of_gt (Nat.zero_lt_of_lt hroom))
    obtain ⟨hg, hmore⟩ := List.forall_mem_cons.mp h
    rw [List.cons_append, rawDelimiter?, if_neg (by simp_all), if_neg (by simp_all),
      ih (by simpa using hroom) hmore]
    rfl

/-- A raw string ends with the closing mark behind its body. -/
theorem rawStringTail_body {delimiter : Text} (hdelimiter : IsDelimiter delimiter) {body : Text}
    (hbody : ¬ .scalar ')' :: delimiter ++ [.scalar '"'] <:+: body) (rest : Text) :
    rawStringTail (delimiter ++ .scalar '(' :: (body ++ (.scalar ')' :: delimiter ++ [.scalar '"'] ++ rest))) =
      delimiter.length + 1 + (body.length + (delimiter.length + 2)) := by
  obtain ⟨hlength, hglyphs⟩ := hdelimiter
  have hroom : delimiter.length < maxDelimiter + 1 := Nat.lt_succ_of_le hlength
  have hlast : .scalar '"' ∉ .scalar ')' :: delimiter := by
    rw [List.mem_cons, not_or]
    exact ⟨by decide, fun h => hglyphs _ h (by decide)⟩
  rw [rawStringTail, rawDelimiter_append hroom hglyphs]
  dsimp only
  rw [lengthThrough_mark hlast hbody]
  simp only [List.length_cons, List.length_append, List.length_nil]

/-! ## Prefixes of literals -/

/-- The prefixes of literals are words. -/
theorem lead_isWord {lead : String} (h : lead ∈ stringLeads ++ rawStringLeads) :
    (∃ g more, Text.ofString lead = g :: more ∧ startsWord g = true ∧ isDigit g = false) ∧
      ∀ g ∈ Text.ofString lead, continuesWord g = true := by
  have hall : ∀ lead ∈ stringLeads ++ rawStringLeads,
      ((Text.ofString lead).head?.any fun g => startsWord g && !isDigit g) = true ∧
        ∀ g ∈ Text.ofString lead, continuesWord g = true := by decide +kernel
  obtain ⟨hhead, hword⟩ := hall lead h
  refine ⟨?_, hword⟩
  cases htext : Text.ofString lead with
  | nil =>
    rw [htext] at hhead
    exact absurd hhead (by decide)
  | cons g more =>
    rw [htext, List.head?_cons, Option.any_some, Bool.and_eq_true, Bool.not_eq_true'] at hhead
    exact ⟨g, more, rfl, hhead⟩

/-- A quote joins the prefix in front of it. Only a double quote may follow the prefix of a raw string. -/
theorem leading_lead (lineStart : Bool) {lead : String} (hlead : lead ∈ stringLeads ++ rawStringLeads) {quote : Glyph}
    (hquote : isQuote quote = true) (hraw : lead ∈ rawStringLeads → quote = .scalar '"') (inner : Text) :
    leading lineStart (Text.ofString lead ++ quote :: inner) = (.literal, (Text.ofString lead).length + 1 +
      if lead ∈ rawStringLeads then rawStringTail inner else quotedTail quote inner) := by
  obtain ⟨⟨g, more, htext, hg, hdigit⟩, hall⟩ := lead_isWord hlead
  have hend : EndsWord (quote :: inner) := by
    rw [endsWord_cons]
    rcases Bool.or_eq_true_iff.mp hquote with h | h <;> rw [beq_iff_eq.mp h] <;> decide
  have hword : leading lineStart (Text.ofString lead ++ quote :: inner) =
      word (Text.ofString lead ++ quote :: inner) := by
    rw [htext]
    exact leading_startsWord hg hdigit
  rw [hword, word, takeWhile_name hall hend, dropWhile_name hall hend]
  dsimp only
  -- no prefix is that of both an ordinary literal and a raw string
  by_cases hr : lead ∈ rawStringLeads
  · rw [if_pos (by simp [hraw hr, List.mem_map_of_mem hr]), if_pos hr]
  · have hordinary : lead ∈ stringLeads := (List.mem_append.mp hlead).resolve_right hr
    have hnot : ∀ lead ∈ stringLeads, (rawStringLeads.map Text.ofString).contains (Text.ofString lead) = false := by
      decide +kernel
    rw [if_neg (by rw [hnot lead hordinary, Bool.and_false]; decide),
      if_pos (by simp [hquote, List.mem_map_of_mem hordinary]), if_neg hr]

end Lexeme

/-! ## The token of an enclosure -/

/-- Blanks in front of a text are passed over. -/
theorem Piece.place_spacings {lineStart : Bool} {t : Text} (ht : ∀ g ∈ t, g ≠ .scalar '\n' ∧ g.isSpacing = true)
    (rest : Text) (p : Place) :
    place p (ofText lineStart (t ++ rest)) = place (p.past t) (ofText lineStart rest) := by
  induction t generalizing p with
  | nil => rfl
  | cons g t ih =>
    obtain ⟨⟨hline, hspacing⟩, hmore⟩ := List.forall_mem_cons.mp ht
    rw [List.cons_append, ofText_spacing hline hspacing]
    exact ih hmore (p.next g)

namespace Enclosure

open Lexeme

/-- A quote starts no other shape than a quoted literal. -/
theorem quote_spec {mark : Char} (h : mark ∈ ['"', '\'']) :
    isQuote (.scalar mark) = true ∧ isDigit (.scalar mark) = false ∧ startsWord (.scalar mark) = false := by
  rw [List.mem_pair] at h
  rcases h with rfl | rfl <;> decide

/-- What is written is a comment or a literal that goes up to the closing text. -/
theorem leading_write {e : Enclosure} {body rest : Text} (hbody : e.Encloses body) (hrest : e.Allows rest)
    (lineStart : Bool) : leading lineStart (e.write body ++ rest) = (e.kind, (e.covered body).length) := by
  cases e with
  | lineComment =>
    have hend : rest = [] ∨ ∃ below, rest = .scalar '\n' :: below := by
      cases rest with
      | nil => exact .inl rfl
      | cons g below => exact .inr ⟨below, by rw [hrest g rfl]⟩
    have hwritten : lineComment.write body ++ rest = .scalar '/' :: .scalar '/' :: (body ++ rest) := by
      simp [write, opening, closing, Text.ofString]
    have hlength : (lineComment.covered body).length =
        2 + (body.reverse.dropWhile (· == .scalar '\r')).length := by
      rw [covered, List.length_append, List.rdropWhile, List.length_reverse]
      rfl
    rw [hwritten, hlength, leading_lineComment, lineCommentTail_line hbody hend]
    rfl
  | blockComment =>
    have hmark := lengthThrough_mark (show Glyph.scalar '/' ∉ [Glyph.scalar '*'] by decide) hbody rest
    have hwritten : blockComment.write body ++ rest =
        .scalar '/' :: .scalar '*' :: (body ++ (([.scalar '*'] ++ [.scalar '/']) ++ rest)) := by
      simp [write, opening, closing, Text.ofString]
    have hlength : (blockComment.covered body).length = 2 + (body.length + 2) := by
      show (blockComment.write body).length = _
      rw [write, List.length_append, List.length_append, Nat.add_assoc]
      rfl
    rw [hwritten, hlength, leading_blockComment, blockCommentTail,
      show Text.ofString "*/" = [.scalar '*'] ++ [.scalar '/'] from rfl, hmark]
    rfl
  | quoted lead hlead mark hmark =>
    obtain ⟨hquote, hdigit, hword⟩ := quote_spec hmark
    have hwritten : (quoted lead hlead mark hmark).write body ++ rest =
        Text.ofString lead ++ .scalar mark :: (body ++ .scalar mark :: rest) := by
      simp [write, opening, closing]
    have hlength : ((quoted lead hlead mark hmark).covered body).length =
        (Text.ofString lead).length + 1 + (body.length + 1) := by
      show ((quoted lead hlead mark hmark).write body).length = _
      rw [write, opening, closing, List.length_append, List.length_append, List.length_append, Nat.add_assoc]
      rfl
    rw [hwritten, hlength]
    rcases List.mem_cons.mp hlead with rfl | hlead
    · -- with no prefix the quote itself has to be told from what is tried before words
      have hhash := ne_of_isQuote hquote (c := '#') (by decide)
      have hslash := ne_of_isQuote hquote (c := '/') (by decide)
      have hpoint := ne_of_isQuote hquote (c := '.') (by decide)
      rw [show Text.ofString "" = [] from rfl, List.nil_append,
        leading_plain (fun h => hhash h.1) fun h => absurd h hslash,
        if_neg (by simp [hdigit, hpoint]), if_neg (by simp [hword]), if_pos hquote, quotedTail_body hquote hbody]
      rfl
    · have hordinary : lead ∉ rawStringLeads := by
        have hnone : ∀ lead ∈ stringLeads, lead ∉ rawStringLeads := by decide
        exact hnone lead hlead
      rw [leading_lead lineStart (List.mem_append_left _ hlead) hquote (fun h => absurd h hordinary), if_neg hordinary,
        quotedTail_body hquote hbody]
      rfl
  | raw lead hlead delimiter hdelimiter =>
    have hwritten : (raw lead hlead delimiter hdelimiter).write body ++ rest = Text.ofString lead ++ .scalar '"' ::
        (delimiter ++ .scalar '(' :: (body ++ (.scalar ')' :: delimiter ++ [.scalar '"'] ++ rest))) := by
      simp [write, opening, closing]
    have hlength : ((raw lead hlead delimiter hdelimiter).covered body).length =
        (Text.ofString lead).length + 1 + (delimiter.length + 1 + (body.length + (delimiter.length + 2))) := by
      show ((raw lead hlead delimiter hdelimiter).write body).length = _
      simp only [write, opening, closing, List.length_append, List.length_cons, List.length_nil]
      omega
    rw [hwritten, hlength, leading_lead lineStart (List.mem_append_right _ hlead) (by decide) (fun _ => rfl),
      if_pos hlead, rawStringTail_body hdelimiter hbody]
    rfl

/-- The opening text starts with no blank and no backslash. -/
theorem opening_eq_cons (e : Enclosure) :
    ∃ g more, e.opening = g :: more ∧ g ≠ .scalar '\n' ∧ g.isSpacing = false ∧ g ≠ .scalar '\\' := by
  have hword : ∀ {g : Glyph}, startsWord g = true →
      g ≠ .scalar '\n' ∧ g.isSpacing = false ∧ g ≠ .scalar '\\' := by
    intro g hg
    obtain ⟨hline, hspacing, -⟩ := Piece.no_gap_of_startsWord hg []
    refine ⟨hline, hspacing, ?_⟩
    rintro rfl
    exact absurd hg (by decide)
  cases e with
  | lineComment | blockComment => exact ⟨_, _, rfl, by decide⟩
  | quoted lead hlead mark hmark =>
    rcases List.mem_cons.mp hlead with rfl | hlead
    · refine ⟨.scalar mark, [], rfl, ?_⟩
      rw [List.mem_pair] at hmark
      rcases hmark with rfl | rfl <;> decide
    · obtain ⟨⟨g, more, htext, hg, -⟩, -⟩ := lead_isWord (List.mem_append_left _ hlead)
      exact ⟨g, _, by rw [opening, htext]; rfl, hword hg⟩
  | raw lead hlead delimiter hdelimiter =>
    obtain ⟨⟨g, more, htext, hg, -⟩, -⟩ := lead_isWord (List.mem_append_right _ hlead)
    exact ⟨g, _, by rw [opening, htext]; rfl, hword hg⟩

variable {e : Enclosure} {body rest : Text}

theorem exists_covered_eq (e : Enclosure) (body : Text) : ∃ more, e.covered body = e.opening ++ more := by
  cases e with
  | lineComment => exact ⟨_, rfl⟩
  | _ => exact ⟨_, List.append_assoc _ _ _⟩

/-- The token of an enclosure leads the text, up to the closing text. -/
theorem leads_covered (hbody : e.Encloses body) (hrest : e.Allows rest) (lineStart : Bool) :
    Piece.Leads lineStart (.lexeme e.kind (e.covered body)) (e.returns body ++ rest) := by
  obtain ⟨g, more, hopening, hline, hspacing, hback⟩ := e.opening_eq_cons
  obtain ⟨more', hcovered⟩ := e.exists_covered_eq body
  rw [hopening, List.cons_append] at hcovered
  refine ⟨g, _, hcovered, hline, hspacing, ?_, ?_⟩
  · refine Nat.eq_zero_of_not_pos fun hpos => hback ?_
    rw [hcovered] at hpos
    exact Piece.head_of_spliceLength_pos hpos
  · rw [← List.append_assoc, covered_append_returns]
    exact leading_write hbody hrest lineStart

/-- What is written is cut into the token and then the rest. -/
theorem ofText_write (hbody : e.Encloses body) (hrest : e.Allows rest) (lineStart : Bool) :
    Piece.ofText lineStart (e.write body ++ rest) = .lexeme e.kind (e.covered body) ::
      Piece.ofText (Piece.lineStartAfter lineStart e.kind (e.covered body)) (e.returns body ++ rest) := by
  rw [← covered_append_returns, List.append_assoc]
  exact Piece.ofText_of_leads (leads_covered hbody hrest lineStart)

theorem returns_spacing (e : Enclosure) (body : Text) :
    ∀ g ∈ e.returns body, g ≠ .scalar '\n' ∧ g.isSpacing = true := by
  intro g hg
  cases e with
  | lineComment =>
    have hreturn := List.mem_rtakeWhile_imp hg
    rw [beq_iff_eq.mp hreturn]
    decide
  | _ => exact absurd hg List.not_mem_nil

end Enclosure

/-! ## Texts with an enclosure -/

/-- A token of `before ++ rest` starts where `before` ends, and `lineStart` says whether there has been no token on the
line yet. -/
def StartsToken (lineStart : Bool) (before rest : Text) : Prop :=
  ∃ front kind text back, Piece.ofText true (before ++ rest) = front ++ .lexeme kind text :: back ∧
    Piece.join front = before ∧ front.foldl Piece.lineStartPast true = lineStart

/-- The tokens of a text that start at an offset or behind it. -/
def tokensBehind (source : Text) (offset : Nat) : List Token := (tokens source).filter fun t => offset ≤ t.start

/-- Where a token starts, an enclosure is one token, and the tokens behind it are those of the text behind it. -/
theorem tokens_enclosed {e : Enclosure} {lineStart : Bool} {before body rest : Text} (hbody : e.Encloses body)
    (hrest : e.Allows rest) (hstart : StartsToken lineStart before (e.write body ++ rest)) :
    ∃ front, (∀ t ∈ front, t.stop ≤ before.length) ∧
      tokens (before ++ (e.write body ++ rest)) =
        front ++ Piece.tokenAt (Place.start.past before) e.kind (e.covered body) ::
          Piece.place (Place.start.past (before ++ e.write body))
            (Piece.ofText (Piece.lineStartAfter lineStart e.kind (e.covered body)) rest) := by
  obtain ⟨front, kind, text, back, hps, rfl, rfl⟩ := hstart
  have hjoin := congrArg Piece.join hps
  rw [Piece.join_ofText, Piece.join_append] at hjoin
  -- the pieces from the enclosure on are the cut of what is written and the rest
  have hcut := Piece.ofText_eq_append hps
  rw [← List.append_cancel_left hjoin, Enclosure.ofText_write hbody hrest] at hcut
  refine ⟨Piece.place .start front, fun t ht => ?_, ?_⟩
  · have hstop := Piece.stop_le_offset ht
    rwa [show Place.start.offset = 0 from rfl, Nat.zero_add] at hstop
  · have hend : ((Place.start.past (Piece.join front)).past (e.covered body)).past (e.returns body) =
        Place.start.past (Piece.join front ++ e.write body) := by
      rw [← e.covered_append_returns, Place.past_append, Place.past_append]
    rw [tokens, hps, ← hcut, Piece.place_append, Piece.place_lexeme,
      Piece.place_spacings (e.returns_spacing body), hend]

/-- Those tokens are the ones behind the enclosure. -/
theorem tokensBehind_enclosed {e : Enclosure} {lineStart : Bool} {before body rest : Text} (hbody : e.Encloses body)
    (hrest : e.Allows rest) (hstart : StartsToken lineStart before (e.write body ++ rest)) :
    tokensBehind (before ++ (e.write body ++ rest)) (before ++ e.write body).length =
      Piece.place (Place.start.past (before ++ e.write body))
        (Piece.ofText (Piece.lineStartAfter lineStart e.kind (e.covered body)) rest) := by
  obtain ⟨front, hfront, htokens⟩ := tokens_enclosed hbody hrest hstart
  have hlength : before.length < (before ++ e.write body).length := by
    obtain ⟨g, more, hopening, -⟩ := e.opening_eq_cons
    simp [Enclosure.write, hopening]
  have hbefore : ∀ t ∈ front, ¬ (before ++ e.write body).length ≤ t.start := by
    intro t ht
    have hpos := start_lt_stop (htokens ▸ List.mem_append_left _ ht)
    have hstop := hfront t ht
    omega
  have hhere : ¬ (before ++ e.write body).length ≤
      (Piece.tokenAt (Place.start.past before) e.kind (e.covered body)).start := by
    show ¬ _ ≤ (Place.start.past before).offset
    rw [Piece.offset_past_start]
    omega
  rw [tokensBehind, htokens, List.filter_append, List.filter_eq_nil_iff.mpr (by simpa using hbefore),
    List.filter_cons_of_neg (by simpa using hhere), List.nil_append, List.filter_eq_self]
  intro t ht
  have hle := Piece.offset_le_start ht
  rw [Piece.offset_past_start] at hle
  exact decide_eq_true hle

/-- Where a token starts, a comment or a literal goes up to its closing text, whatever its body is, and is one token.
The tokens behind it are, but for where they stand, the same with any other body and behind any other text, as long
as there has been a token on the line in both texts or in neither. -/
theorem enclosed_opaque (e : Enclosure) {lineStart : Bool} {before body rest : Text} (hbody : e.Encloses body)
    (hrest : e.Allows rest) (hstart : StartsToken lineStart before (e.write body ++ rest)) :
    (∃ front, (∀ t ∈ front, t.stop ≤ before.length) ∧
      tokens (before ++ (e.write body ++ rest)) =
        front ++ Piece.tokenAt (Place.start.past before) e.kind (e.covered body) ::
          tokensBehind (before ++ (e.write body ++ rest)) (before ++ e.write body).length) ∧
      ∀ {lineStart' : Bool} {before' body' : Text}, e.Encloses body' →
        StartsToken lineStart' before' (e.write body' ++ rest) →
        Piece.lineStartAfter lineStart' e.kind (e.covered body') =
          Piece.lineStartAfter lineStart e.kind (e.covered body) →
        List.Forall₂
          (Token.Moved (Place.start.past (before ++ e.write body)) (Place.start.past (before' ++ e.write body')))
          (tokensBehind (before ++ (e.write body ++ rest)) (before ++ e.write body).length)
          (tokensBehind (before' ++ (e.write body' ++ rest)) (before' ++ e.write body').length) := by
  constructor
  · rw [tokensBehind_enclosed hbody hrest hstart]
    exact tokens_enclosed hbody hrest hstart
  · intro lineStart' before' body' hbody' hstart' hstate
    rw [tokensBehind_enclosed hbody hrest hstart, tokensBehind_enclosed hbody' hrest hstart', hstate]
    exact Piece.place_moved _ _ _

/-- A block comment in front of a semicolon, with a quote in it and with a line end in it. -/
theorem enclosed_opaque_blockComment :
    Enclosure.blockComment.Encloses (Text.ofString "\"") ∧ Enclosure.blockComment.Encloses (Text.ofString "\n") ∧
      StartsToken true [] (Text.ofString "/*\"*/;") ∧ StartsToken true [] (Text.ofString "/*\n*/;") ∧
      (∃ front, tokens (Text.ofString "/*\"*/;") = front ++
        Piece.tokenAt .start .comment (Text.ofString "/*\"*/") :: tokensBehind (Text.ofString "/*\"*/;") 5) ∧
      List.Forall₂
        (Token.Moved (Place.start.past (Text.ofString "/*\"*/")) (Place.start.past (Text.ofString "/*\n*/")))
        (tokensBehind (Text.ofString "/*\"*/;") 5) (tokensBehind (Text.ofString "/*\n*/;") 5) := by
  have hbody : Enclosure.blockComment.Encloses (Text.ofString "\"") :=
    show ¬ Text.ofString "*/" <:+: Text.ofString "\"" by decide
  have hbody' : Enclosure.blockComment.Encloses (Text.ofString "\n") :=
    show ¬ Text.ofString "*/" <:+: Text.ofString "\n" by decide
  have hrest : Enclosure.blockComment.Allows (Text.ofString ";") := trivial
  -- at the start of a text an enclosure is a token
  have hstart : ∀ {body}, Enclosure.blockComment.Encloses body →
      StartsToken true [] (Enclosure.blockComment.write body ++ Text.ofString ";") :=
    fun h => ⟨[], _, _, _, Enclosure.ofText_write h hrest true, rfl, rfl⟩
  obtain ⟨⟨front, -, htokens⟩, hmoved⟩ := enclosed_opaque .blockComment hbody hrest (hstart hbody)
  exact ⟨hbody, hbody', hstart hbody, hstart hbody', ⟨front, htokens⟩, hmoved hbody' (hstart hbody') rfl⟩

end HouseStyle
