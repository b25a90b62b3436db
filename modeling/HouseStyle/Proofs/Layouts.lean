import HouseStyle.Declaration.Model
import HouseStyle.Proofs.Renaming
import Mathlib.Data.List.Chain
import Mathlib.Data.List.Nodup

/-!
# Programs laid out as texts

The symbols of a program (keywords, names, numbers and a few signs) can be written down in many ways: in
front of each of them may stand any number of blanks and comments, and something has to where two symbols
would otherwise be read as one. A `Layout` is one such way, and

> `Layout.spells_code`: whatever the layout, the code among the tokens of its text is the symbols, one token
> for each.

How a symbol is recognised depends on what stands behind it, and one glyph of that is enough:
`Symbol.Allows` says which glyph may stand there (`leads_symbol`).
-/

namespace HouseStyle.Core

open Lexeme (IsName)

/-- The blanks of programs. -/
def blanks : List Char := [' ', '\t', '\r', '\n', '\x0c', '\x0b']

/-! ## Symbols -/

/-- An identifier. Words such as `final`, which are keywords in some places only, are names too. -/
abbrev Name := { t : Text // IsName t }

/-- What goes on with a number after its glyph `last`. -/
inductive NumeralTail : Glyph → Text → Prop where
  | nil (last : Glyph) : NumeralTail last []
  | glyph {last g : Glyph} {t : Text}
    (hg : Lexeme.isAlphanumeric g = true ∨ g = .scalar '.' ∨ g = .scalar '_') (ht : NumeralTail g t) :
    NumeralTail last (g :: t)
  | separator {last g : Glyph} {t : Text} (hg : Lexeme.isAlphanumeric g = true)
    (ht : NumeralTail (.scalar '\'') (g :: t)) : NumeralTail last (.scalar '\'' :: g :: t)
  | sign {last g : Glyph} {t : Text} (hlast : last ∈ ['e', 'E', 'p', 'P'].map Glyph.scalar)
    (hg : g = .scalar '+' ∨ g = .scalar '-') (ht : NumeralTail g t) : NumeralTail last (g :: t)

/-- A numeric literal: a digit, or a point and a digit, and what goes on with it. -/
structure Numeral where
  first : Glyph
  tail : Text
  opens : Lexeme.isDigit first = true ∨ first = .scalar '.' ∧ tail.head?.any Lexeme.isDigit = true
  goesOn : NumeralTail first tail

/-- A numeric literal as it is written. -/
def Numeral.text (n : Numeral) : Text := n.first :: n.tail

/-- The signs of programs. -/
inductive Sign where
  | lbrace | rbrace | lparen | rparen | comma | semicolon | eq | star
  deriving DecidableEq

/-- The punctuator that a sign is. -/
def Sign.punct : Sign → Punct
  | .lbrace => .lbrace
  | .rbrace => .rbrace
  | .lparen => .lparen
  | .rparen => .rparen
  | .comma => .comma
  | .semicolon => .semicolon
  | .eq => .eq
  | .star => .star

/-- A symbol of a program. Every name in a program declares something. -/
inductive Symbol where
  | keyword (k : Keyword)
  | sign (s : Sign)
  | name (n : Name) (declares : EntityKind)
  | number (n : Numeral)

namespace Symbol

/-- The kind of the token that a symbol is. -/
def kind : Symbol → TokenKind
  | .keyword k => .keyword k
  | .sign s => .punct s.punct
  | .name _ _ => .identifier
  | .number _ => .literal

theorem kind_ne (s : Symbol) : s.kind ≠ .comment ∧ s.kind ≠ .directive := by
  cases s <;> exact ⟨nofun, nofun⟩

/-- A symbol as it is written. -/
def text : Symbol → Text
  | .keyword k => k.text
  | .sign s => s.punct.text
  | .name n _ => n.1
  | .number n => n.text

/-- Whether two symbols with nothing between them are read as one: two words or numbers, or the beginnings
of `==` and `*=`. -/
def joins : Symbol → Symbol → Bool
  | .sign a, .sign b => (a == .eq || a == .star) && b == .eq
  | .sign _, _ => false
  | _, .sign _ => false
  | _, _ => true

/-- The glyphs that no word and no number goes on with. -/
def stops : List Glyph := (['/', '\x7b', '\x7d', '(', ')', ',', ';', '=', '*'] ++ blanks).map .scalar

/-- Whether a glyph may stand right behind a symbol. -/
def Allows : Symbol → Glyph → Prop
  | .sign s, g => (s = .eq ∨ s = .star) → g ≠ .scalar '='
  | _, g => g ∈ stops

end Symbol

/-! ## How symbols are recognised -/

theorem mem_all_keywords (k : Keyword) : k ∈ Keyword.all := by
  cases k <;> decide

/-- A number for a text, with its glyphs as digits. -/
def textNumber (t : Text) : Nat := t.foldl (fun n g => 0x200000 * n + g.code) 0

/-- No two keywords are written alike. -/
theorem ofText_text (k : Keyword) : Keyword.ofText? k.text = some k := by
  -- each text is read once, and only numbers are compared with each other
  have hapart : (Keyword.all.map fun k => textNumber k.text).Nodup := by decide +kernel
  obtain ⟨j, hj⟩ : ∃ j, Keyword.all.find? (fun j => j.text == k.text) = some j :=
    Option.isSome_iff_exists.mp (List.find?_isSome.mpr ⟨k, mem_all_keywords k, beq_self_eq_true _⟩)
  have hsame : j.text = k.text := by simpa using List.find?_some hj
  have hjk : j = k :=
    List.inj_on_of_nodup_map hapart (mem_all_keywords j) (mem_all_keywords k) (congrArg textNumber hsame)
  rw [Keyword.ofText?, hj, hjk]

/-- A keyword is a word, and none that is the prefix of a literal. -/
theorem keyword_isWord (k : Keyword) :
    (∃ g more, k.text = g :: more ∧ Lexeme.startsWord g = true ∧ Lexeme.isDigit g = false) ∧
      ∀ g ∈ k.text, Lexeme.continuesWord g = true := by
  have h : ∀ k ∈ Keyword.all, (k.text.head?.any fun g => Lexeme.startsWord g && !Lexeme.isDigit g) = true ∧
      ∀ g ∈ k.text, Lexeme.continuesWord g = true := by decide +kernel
  obtain ⟨hhead, hall⟩ := h k (mem_all_keywords k)
  refine ⟨?_, hall⟩
  cases htext : k.text with
  | nil => rw [htext] at hhead; exact absurd hhead (by decide)
  | cons g more =>
    rw [htext, List.head?_cons, Option.any_some, Bool.and_eq_true, Bool.not_eq_true'] at hhead
    exact ⟨g, more, rfl, hhead⟩

/-- What ends a word or a number: the end of the text or a glyph with which neither goes on. -/
def Stopped (rest : Text) : Prop := ∀ g ∈ rest.head?, g ∈ Symbol.stops

theorem Stopped.cases {rest : Text} (h : Stopped rest) :
    rest = [] ∨ ∃ g more, rest = g :: more ∧ g ∈ Symbol.stops := by
  cases rest with
  | nil => exact Or.inl rfl
  | cons g more => exact Or.inr ⟨g, more, rfl, h g rfl⟩

theorem stops_end_word : ∀ g ∈ Symbol.stops, Lexeme.continuesWord g = false ∧ Lexeme.isQuote g = false := by
  decide

theorem Stopped.endsWord {rest : Text} (h : Stopped rest) : Lexeme.EndsWord rest := by
  rcases h.cases with rfl | ⟨g, more, rfl, hg⟩
  · rfl
  · exact Lexeme.endsWord_cons.mpr (stops_end_word g hg).1

theorem Stopped.joinsQuote {rest : Text} (h : Stopped rest) (word : Text) :
    Lexeme.joinsQuote word rest = false :=
  Lexeme.joinsQuote_eq_false (fun g hg => (stops_end_word g (h g hg)).2) word

theorem word_keyword (k : Keyword) {rest : Text} (hend : Lexeme.EndsWord rest)
    (hquote : Lexeme.joinsQuote k.text rest = false) :
    Lexeme.word (k.text ++ rest) = (.keyword k, k.text.length) := by
  have hall := (keyword_isWord k).2
  unfold Lexeme.word
  rw [Lexeme.takeWhile_name hall hend, Lexeme.dropWhile_name hall hend]
  dsimp only
  rw [ofText_text]
  cases rest with
  | nil => rfl
  | cons g more =>
    rw [Lexeme.joinsQuote, Bool.or_eq_false_iff] at hquote
    dsimp only
    rw [hquote.1, hquote.2, if_neg (by decide), if_neg (by decide)]

/-- A keyword is recognised where it stands, if it ends there. -/
theorem leads_keyword_of_endsWord (lineStart : Bool) (k : Keyword) {rest : Text}
    (hend : Lexeme.EndsWord rest) (hquote : Lexeme.joinsQuote k.text rest = false) :
    Piece.Leads lineStart (.lexeme (.keyword k) k.text) rest := by
  obtain ⟨⟨g, more, htext, hg, hd⟩, -⟩ := keyword_isWord k
  obtain ⟨hn, hs, hsplice⟩ := Piece.no_gap_of_startsWord hg (more ++ rest)
  refine ⟨g, more, htext, hn, hs, ?_, ?_⟩
  · rw [htext]
    exact hsplice
  · rw [← word_keyword k hend hquote, htext]
    exact Lexeme.leading_startsWord hg hd

theorem stops_end_number : ∀ g ∈ Symbol.stops, Lexeme.isAlphanumeric g = false ∧
    g ∉ ['.', '_', '\'', '+', '-'].map Glyph.scalar := by
  decide

theorem numberTail_numeral {last : Glyph} {t rest : Text} (h : NumeralTail last t) (hrest : Stopped rest) :
    Lexeme.numberTail last (t ++ rest) = t.length := by
  induction h with
  | nil last =>
    rcases hrest.cases with rfl | ⟨g, more, rfl, hg⟩
    · rfl
    · obtain ⟨halpha, hothers⟩ := stops_end_number g hg
      simp only [List.map_cons, List.map_nil, List.mem_cons, List.not_mem_nil, or_false, not_or] at hothers
      simp [Lexeme.numberTail, halpha, hothers]
  | @glyph last g t hg _ ih =>
    have hgoes : (Lexeme.isAlphanumeric g || g == .scalar '.' || g == .scalar '_') = true := by
      rcases hg with hg | rfl | rfl
      · simp [hg]
      · simp
      · simp
    rw [List.cons_append, Lexeme.numberTail, if_pos hgoes, ih, List.length_cons, Nat.add_comm]
  | @separator last g t hg _ ih =>
    rw [List.cons_append, List.cons_append] at *
    rw [Lexeme.numberTail, if_neg (by decide), if_pos (by simp [hg]), ih, List.length_cons,
      List.length_cons, Nat.add_comm, List.length_cons]
  | @sign last g t hlast hg _ ih =>
    have hnot : (Lexeme.isAlphanumeric g || g == .scalar '.' || g == .scalar '_') = false := by
      rcases hg with rfl | rfl <;> decide
    have hquote : (g == Glyph.scalar '\'') = false := by
      rcases hg with rfl | rfl <;> decide
    have hsign : (g == Glyph.scalar '+' || g == .scalar '-') = true := by
      rcases hg with rfl | rfl <;> decide
    have hexponent : (last == Glyph.scalar 'e' || last == .scalar 'E' || last == .scalar 'p' ||
        last == .scalar 'P') = true := by
      simpa [or_assoc] using hlast
    rw [List.cons_append, Lexeme.numberTail, if_neg (by simp [hnot]), if_neg (by simp [hquote]),
      if_pos (by rw [hsign, hexponent]; rfl), ih, List.length_cons, Nat.add_comm]

/-- A sign is a punctuator of its own, unless it begins another one together with what follows. -/
theorem leading_punct {s : Sign} {rest : Text} (h : ∀ g ∈ rest.head?, (Symbol.sign s).Allows g) :
    Punct.leading? (s.punct.text ++ rest) = some s.punct := by
  cases rest with
  | nil => cases s <;> decide
  | cons g rest =>
    cases s with
    | eq | star =>
      have hne : Glyph.scalar '=' ≠ g := fun heq => h g rfl (by decide) heq.symm
      simp [Punct.leading?, Punct.all, Punct.text, Punct.spelling, Sign.punct, Text.ofString,
        List.isPrefixOf, hne]
    | _ =>
      simp [Punct.leading?, Punct.all, Punct.text, Punct.spelling, Sign.punct, Text.ofString,
        List.isPrefixOf]

/-- No gap starts with another glyph than a blank or a backslash. -/
theorem no_gap {g : Glyph} (hg : g ∉ ('\\' :: blanks).map Glyph.scalar) (rest : Text) :
    g ≠ .scalar '\n' ∧ g.isSpacing = false ∧ Lexeme.spliceLength (g :: rest) = 0 := by
  simp only [blanks, List.map_cons, List.map_nil, List.mem_cons, List.not_mem_nil, or_false, not_or] at hg
  refine ⟨by simp [hg], ?_, Nat.eq_zero_of_not_pos fun hpos => hg.1 (Piece.head_of_spliceLength_pos hpos)⟩
  cases g with
  | raw b => rfl
  | scalar c =>
    simp only [Glyph.scalar.injEq] at hg
    simp [Glyph.isSpacing, hg]

/-- A glyph that opens a number opens no gap, no directive and no comment. -/
theorem Numeral.first_not_mem (n : Numeral) : n.first ∉ ('#' :: '/' :: '\\' :: blanks).map Glyph.scalar := by
  have hothers : ∀ g ∈ ('#' :: '/' :: '\\' :: blanks).map Glyph.scalar,
      Lexeme.isDigit g = false ∧ g ≠ .scalar '.' := by decide
  intro hmem
  obtain ⟨hdigit, hpoint⟩ := hothers _ hmem
  rcases n.opens with h | ⟨h, -⟩
  · rw [hdigit] at h
    exact absurd h (by decide)
  · exact hpoint h

theorem leading_numeral (lineStart : Bool) (n : Numeral) {rest : Text} (hrest : Stopped rest) :
    Lexeme.leading lineStart (n.text ++ rest) = (.literal, n.text.length) := by
  have hhash : n.first ≠ .scalar '#' := fun h => n.first_not_mem (by simp [h])
  have hslash : n.first ≠ .scalar '/' := fun h => n.first_not_mem (by simp [h])
  have hopens : (Lexeme.isDigit n.first ||
      (n.first == .scalar '.' && ((n.tail ++ rest).head?.map Lexeme.isDigit).getD false)) = true := by
    rcases n.opens with h | ⟨h, hnext⟩
    · simp [h]
    · cases htail : n.tail with
      | nil => rw [htail] at hnext; exact absurd hnext (by decide)
      | cons g more =>
        rw [htail, List.head?_cons, Option.any_some] at hnext
        simp [h, hnext]
  rw [Numeral.text, List.cons_append,
    Lexeme.leading_plain (fun h => hhash h.1) (fun h => absurd h hslash),
    if_pos hopens, numberTail_numeral n.goesOn hrest, List.length_cons, Nat.add_comm]

/-- The character that a sign is written with. -/
def Sign.char : Sign → Char
  | .lbrace => '\x7b'
  | .rbrace => '\x7d'
  | .lparen => '('
  | .rparen => ')'
  | .comma => ','
  | .semicolon => ';'
  | .eq => '='
  | .star => '*'

theorem Sign.text_punct (s : Sign) : s.punct.text = [.scalar s.char] := by
  cases s <;> rfl

/-- A symbol is recognised where it stands, if what stands behind it may stand there. -/
theorem leads_symbol (lineStart : Bool) {s : Symbol} {rest : Text} (h : ∀ g ∈ rest.head?, s.Allows g) :
    Piece.Leads lineStart (.lexeme s.kind s.text) rest := by
  cases s with
  | keyword k =>
    have hstop : Stopped rest := h
    exact leads_keyword_of_endsWord lineStart k hstop.endsWord (hstop.joinsQuote k.text)
  | name n declares =>
    have hstop : Stopped rest := h
    exact Piece.leads_identifier_iff.mpr ⟨n.2, hstop.endsWord, hstop.joinsQuote n.1⟩
  | number n =>
    have hfirst : n.first ∉ ('\\' :: blanks).map Glyph.scalar := fun hmem =>
      n.first_not_mem (List.mem_cons_of_mem _ (List.mem_cons_of_mem _ hmem))
    obtain ⟨hn, hs, hsplice⟩ := no_gap hfirst (n.tail ++ rest)
    exact ⟨n.first, n.tail, rfl, hn, hs, hsplice, leading_numeral lineStart n h⟩
  | sign s => exact Piece.leads_punct (by cases s <;> decide) (leading_punct h)

/-! ## Layouts -/

/-- What may stand between two symbols. -/
inductive Filler where
  | blank (c : Char) (hc : c ∈ blanks)
  /-- A line comment, with the line feed behind it. -/
  | line (body : Text) (hbody : .scalar '\n' ∉ body)
  | block (body : Text) (hbody : ¬Text.ofString "*/" <:+: body)

/-- A filler as it is written. -/
def Filler.text : Filler → Text
  | .blank c _ => [.scalar c]
  | .line body _ => .scalar '/' :: .scalar '/' :: (body ++ [.scalar '\n'])
  | .block body _ => .scalar '/' :: .scalar '*' :: (body ++ Text.ofString "*/")

/-- Fillers one after another. -/
def fillersText (fillers : List Filler) : Text := fillers.flatMap Filler.text

/-- A way to write symbols down. -/
structure Layout (symbols : List Symbol) where
  /-- Each symbol, with what stands in front of it. -/
  parts : List (List Filler × Symbol)
  /-- What stands behind the last symbol. -/
  trailer : List Filler
  /-- A line comment that ends with the text. -/
  lastLine : Option { body : Text // .scalar '\n' ∉ body }
  symbols_eq : parts.map (·.2) = symbols
  /-- Something stands between two symbols that would be read as one. -/
  apart : parts.IsChain fun a b => a.2.joins b.2 = true → b.1 ≠ []

namespace Layout

/-- Symbols and what stands in front of them. -/
def partsText (parts : List (List Filler × Symbol)) : Text :=
  parts.flatMap fun part => fillersText part.1 ++ part.2.text

variable {symbols : List Symbol}

/-- What stands behind the last symbol, as it is written. -/
def trailerText (layout : Layout symbols) : Text :=
  fillersText layout.trailer ++
    (layout.lastLine.map fun body => .scalar '/' :: .scalar '/' :: body.1).getD []

/-- The text of a layout. -/
def text (layout : Layout symbols) : Text := partsText layout.parts ++ layout.trailerText

end Layout

/-! ## How fillers are passed over -/

/-- The lexemes among some pieces that are not comments. -/
def significant (ps : List Piece) : List (TokenKind × Text) :=
  (Piece.lexemes ps).filter fun l => l.1 != .comment

theorem significant_blanks (lineStart : Bool) {t : Text} (ht : ∀ g ∈ t, ∃ c ∈ blanks, g = .scalar c)
    (rest : Text) :
    ∃ lineStart', significant (Piece.ofText lineStart (t ++ rest)) =
      significant (Piece.ofText lineStart' rest) := by
  induction t generalizing lineStart with
  | nil => exact ⟨lineStart, rfl⟩
  | cons g t ih =>
    obtain ⟨c, hc, rfl⟩ := ht g List.mem_cons_self
    have hleads : Piece.Leads lineStart (.gap [.scalar c]) (t ++ rest) := by
      simp only [blanks, List.mem_cons, List.not_mem_nil, or_false] at hc
      rcases hc with rfl | rfl | rfl | rfl | rfl | rfl
      case inr.inr.inr.inl => exact Or.inl rfl
      all_goals exact Or.inr (Or.inl ⟨_, rfl, by decide, rfl⟩)
    obtain ⟨lineStart', heq⟩ := ih (Piece.lineStartPast lineStart (.gap [.scalar c]))
      fun g hg => ht g (List.mem_cons_of_mem _ hg)
    refine ⟨lineStart', ?_⟩
    rw [← heq]
    show significant (Piece.ofText lineStart ((Piece.gap [.scalar c]).text ++ (t ++ rest))) = _
    rw [Piece.ofText_of_leads hleads]
    rfl

/-- A comment is passed over. -/
theorem significant_comment {lineStart : Bool} {t rest : Text}
    (h : Piece.Leads lineStart (.lexeme .comment t) rest) :
    ∃ lineStart', significant (Piece.ofText lineStart (t ++ rest)) =
      significant (Piece.ofText lineStart' rest) := by
  refine ⟨Piece.lineStartPast lineStart (.lexeme .comment t), ?_⟩
  show significant (Piece.ofText lineStart ((Piece.lexeme .comment t).text ++ rest)) = _
  rw [Piece.ofText_of_leads h]
  rfl

theorem leads_comment (lineStart : Bool) {mark : Char} {body rest : Text}
    (h : Lexeme.leading lineStart (.scalar '/' :: .scalar mark :: (body ++ rest)) =
      (.comment, 2 + body.length)) :
    Piece.Leads lineStart (.lexeme .comment (.scalar '/' :: .scalar mark :: body)) rest := by
  refine ⟨.scalar '/', .scalar mark :: body, rfl, by decide, by decide, rfl, ?_⟩
  rw [List.cons_append, List.cons_append, h, List.length_cons, List.length_cons, Nat.add_comm]

/-- A line comment reaches to the line feed or to the end of the text, but for the carriage returns in front
of that. -/
theorem significant_line (lineStart : Bool) {body : Text} (rest : Text) (hbody : .scalar '\n' ∉ body)
    (hrest : ∀ g ∈ rest.head?, g = .scalar '\n') :
    ∃ lineStart', significant (Piece.ofText lineStart (.scalar '/' :: .scalar '/' :: (body ++ rest))) =
      significant (Piece.ofText lineStart' rest) := by
  have hline : (body ++ rest).takeWhile (· != .scalar '\n') = body := by
    have hpos : ∀ g ∈ body, (g != .scalar '\n') = true := fun g hg => by
      simpa using fun h : g = .scalar '\n' => hbody (h ▸ hg)
    rw [List.takeWhile_append_of_pos hpos]
    cases rest with
    | nil => exact List.append_nil body
    | cons g rest =>
      obtain rfl := hrest g rfl
      simp
  -- the comment and the carriage returns behind it
  have hsplit : (body.reverse.dropWhile (· == .scalar '\r')).reverse ++
      (body.reverse.takeWhile (· == .scalar '\r')).reverse = body := by
    rw [← List.reverse_append, List.takeWhile_append_dropWhile, List.reverse_reverse]
  have hreturns : ∀ g ∈ (body.reverse.takeWhile (· == .scalar '\r')).reverse, ∃ c ∈ blanks, g = .scalar c := by
    intro g hg
    have hr := List.all_eq_true.mp List.all_takeWhile g (List.mem_reverse.mp hg)
    exact ⟨'\r', by decide, by simpa using hr⟩
  have htail : Lexeme.lineCommentTail (body ++ rest) =
      (body.reverse.dropWhile (· == .scalar '\r')).reverse.length := by
    rw [Lexeme.lineCommentTail, hline, List.length_reverse]
  generalize (body.reverse.dropWhile (· == .scalar '\r')).reverse = front at hsplit htail
  generalize (body.reverse.takeWhile (· == .scalar '\r')).reverse = returns at hsplit hreturns
  subst hsplit
  rw [List.append_assoc] at htail ⊢
  -- the carriage returns are no part of the comment, and blanks for themselves
  obtain ⟨lineStart₁, hcomment⟩ := significant_comment (leads_comment lineStart
    (by rw [Lexeme.leading_lineComment, htail]))
  obtain ⟨lineStart₂, hreturned⟩ := significant_blanks lineStart₁ hreturns rest
  exact ⟨lineStart₂, hcomment.trans hreturned⟩

theorem significant_filler (lineStart : Bool) (f : Filler) (rest : Text) :
    ∃ lineStart', significant (Piece.ofText lineStart (f.text ++ rest)) =
      significant (Piece.ofText lineStart' rest) := by
  cases f with
  | blank c hc =>
    exact significant_blanks lineStart (fun g hg => ⟨c, hc, List.mem_singleton.mp hg⟩) rest
  | line body hbody =>
    obtain ⟨lineStart₁, hcomment⟩ := significant_line lineStart (.scalar '\n' :: rest) hbody
      fun g hg => (Option.mem_some.mp hg).symm
    obtain ⟨lineStart₂, hblank⟩ := significant_blanks lineStart₁ (t := [.scalar '\n'])
      (fun g hg => ⟨'\n', by decide, List.mem_singleton.mp hg⟩) rest
    refine ⟨lineStart₂, ?_⟩
    rw [Filler.text, List.cons_append, List.cons_append, List.append_assoc]
    exact hcomment.trans hblank
  | block body hbody =>
    rw [Filler.text]
    refine significant_comment (leads_comment lineStart ?_)
    have hlen : (body ++ Text.ofString "*/").length = body.length + 2 := List.length_append
    have hmark := Lexeme.lengthThrough_mark (show Glyph.scalar '/' ∉ [Glyph.scalar '*'] by decide) hbody rest
    rw [Lexeme.leading_blockComment, Lexeme.blockCommentTail, List.append_assoc, hlen]
    exact congrArg (fun n => (TokenKind.comment, 2 + Option.getD n _)) hmark

theorem significant_fillers (lineStart : Bool) (fillers : List Filler) (rest : Text) :
    ∃ lineStart', significant (Piece.ofText lineStart (fillersText fillers ++ rest)) =
      significant (Piece.ofText lineStart' rest) := by
  induction fillers generalizing lineStart with
  | nil => exact ⟨lineStart, rfl⟩
  | cons f fillers ih =>
    obtain ⟨lineStart₁, hf⟩ := significant_filler lineStart f (fillersText fillers ++ rest)
    obtain ⟨lineStart₂, hmore⟩ := ih lineStart₁
    refine ⟨lineStart₂, ?_⟩
    rw [← hmore, ← hf, fillersText, List.flatMap_cons, List.append_assoc]
    rfl

/-! ## How layouts are cut -/

/-- Behind a symbol a filler may stand. -/
theorem Filler.allowed (f : Filler) (s : Symbol) (rest : Text) :
    ∀ g ∈ (f.text ++ rest).head?, s.Allows g := by
  have hall : ∀ c ∈ '/' :: blanks, s.Allows (.scalar c) := by
    intro c hc
    have hstop : .scalar c ∈ Symbol.stops := by
      refine List.mem_map_of_mem ?_
      rcases List.mem_cons.mp hc with rfl | hc
      · exact List.mem_cons_self
      · exact List.mem_append_right _ hc
    have heq : Glyph.scalar c ≠ .scalar '=' := by
      have hnot : '=' ∉ '/' :: blanks := by decide
      exact fun h => hnot (Glyph.scalar.inj h ▸ hc)
    cases s with
    | sign s => exact fun _ => heq
    | _ => exact hstop
  intro g hg
  cases f with
  | blank c hc =>
    obtain rfl := Option.mem_some.mp hg
    exact hall c (List.mem_cons_of_mem _ hc)
  | line body hbody | block body hbody =>
    obtain rfl := Option.mem_some.mp hg
    exact hall '/' List.mem_cons_self

/-- The only symbol that starts with `=` is that sign. -/
theorem Symbol.eq_of_head {s : Symbol} {rest : Text} (h : .scalar '=' ∈ (s.text ++ rest).head?) :
    s = .sign .eq := by
  have hword : ¬∃ g more, s.text = g :: more ∧ Lexeme.startsWord g = true := by
    rintro ⟨g, more, htext, hg⟩
    rw [htext] at h
    obtain rfl := Option.mem_some.mp h
    exact absurd hg (by decide)
  cases s with
  | keyword k =>
    obtain ⟨⟨g, more, htext, hg, -⟩, -⟩ := keyword_isWord k
    exact absurd ⟨g, more, htext, hg⟩ hword
  | name n declares =>
    obtain ⟨⟨g, more, htext, hg, -⟩, -⟩ := n.2
    exact absurd ⟨g, more, htext, hg⟩ hword
  | number n =>
    have hfirst : n.first = .scalar '=' := Option.mem_some.mp h
    rcases n.opens with hopens | ⟨hopens, -⟩
    · rw [hfirst] at hopens
      exact absurd hopens (by decide)
    · rw [hfirst] at hopens
      exact absurd hopens (by decide)
  | sign t =>
    rw [Symbol.text, t.text_punct] at h
    have hchar := Glyph.scalar.inj (Option.mem_some.mp h)
    cases t
    case eq => rfl
    all_goals exact absurd hchar (by decide)

theorem Sign.char_mem_stops (t : Sign) : .scalar t.char ∈ Symbol.stops := by
  cases t <;> decide

/-- Behind a symbol another one may stand, if they are not read as one. -/
theorem Symbol.allowed {a b : Symbol} (h : a.joins b = false) (rest : Text) :
    ∀ g ∈ (b.text ++ rest).head?, a.Allows g := by
  cases a with
  | sign s =>
    rintro g hg hs rfl
    obtain rfl := Symbol.eq_of_head hg
    rcases hs with rfl | rfl <;> exact absurd h (by decide)
  | _ =>
    cases b with
    | sign t =>
      rw [Symbol.text, t.text_punct]
      intro g hg
      obtain rfl := Option.mem_some.mp hg
      exact t.char_mem_stops
    | _ => exact absurd h (by simp [Symbol.joins])

variable {symbols : List Symbol}

theorem significant_symbol {lineStart : Bool} {s : Symbol} {rest : Text} (h : ∀ g ∈ rest.head?, s.Allows g) :
    ∃ lineStart', significant (Piece.ofText lineStart (s.text ++ rest)) =
      (s.kind, s.text) :: significant (Piece.ofText lineStart' rest) := by
  have hkind : (s.kind != .comment) = true := bne_iff_ne.mpr s.kind_ne.1
  refine ⟨Piece.lineStartPast lineStart (.lexeme s.kind s.text), ?_⟩
  show significant (Piece.ofText lineStart ((Piece.lexeme s.kind s.text).text ++ rest)) = _
  rw [Piece.ofText_of_leads (leads_symbol lineStart h)]
  exact List.filter_cons_of_pos hkind

theorem significant_parts (lineStart : Bool) {parts : List (List Filler × Symbol)}
    (hparts : parts.IsChain fun a b => a.2.joins b.2 = true → b.1 ≠ []) {rest : Text}
    (hallowed : ∀ s : Symbol, ∀ g ∈ rest.head?, s.Allows g)
    (hrest : ∀ lineStart, significant (Piece.ofText lineStart rest) = []) :
    significant (Piece.ofText lineStart (Layout.partsText parts ++ rest)) =
      parts.map fun part => (part.2.kind, part.2.text) := by
  induction parts generalizing lineStart with
  | nil => exact hrest lineStart
  | cons part parts ih =>
    obtain ⟨fillers, s⟩ := part
    -- right behind the symbol stands a filler, or the next symbol if the two are not read as one
    have hnext : ∀ g ∈ (Layout.partsText parts ++ rest).head?, s.Allows g := by
      cases parts with
      | nil => exact hallowed s
      | cons next parts =>
        obtain ⟨fillers', s'⟩ := next
        have hapart := (List.isChain_cons_cons.mp hparts).1
        rw [Layout.partsText, List.flatMap_cons, List.append_assoc, List.append_assoc]
        cases fillers' with
        | nil =>
          refine Symbol.allowed ?_ _
          simpa using hapart
        | cons f fillers' =>
          rw [fillersText, List.flatMap_cons, List.append_assoc]
          exact f.allowed s _
    obtain ⟨lineStart₁, hfillers⟩ := significant_fillers lineStart fillers
      (s.text ++ (Layout.partsText parts ++ rest))
    obtain ⟨lineStart₂, hsymbol⟩ := significant_symbol hnext
    rw [Layout.partsText, List.flatMap_cons, List.append_assoc, List.append_assoc, List.map_cons,
      ← ih lineStart₂ hparts.tail, ← hsymbol, ← hfillers]
    rfl

namespace Layout

/-- What stands behind the last symbol holds no other. -/
theorem significant_trailer (layout : Layout symbols) (lineStart : Bool) :
    significant (Piece.ofText lineStart layout.trailerText) = [] := by
  obtain ⟨lineStart₁, hfillers⟩ := significant_fillers lineStart layout.trailer
    ((layout.lastLine.map fun body => .scalar '/' :: .scalar '/' :: body.1).getD [])
  refine hfillers.trans ?_
  cases layout.lastLine with
  | none => simp [Piece.ofText, significant, Piece.lexemes]
  | some body =>
    obtain ⟨lineStart₂, hline⟩ := significant_line lineStart₁ [] body.2
      fun g hg => absurd hg (by simp)
    rw [List.append_nil] at hline
    refine hline.trans ?_
    simp [Piece.ofText, significant, Piece.lexemes]

theorem trailer_allowed (layout : Layout symbols) (s : Symbol) :
    ∀ g ∈ layout.trailerText.head?, s.Allows g := by
  unfold trailerText
  cases layout.trailer with
  | cons f fillers =>
    rw [fillersText, List.flatMap_cons, List.append_assoc]
    exact f.allowed s _
  | nil =>
    cases layout.lastLine with
    | none => exact fun g hg => absurd hg (by simp [fillersText])
    | some body => exact (Filler.line body.1 body.2).allowed s []

/-- A text laid out is cut into its symbols, with nothing but comments between them. -/
theorem significant_ofText (layout : Layout symbols) (lineStart : Bool) :
    significant (Piece.ofText lineStart layout.text) = symbols.map fun s => (s.kind, s.text) := by
  have hsymbols := congrArg (List.map fun s : Symbol => (s.kind, s.text)) layout.symbols_eq
  rw [List.map_map] at hsymbols
  rw [text, significant_parts lineStart layout.apart layout.trailer_allowed layout.significant_trailer]
  exact hsymbols

end Layout

/-! ## The tokens of a layout -/

/-- Tokens that are the given symbols, one for each. -/
def Spells (ts : List Token) (symbols : List Symbol) : Prop :=
  ts.map (fun t => (t.kind, t.text)) = symbols.map fun s => (s.kind, s.text)

namespace Layout

/-- The tokens of a layout but for its comments are its symbols. -/
theorem spells_tokens (layout : Layout symbols) :
    Spells ((tokens layout.text).filter fun t => !t.isComment) symbols := by
  have hfilter : (fun t : Token => !t.isComment) =
      (fun l : TokenKind × Text => l.1 != .comment) ∘ fun t => (t.kind, t.text) := rfl
  rw [Spells, hfilter, ← List.filter_map, tokens, Piece.map_place]
  exact layout.significant_ofText true

/-- No directive stands in a layout. -/
theorem directives_tokens (layout : Layout symbols) : (tokens layout.text).filter (·.isDirective) = [] := by
  refine List.filter_eq_nil_iff.mpr fun t ht hdirective => ?_
  have hcomment : (!t.isComment) = true := by
    rw [Token.isDirective, beq_iff_eq] at hdirective
    rw [Token.isComment, hdirective]
    rfl
  have hfiltered : t ∈ (tokens layout.text).filter fun t => !t.isComment := List.mem_filter.mpr ⟨ht, hcomment⟩
  have hmem := List.mem_map_of_mem (f := fun t : Token => (t.kind, t.text)) hfiltered
  rw [layout.spells_tokens] at hmem
  obtain ⟨s, -, hs⟩ := List.mem_map.mp hmem
  rw [Token.isDirective, ← (Prod.mk.inj hs).1, beq_iff_eq] at hdirective
  exact s.kind_ne.2 hdirective

/-- The code of a layout is its symbols. -/
theorem spells_code (layout : Layout symbols) : Spells (Token.code (tokens layout.text)) symbols := by
  have hcode : Token.code (tokens layout.text) = (tokens layout.text).filter fun t => !t.isComment := by
    refine List.filter_congr fun t ht => ?_
    have hnot := List.filter_eq_nil_iff.mp layout.directives_tokens t ht
    rw [Token.isCode, Bool.eq_false_iff.mpr hnot]
    exact Bool.and_true _
  rw [hcode]
  exact layout.spells_tokens

/-- There is a layout with a space in front of each symbol. -/
instance : Inhabited (Layout symbols) where
  default := {
    parts := symbols.map fun s => ([.blank ' ' (by decide)], s)
    trailer := []
    lastLine := none
    symbols_eq := (List.map_map ..).trans (List.map_id symbols)
    apart := by
      refine List.Pairwise.isChain (List.pairwise_map.mpr ?_)
      exact List.pairwise_iff_getElem.mpr fun _ _ _ _ _ _ => by simp }

end Layout

end HouseStyle.Core
