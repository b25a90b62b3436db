import HouseStyle.Proofs.Provenance
import HouseStyle.Proofs.Renaming
import HouseStyle.Rule.Layout

/-!
# What a fix would put in and what stands there

Each fix puts something in its place: a new name over an old one, ` class` behind the keyword of an
enumeration, the guarding line behind the comments at the start of a header. If the text had that already
at this place, the file would be read in another way:

- `eq_text_of_name_at`: a name that stands where a word starts, and ends there, is that word.
- `isScopedEnum_of_class_behind`: an enumeration with ` class` behind its keyword is scoped.
- `hasGuard_of_inserted`: a header with the guarding line where it would be put in has a guard.

So none of them leaves a text as it is.
-/

namespace HouseStyle

open scoped List

/-! ## What stands behind a token -/

/-- The cut of what stands behind a token. -/
theorem exists_pieces_behind {source : Text} {t : Token} (h : t ∈ tokens source) :
    ∃ lineStart front, Piece.ofText true source =
        front ++ Piece.ofText lineStart (source.drop t.stop) ∧ (Piece.join front).length = t.stop := by
  obtain ⟨front, back, hps, hstart, hstop⟩ := exists_piece_of_mem_tokens h
  have hfront : Piece.ofText true source = (front ++ [.lexeme t.kind t.text]) ++ back := by
    rw [hps, List.append_assoc]
    rfl
  have hlen : (Piece.join (front ++ [.lexeme t.kind t.text])).length = t.stop := by
    rw [Piece.join_append, List.length_append, ← hstart, hstop]
    simp [Piece.text]
  have hback : source.drop t.stop = Piece.join back := by
    rw [← Piece.join_ofText true source, hfront, Piece.join_append, List.drop_left' hlen]
  refine ⟨(front ++ [Piece.lexeme t.kind t.text]).foldl Piece.lineStartPast true,
    front ++ [.lexeme t.kind t.text], ?_, hlen⟩
  rw [hback, Piece.ofText_eq_append hfront]
  exact hfront

/-- The token that comes next in the code starts behind the gap if there is one at all. -/
theorem head_of_next {source : Text} {t u : Token} {rest : List Token}
    (hrest : t :: rest <:+ Token.code (tokens source)) (hu : u ∈ Token.code (tokens source))
    (hstart : u.start = t.stop + 1) (hgap : (source.drop t.stop).head? = some (.scalar ' ')) :
    rest.head? = some u := by
  have hordered : (Token.code (tokens source)).Pairwise fun a b => a.stop ≤ b.start :=
    (tokens_ordered source).sublist List.filter_sublist
  have mem_tokens : ∀ {a : Token}, a ∈ Token.code (tokens source) → a ∈ tokens source :=
    fun ha => (List.mem_filter.mp ha).1
  obtain ⟨before, hcode⟩ := hrest
  have ht : t ∈ Token.code (tokens source) := by
    rw [← hcode]
    simp
  have htpos := start_lt_stop (mem_tokens ht)
  have hupos := start_lt_stop (mem_tokens hu)
  rw [← hcode] at hu hordered
  obtain ⟨-, hback, hcross⟩ := List.pairwise_append.mp hordered
  -- the token is none of those up to `t`
  have hmem : u ∈ rest := by
    rcases List.mem_append.mp hu with h | h
    · have := hcross u h t List.mem_cons_self
      omega
    · rcases List.mem_cons.mp h with rfl | h
      · omega
      · exact h
  cases rest with
  | nil => exact absurd hmem (by simp)
  | cons b rest =>
    rcases List.mem_cons.mp hmem with rfl | hlater
    · rfl
    · -- another one would have to be the space
      have hb : b ∈ tokens source := mem_tokens (by rw [← hcode]; simp)
      have hfirst := (List.pairwise_cons.mp hback).1 b List.mem_cons_self
      have hsecond := (List.pairwise_cons.mp (List.pairwise_cons.mp hback).2).1 u hlater
      have hbpos := start_lt_stop hb
      obtain ⟨_, front, behind, hsource, hbstart, -, g, more, htext, -, hspacing, -⟩ :=
        exists_leads_of_mem_tokens hb
      have hplace : t.stop = front.length := by omega
      rw [hsource, hplace, List.append_assoc, List.drop_left, htext] at hgap
      obtain rfl := Option.some.inj hgap
      exact absurd hspacing (by decide)

/-! ## Names -/

/-- A name that stands where a word starts, and that does not go on, is this word. -/
theorem eq_text_of_name_at {source : Text} {t : Token} (ht : t ∈ tokens source)
    (hkind : t.kind = .identifier) {name rest : Text} (hname : ∀ g ∈ name, Lexeme.continuesWord g = true)
    (hrest : Lexeme.EndsWord rest) (h : source.drop t.start = name ++ rest) : name = t.text := by
  obtain ⟨hfrom, -, hall, hend⟩ := word_of_mem_tokens ht (Or.inl hkind)
  rw [hfrom] at h
  rw [← Lexeme.takeWhile_name hname hrest, ← h, Lexeme.takeWhile_name hall hend]

/-! ## Enumerations -/

theorem leads_class (lineStart : Bool) (rest : Text) :
    Piece.Leads lineStart (.lexeme (.keyword .classKw) (Text.ofString "class")) (.scalar ' ' :: rest) := by
  refine ⟨.scalar 'c', Text.ofString "lass", rfl, by decide, by decide, rfl, ?_⟩
  show Lexeme.leading lineStart (.scalar 'c' :: (Text.ofString "lass" ++ .scalar ' ' :: rest)) = _
  rw [Lexeme.leading_startsWord (by decide) (by decide)]
  rfl

/-- The keyword `class` behind another token. -/
theorem exists_class_behind {source : Text} {t : Token} (ht : t ∈ tokens source) {rest : Text}
    (h : source.drop t.stop = Text.ofString " class" ++ .scalar ' ' :: rest) :
    ∃ u ∈ Token.code (tokens source), u.kind = .keyword .classKw ∧ u.start = t.stop + 1 := by
  obtain ⟨lineStart, front, hcut, hlen⟩ := exists_pieces_behind ht
  have hpieces : Piece.ofText lineStart (source.drop t.stop) = .gap [.scalar ' '] ::
      .lexeme (.keyword .classKw) (Text.ofString "class") :: Piece.ofText false (.scalar ' ' :: rest) := by
    rw [h]
    show Piece.ofText lineStart (.scalar ' ' :: (Text.ofString "class" ++ .scalar ' ' :: rest)) = _
    rw [Piece.ofText_spacing (by decide) (by decide)]
    exact congrArg _ (Piece.ofText_of_leads (leads_class lineStart rest))
  have hsplit : Piece.ofText true source = (front ++ [.gap [.scalar ' ']]) ++
      .lexeme (.keyword .classKw) (Text.ofString "class") :: Piece.ofText false (.scalar ' ' :: rest) := by
    rw [hcut, hpieces, List.append_assoc]
    rfl
  obtain ⟨u, hu, hclass, -, hstart, -⟩ := mem_tokens_of_piece hsplit
  rw [Piece.join_append, List.length_append, hlen] at hstart
  refine ⟨u, List.mem_filter.mpr ⟨hu, ?_⟩, hclass, hstart⟩
  simp [Token.isCode, Token.isComment, Token.isDirective, hclass]

theorem Extraction.isScopedEnum_of_enumHeadFrom {isScoped : Bool} {ts : List Token} {head : TypeHead}
    (h : enumHeadFrom? isScoped ts = some head) : head.isScopedEnum = isScoped := by
  unfold enumHeadFrom? at h
  split at h
  · exact absurd h (by simp)
  · split at h
    all_goals
      unfold TypeHead.finish? at h
      split at h
      · exact absurd h (by simp)
      · rw [← Option.some.inj h]

/-- An enumeration with ` class` behind its keyword is scoped. -/
theorem isScopedEnum_of_class_behind {text : Text} {e : Entity} (he : e ∈ (extract (tokens text)).entities)
    {keyword : Token} (hkeyword : e.keyword = some keyword) (hkind : e.kind = .enum) {rest : Text}
    (h : text.drop keyword.stop = Text.ofString " class" ++ .scalar ' ' :: rest) :
    e.isScopedEnum = true := by
  rcases entity_cases he with ⟨-, -, hheads⟩ | ⟨_, -, -, hdefines⟩
  · obtain ⟨head, ⟨-, behind, hbehind, hread⟩, hscoped, henum, -⟩ := hheads keyword hkeyword
    have hmem := (List.mem_filter.mp (hbehind.subset List.mem_cons_self)).1
    -- the word is the next token, and so the head is read behind it
    obtain ⟨word, hword, hclass, hstart⟩ := exists_class_behind hmem h
    have hnext := head_of_next hbehind hword hstart (by rw [h]; rfl)
    unfold Extraction.typeHead? at hread
    rw [if_pos (henum hkind)] at hread
    unfold Extraction.enumHead? at hread
    rw [hnext, Option.any_some, if_pos (by simp [Token.isKeyword, hclass])] at hread
    rw [hscoped]
    exact Extraction.isScopedEnum_of_enumHeadFrom hread
  · rw [hdefines.keyword] at hkeyword
    exact absurd hkeyword (by simp)

/-! ## The guarding line -/

/-- A glyph that neither ends a directive nor opens a comment or a quotation in it. -/
def Lexeme.isPlain (g : Glyph) : Bool :=
  !isQuote g && ['\n', '\r', '\\', '/'].all (g != .scalar ·)

theorem Lexeme.directiveExtent_line {behind line : Text} (rest : Text)
    (hline : ∀ g ∈ line, isPlain g = true) (hbehind : splices behind = false) :
    directiveExtent behind (line ++ .scalar '\n' :: rest) = line.length := by
  induction line generalizing behind with
  | nil =>
    rw [List.nil_append, directiveExtent_newline, hbehind]
    rfl
  | cons g line ih =>
    rw [List.forall_mem_cons] at hline
    obtain ⟨hg, hline⟩ := hline
    have ne_of : ∀ {c : Char}, isPlain (.scalar c) = false → g ≠ .scalar c := by
      rintro c hc rfl
      rw [hc] at hg
      exact absurd hg (by decide)
    have hquote : isQuote g = false := by
      unfold isPlain at hg
      rw [Bool.and_eq_true, Bool.not_eq_true'] at hg
      exact hg.1
    have hsplices : splices (g :: behind) = false := by
      unfold splices
      split
      next h => exact absurd (List.cons.inj h).1 (ne_of (by decide))
      next h =>
        obtain ⟨rfl, -⟩ := List.cons.inj h
        exact beq_eq_false_iff_ne.mpr (ne_of (by decide))
      next => rfl
    rw [List.cons_append, directiveExtent_plain (ne_of (by decide)) fun h => absurd h (ne_of (by decide)),
      hquote, if_neg (by decide), ih hline hsplices, List.length_cons, Nat.add_comm]

theorem leads_pragmaOnce (rest : Text) :
    Piece.Leads true (.lexeme .directive (Text.ofString "#pragma once")) (.scalar '\n' :: rest) := by
  refine ⟨.scalar '#', Text.ofString "pragma once", rfl, by decide, by decide, rfl, ?_⟩
  show Lexeme.leading true (.scalar '#' :: (Text.ofString "pragma once" ++ .scalar '\n' :: rest)) = _
  rw [Lexeme.leading_directive, Lexeme.directiveTail, Lexeme.directiveExtent_line rest (by decide) rfl,
    List.take_left]
  rfl

/-- White space is no part of any token but an unknown one. -/
theorem Blank.not_lexeme {c : Char} (h : Blank.isBlank c = true) :
    Lexeme.startsWord (.scalar c) = false ∧ Lexeme.isDigit (.scalar c) = false ∧
      c ∉ ['#', '/', '.', '"', '\'', '\\'] ∧ ∀ q ∈ Punct.all, q.text.head? ≠ some (.scalar c) := by
  -- there are few of them
  obtain ⟨n, hn, rfl⟩ : ∃ n ∈ List.range' 0x09 5 ++ List.range' 0x1C 5 ++ List.range' 0x2000 11 ++
      [0x85, 0xA0, 0x1680, 0x2028, 0x2029, 0x202F, 0x205F, 0x3000], c = Char.ofNat n := by
    refine ⟨c.toNat, ?_, (Char.ofNat_toNat c).symm⟩
    simp only [isBlank, Bool.or_eq_true, Bool.and_eq_true, decide_eq_true_eq, beq_iff_eq] at h
    simp only [List.mem_append, List.mem_range'_1, List.mem_cons, List.not_mem_nil, or_false]
    rcases h with (((((((((h | h) | h) | h) | h) | h) | h) | h) | h) | h) | h
    all_goals omega
  revert n
  decide +kernel

/-- A glyph that no punctuator starts with is a token of its own, if no other shape takes it. -/
theorem Lexeme.symbol_unknown {g : Glyph} (h : ∀ q ∈ Punct.all, q.text.head? ≠ some g) (rest : Text) :
    symbol (g :: rest) = (.unknown, 1) := by
  have hnone : Punct.leading? (g :: rest) = none := by
    refine List.find?_eq_none.mpr fun q hq hprefix => h q hq ?_
    obtain ⟨more, hmore⟩ := List.isPrefixOf_iff_prefix.mp hprefix
    have hpos := text_length_pos q
    cases htext : q.text with
    | nil =>
      rw [htext] at hpos
      exact absurd hpos (by decide)
    | cons a t =>
      rw [htext] at hmore
      rw [List.head?_cons, (List.cons.inj hmore).1]
  unfold symbol
  rw [hnone]

/-- A blank is a piece of its own, whatever stands behind it. -/
theorem Piece.leads_blank {c : Char} (h : Blank.isBlank c = true) (lineStart : Bool) :
    ∃ p, p.text = [.scalar c] ∧ (∀ kind t, p = .lexeme kind t → kind = .unknown) ∧
      ∀ rest, Leads lineStart p rest := by
  obtain ⟨hword, hdigit, hsigns, hpuncts⟩ := Blank.not_lexeme h
  have ne_of : ∀ d ∈ ['#', '/', '.', '"', '\'', '\\'], (Glyph.scalar c) ≠ .scalar d := by
    rintro d hd heq
    rw [Glyph.scalar.inj heq] at hsigns
    exact hsigns hd
  by_cases hn : Glyph.scalar c = .scalar '\n'
  · exact ⟨.gap [.scalar c], rfl, fun _ _ heq => (Piece.noConfusion heq), fun _ => Or.inl (by rw [hn])⟩
  by_cases hs : (Glyph.scalar c).isSpacing = true
  · exact ⟨.gap [.scalar c], rfl, fun _ _ heq => (Piece.noConfusion heq),
      fun _ => Or.inr (Or.inl ⟨_, rfl, hn, hs⟩)⟩
  refine ⟨.lexeme .unknown [.scalar c], rfl, fun _ _ heq => (Piece.lexeme.inj heq).1.symm,
    fun rest => ⟨_, [], rfl, hn, by simpa using hs, ?_, ?_⟩⟩
  · refine Nat.le_zero.mp (Nat.le_of_not_lt fun hpos => ?_)
    exact ne_of '\\' (by simp) (head_of_spliceLength_pos hpos)
  · have hquote : Lexeme.isQuote (.scalar c) = false := by
      unfold Lexeme.isQuote
      rw [beq_eq_false_iff_ne.mpr (ne_of '"' (by simp)), beq_eq_false_iff_ne.mpr (ne_of '\'' (by simp))]
      rfl
    show Lexeme.leading lineStart (.scalar c :: rest) = (.unknown, 1)
    rw [Lexeme.leading_plain (fun h => ne_of '#' (by simp) h.1) fun h => absurd h (ne_of '/' (by simp)),
      hdigit, beq_eq_false_iff_ne.mpr (ne_of '.' (by simp)), hword, hquote, Lexeme.symbol_unknown hpuncts]
    rfl

namespace IncludeGuardRule

/-- The guarding line behind the rest of a line that is blank is a directive. -/
theorem pieces_of_pragmaOnce {line : Text} (hline : line.all isBlank = true) (lineStart : Bool)
    (rest : Text) :
    ∃ front back, Piece.ofText lineStart (line ++ .scalar '\n' :: (pragmaOnce ++ rest)) =
      front ++ .lexeme .directive (Text.ofString "#pragma once") :: back := by
  induction line generalizing lineStart with
  | nil =>
    refine ⟨[.gap [.scalar '\n']], Piece.ofText false (.scalar '\n' :: rest), ?_⟩
    rw [List.nil_append, Piece.ofText_newline]
    exact congrArg _ (Piece.ofText_of_leads (leads_pragmaOnce rest))
  | cons g line ih =>
    rw [List.all_cons, Bool.and_eq_true] at hline
    obtain ⟨c, rfl, hc⟩ : ∃ c, g = .scalar c ∧ Blank.isBlank c = true := by
      cases g with
      | raw b => exact absurd hline.1 (by simp [isBlank, Glyph.satisfies])
      | scalar c => exact ⟨c, rfl, hline.1⟩
    obtain ⟨p, hp, -, hlead⟩ := Piece.leads_blank hc lineStart
    obtain ⟨front, back, hrest⟩ := ih hline.2 (Piece.lineStartPast lineStart p)
    have hcut := Piece.ofText_of_leads (hlead (line ++ .scalar '\n' :: (pragmaOnce ++ rest)))
    rw [hp, hrest] at hcut
    exact ⟨p :: front, back, hcut⟩

/-- A file with the guarding line among its tokens has a guard. -/
theorem hasGuard_of_mem {f : SourceFile} {t : Token} (ht : t ∈ f.tokens) (hkind : t.kind = .directive)
    (htext : t.text = Text.ofString "#pragma once") : hasGuard f = true := by
  unfold hasGuard isGuarded
  rw [Bool.or_eq_true]
  refine Or.inl (List.any_eq_true.mpr ⟨t.text, List.mem_map_of_mem ?_, ?_⟩)
  · exact List.mem_filter.mpr ⟨ht, by rw [Token.isDirective, hkind]; rfl⟩
  · rw [htext]
    decide

theorem hasGuard_of_piece {config : Config} {isOneOfMany : Bool} {path : SourcePath} {text : Text}
    {front back : List Piece} (h : Piece.ofText true text =
      front ++ .lexeme .directive (Text.ofString "#pragma once") :: back) :
    hasGuard (.ofText config isOneOfMany path text) = true := by
  obtain ⟨t, ht, hkind, htext, -⟩ := mem_tokens_of_piece h
  exact hasGuard_of_mem ht hkind htext

/-- A line that does not end the text ends in a line feed. -/
theorem exists_below {t : Text} (h : (t.takeWhile (· != .scalar '\n')).length ≠ t.length) :
    ∃ below, t = t.takeWhile (· != .scalar '\n') ++ .scalar '\n' :: below := by
  have hcut := List.takeWhile_append_dropWhile (p := (· != Glyph.scalar '\n')) (l := t)
  cases hd : t.dropWhile (· != .scalar '\n') with
  | nil =>
    rw [hd, List.append_nil] at hcut
    exact absurd (congrArg List.length hcut) h
  | cons g below =>
    have hg := List.head?_dropWhile_not (· != Glyph.scalar '\n') t
    rw [hd] at hg hcut
    rw [show g = .scalar '\n' by simpa using hg] at hcut
    exact ⟨below, hcut.symm⟩

/-- Where the guarding line is put in: at the start of a file without leading comments; at its end if
the last of these has no line end behind it; else behind that comment, or on the line below if nothing
follows on the same line. -/
theorem guardEdit_eq_some {f : SourceFile} {e : Edit} (h : guardEdit? f = some e) :
    e = ⟨0, 0, pragmaOnce⟩ ∨ e = ⟨f.text.length, f.text.length, .scalar '\n' :: pragmaOnce⟩ ∨
      ∃ comment ∈ f.tokens, ∃ line below,
        f.text.drop comment.stop = line ++ .scalar '\n' :: below ∧ .scalar '\n' ∉ line ∧
          (line.all isBlank = false ∧ e = ⟨comment.stop, comment.stop, .scalar '\n' :: pragmaOnce⟩ ∨
            line.all isBlank = true ∧ e = ⟨(comment.stop + line.length + 1 : Nat),
              (comment.stop + line.length + 1 : Nat), pragmaOnce⟩) := by
  unfold guardEdit? at h
  split at h
  · exact Or.inl (Option.some.inj h).symm
  · next comment hcomment =>
    split at h
    · exact absurd h (by simp)
    · dsimp only at h
      split at h
      · exact Or.inr (Or.inl (Option.some.inj h).symm)
      · next hlen =>
        obtain ⟨below, hbelow⟩ := exists_below hlen
        refine Or.inr (Or.inr ⟨comment, (List.takeWhile_sublist _).subset
          (List.mem_of_getLast? hcomment), _, below, hbelow, fun hmem => ?_, ?_⟩)
        · exact absurd (List.all_eq_true.mp List.all_takeWhile _ hmem) (by simp)
        split at h
        · next hblank => exact Or.inl ⟨by simpa using hblank, (Option.some.inj h).symm⟩
        · next hblank => exact Or.inr ⟨by simpa using hblank, (Option.some.inj h).symm⟩

/-- A header in which the guarding line stands where it would be put in has a guard. -/
theorem hasGuard_of_inserted {config : Config} {isOneOfMany : Bool} {path : SourcePath} {text : Text}
    {e : Edit} (he : guardEdit? (.ofText config isOneOfMany path text) = some e) {rest : Text}
    (h : text.drop e.start.toNat = e.replacement ++ rest) :
    hasGuard (.ofText config isOneOfMany path text) = true := by
  rcases guardEdit_eq_some he with rfl | rfl | ⟨comment, hcomment, line, below, hline, hclean, hwhere⟩
  · -- it is the first line
    have hcut : Piece.ofText true text = [] ++ .lexeme .directive (Text.ofString "#pragma once") ::
        Piece.ofText false (.scalar '\n' :: rest) := by
      rw [show text = pragmaOnce ++ rest from h]
      exact Piece.ofText_of_leads (leads_pragmaOnce rest)
    exact hasGuard_of_piece hcut
  · -- nothing stands at the end of the text
    have hnil : text.drop ((text.length : Int)).toNat = [] := by simp
    rw [show ((SourceFile.ofText config isOneOfMany path text).text.length : Int).toNat =
      (text.length : Int).toNat from rfl, hnil] at h
    exact absurd h (by simp)
  · change text.drop comment.stop = _ at hline
    rcases hwhere with ⟨hblank, rfl⟩ | ⟨hblank, rfl⟩
    · -- the line would end right behind the comment, so it would be blank
      have hempty : line = [] := by
        cases line with
        | nil => rfl
        | cons g line =>
          have hsame := hline.symm.trans h
          obtain rfl := (List.cons.inj hsame).1
          exact absurd List.mem_cons_self hclean
      rw [hempty] at hblank
      exact absurd hblank (by decide)
    · have hbelow : below = pragmaOnce ++ rest := by
        rw [← h]
        show below = text.drop ((comment.stop + line.length + 1 : Nat) : Int).toNat
        rw [Int.toNat_natCast, Nat.add_assoc, ← List.drop_drop, hline, ← List.drop_drop, List.drop_left]
        rfl
      obtain ⟨lineStart, front, hpieces, -⟩ := exists_pieces_behind hcomment
      obtain ⟨blanks, back, hback⟩ := pieces_of_pragmaOnce hblank lineStart rest
      rw [hline, hbelow, hback, ← List.append_assoc] at hpieces
      exact hasGuard_of_piece hpieces

end IncludeGuardRule

end HouseStyle
