import HouseStyle.Proofs.FixConflicts

/-!
# Where the guarding line comes to stand

The guarding line is put in behind the comments at the start of a header, and then it should be the first token
that is no comment (`LeadsWithGuard`). It is, unless something stands between those comments and the line: the
place is found by line feeds and white space, and both miss code. In a file whose last line holds a comment and
code behind it the line goes to the end of the file, and white space that separates no tokens is passed over.

- `ofText_of_gaps`: gaps at the start of a text do not depend on what comes behind them.
- `leadsWithGuard_iff`: a line put in behind the comments at the start leads the file exactly if nothing between
  them is a token.
- `guard_put_in_iff`: the reports of the rule, and when their fix works.
-/

namespace HouseStyle

namespace Piece

/-! ## Gaps at the start of a text -/

/-- There is no token among the pieces. -/
def OnlyGaps (ps : List Piece) : Prop := ∀ kind s, Piece.lexeme kind s ∉ ps

theorem place_of_onlyGaps {ps : List Piece} (h : OnlyGaps ps) (p : Place) : place p ps = [] := by
  induction ps generalizing p with
  | nil => rfl
  | cons q ps ih =>
    cases q with
    | gap s => exact ih (fun kind t ht => h kind t (List.mem_cons_of_mem _ ht)) _
    | lexeme kind s => exact absurd List.mem_cons_self (h kind s)

/-- Pieces are gaps only, or there is a first token. -/
theorem onlyGaps_or_exists (ps : List Piece) :
    OnlyGaps ps ∨ ∃ gs kind s more, OnlyGaps gs ∧ ps = gs ++ .lexeme kind s :: more := by
  induction ps with
  | nil => exact Or.inl fun kind s h => absurd h List.not_mem_nil
  | cons q ps ih =>
    cases q with
    | lexeme kind s => exact Or.inr ⟨[], kind, s, ps, fun _ _ h => absurd h List.not_mem_nil, rfl⟩
    | gap t =>
      have hcons : ∀ {gs : List Piece}, OnlyGaps gs → OnlyGaps (.gap t :: gs) := by
        intro gs hgs kind s h
        rcases List.mem_cons.mp h with h | h
        · exact Piece.noConfusion h
        · exact hgs kind s h
      rcases ih with h | ⟨gs, kind, s, more, hgs, rfl⟩
      · exact Or.inl (hcons h)
      · exact Or.inr ⟨.gap t :: gs, kind, s, more, hcons hgs, rfl⟩

/-- Gaps at the start of a text are cut off it whatever stands behind them. -/
theorem ofText_of_gaps {lineStart : Bool} {t : Text} {gs rest : List Piece} (hgs : OnlyGaps gs)
    (h : ofText lineStart t = gs ++ rest) (v : Text) :
    ofText lineStart (join gs ++ v) = gs ++ ofText (gs.foldl lineStartPast lineStart) v := by
  induction gs generalizing lineStart t with
  | nil => rfl
  | cons q gs ih =>
    cases q with
    | lexeme kind s => exact absurd List.mem_cons_self (hgs kind s)
    | gap s =>
      obtain ⟨-, hlead, hrest⟩ := ofText_eq_cons_iff.mp h
      have hlead' : Leads lineStart (.gap s) (join gs ++ v) := by
        rcases hlead with hn | hs | ⟨hpos, hlen⟩
        · exact Or.inl hn
        · exact Or.inr (Or.inl hs)
        · exact Or.inr (Or.inr ⟨hpos, spliceLength_of_eq_length hpos hlen _⟩)
      rw [join_cons, List.append_assoc, ofText_of_leads hlead',
        ih (fun kind t ht => hgs kind t (List.mem_cons_of_mem _ ht)) hrest]
      rfl

theorem lineStartPast_gaps {gs : List Piece} (hgs : OnlyGaps gs) : gs.foldl lineStartPast true = true :=
  lineStartPast_opening fun _ hp kind t heq => absurd (heq ▸ hp) (hgs kind t)

/-- Whether a text starts with a splice is told by the line that it starts with. -/
theorem spliceLength_line {t : Text} (ht : t ≠ []) (u v : Text) :
    Lexeme.spliceLength (t ++ .scalar '\n' :: u) = Lexeme.spliceLength (t ++ .scalar '\n' :: v) := by
  match t, ht with
  | [g], _ => simp only [List.cons_append, List.nil_append, Lexeme.spliceLength]; grind
  | [g, h], _ => simp only [List.cons_append, List.nil_append, Lexeme.spliceLength]; grind
  | g :: h :: i :: t, _ => simp only [List.cons_append, Lexeme.spliceLength]; grind

/-- A line that is gaps only, its line feed included, in front of any text. -/
structure IsGapLine (line : Text) (gs : List Piece) : Prop where
  gaps : OnlyGaps gs
  join : join gs = line ++ [.scalar '\n']
  cut : ∀ v, ofText true (line ++ .scalar '\n' :: v) = gs ++ ofText true v

/-- A line with gaps at its start and a glyph behind them that starts a token, in front of any text. -/
structure IsTokenLine (line : Text) (gs : List Piece) (g : Glyph) (rest : Text) : Prop where
  gaps : OnlyGaps gs
  eq : line = Piece.join gs ++ g :: rest
  cut : ∀ v, ofText true (Piece.join gs ++ v) = gs ++ ofText true v
  ne_newline : g ≠ .scalar '\n'
  not_spacing : g.isSpacing = false
  not_splice : ∀ v, Lexeme.spliceLength (g :: (rest ++ .scalar '\n' :: v)) = 0

/-- A line is gaps only, or a token starts in it. -/
theorem gapLine_or_tokenLine (line : Text) :
    (∃ gs, IsGapLine line gs) ∨ ∃ gs g rest, IsTokenLine line gs g rest := by
  have hline : join (ofText true (line ++ [.scalar '\n'])) = line ++ [.scalar '\n'] := join_ofText _ _
  rcases onlyGaps_or_exists (ofText true (line ++ [.scalar '\n'])) with hgaps | ⟨gs, kind, s, more, hgs, hpieces⟩
  · refine Or.inl ⟨_, hgaps, hline, fun v => ?_⟩
    have hcut := ofText_of_gaps hgaps (List.append_nil _).symm v
    rwa [lineStartPast_gaps hgaps, hline, List.append_assoc] at hcut
  · right
    obtain ⟨-, ⟨g, inner, rfl, hn, hspacing, hsplice, -⟩, -⟩ := ofText_eq_cons_iff.mp (ofText_eq_append hpieces)
    rw [hpieces, join_append] at hline
    change join gs ++ (g :: (inner ++ join more)) = _ at hline
    -- the token is not the line feed, so the line goes on up to there
    rcases List.eq_nil_or_concat' (inner ++ join more) with hnil | ⟨rest, last, hrest⟩
    · rw [hnil] at hline
      exact absurd (List.append_inj_right' hline rfl) (by simpa using hn)
    · rw [hrest, ← List.cons_append, ← List.append_assoc] at hline
      obtain ⟨hline, hlast⟩ := List.append_inj' hline rfl
      rw [List.cons_append, hrest, hlast] at hsplice
      refine ⟨gs, g, rest, hgs, hline.symm, fun v => ?_, hn, hspacing, fun v => ?_⟩
      · rw [ofText_of_gaps hgs hpieces v, lineStartPast_gaps hgs]
      · rw [← hsplice]
        exact spliceLength_line (List.cons_ne_nil g rest) v []

/-- The first token that is no comment, behind gaps. -/
theorem find_place {p : Place} {gs more : List Piece} {kind : TokenKind} (hgs : OnlyGaps gs)
    (hkind : kind ≠ .comment) (s : Text) :
    (place p (gs ++ .lexeme kind s :: more)).find? (fun t => !t.isComment) =
      some (tokenAt (p.past (join gs)) kind s) := by
  rw [place_append, place_of_onlyGaps hgs, List.nil_append, place_lexeme, List.find?_cons_of_pos]
  simpa [Token.isComment, tokenAt] using hkind

/-- Where something other than a comment starts behind gaps, a token starts. -/
theorem exists_lexeme (lineStart : Bool) {g : Glyph} {t : Text} (hn : g ≠ .scalar '\n')
    (hspacing : g.isSpacing = false) (hsplice : Lexeme.spliceLength (g :: t) = 0) :
    ∃ kind s more, ofText lineStart (g :: t) = .lexeme kind s :: more ∧
      (Lexeme.leading lineStart (g :: t)).1 = kind := by
  obtain ⟨p, rest, hsplit, hlead⟩ := exists_leads lineStart g t
  cases p with
  | gap s =>
    exfalso
    rcases hlead with rfl | ⟨a, rfl, -, ha⟩ | ⟨hpos, hlen⟩
    · exact hn (List.cons.inj hsplit).1
    · rw [(List.cons.inj hsplit).1, ha] at hspacing
      exact absurd hspacing (by decide)
    · change g :: t = s ++ rest at hsplit
      rw [← hsplit, hsplice] at hlen
      omega
  | lexeme kind s =>
    obtain ⟨_, _, -, -, -, -, hleading⟩ := id hlead
    change g :: t = s ++ rest at hsplit
    refine ⟨kind, s, ofText (lineStartPast lineStart (.lexeme kind s)) rest, ?_, by rw [hsplit, hleading]⟩
    rw [hsplit]
    exact ofText_of_leads hlead

end Piece

/-! ## The line behind the comments at the start -/

namespace IncludeGuardRule

open Piece

/-- The first token of a text that is no comment is the guarding line, at the given offset. -/
def LeadsWithGuard (text : Text) (offset : Nat) : Prop :=
  ∃ t ∈ (tokens text).find? fun t => !t.isComment,
    t.kind = .directive ∧ t.text = Text.ofString "#pragma once" ∧ t.start = offset

/-- No comment follows the last one of those at the start. -/
def IsLast (back : List Piece) : Prop :=
  ∀ gs s more, OnlyGaps gs → back ≠ gs ++ .lexeme .comment s :: more

variable {text : Text} {front back : List Piece}

theorem isComment_of_opening (hopening : ∀ p ∈ front, p.IsOpening) {p : Place} :
    ∀ t ∈ place p front, t.isComment = true := by
  intro t ht
  obtain ⟨before, behind, hps, -⟩ := mem_place ht
  have hkind := hopening (.lexeme t.kind t.text) (by rw [hps]; simp) t.kind t.text rfl
  rw [Token.isComment, hkind]
  rfl

/-- Behind the last comment at the start of a text comes no other one. -/
theorem isLast_of_getLast {comment : Token}
    (hcomment : ((tokens text).takeWhile (·.isComment)).getLast? = some comment) (h : Opening text front back)
    (hstop : comment.stop = (join front).length) : IsLast back := by
  rintro gs s more hgs rfl
  have htokens : tokens text = place .start front ++
      (tokenAt ((Place.start.past (join front)).past (join gs)) .comment s ::
        place (((Place.start.past (join front)).past (join gs)).past s) more) := by
    rw [tokens, h.pieces, place_append, place_append, place_of_onlyGaps hgs]
    rfl
  have hlater : ∀ t ∈ place ((Place.start.past (join front)).past (join gs)) (.lexeme .comment s :: more),
      (join front).length ≤ t.start := by
    intro t ht
    have := offset_le_start ht
    rw [offset_past, offset_past, show Place.start.offset = 0 from rfl] at this
    omega
  -- the last of the comments would start behind its own end
  have hmem := List.mem_of_getLast? hcomment
  rw [htokens, List.takeWhile_append_of_pos (isComment_of_opening h.isOpening), List.takeWhile_cons,
    if_pos (by rfl), List.getLast?_append_of_ne_nil _ (by simp)] at hcomment
  have hstart := hlater comment (by
    have := List.mem_of_getLast? hcomment
    exact (List.cons_subset_cons _ (List.takeWhile_subset _)) this)
  have := start_lt_stop ((List.takeWhile_sublist _).subset hmem)
  omega

/-- A token that starts with a comment sign of its own line starts a comment whatever stands behind that line. -/
theorem exists_sign_of_comment {lineStart : Bool} {g : Glyph} {rest v : Text}
    (h : (Lexeme.leading lineStart (g :: (rest ++ .scalar '\n' :: v))).1 = .comment) :
    g = .scalar '/' ∧ ∃ sign inner, rest = sign :: inner ∧
      ∀ t, (Lexeme.leading lineStart (.scalar '/' :: sign :: t)).1 = .comment := by
  obtain ⟨hg, hsign⟩ := Lexeme.comment_of_leading (Prod.ext h rfl)
  refine ⟨hg, ?_⟩
  cases rest with
  | nil =>
    rcases hsign with ⟨t, ht, -⟩ | ⟨t, ht, -⟩ <;> exact absurd (List.cons.inj ht).1 (by decide)
  | cons sign inner =>
    rcases hsign with ⟨t, ht, -⟩ | ⟨t, ht, -⟩ <;> obtain ⟨rfl, -⟩ := List.cons.inj ht
    · exact ⟨_, inner, rfl, fun t => by rw [Lexeme.leading_lineComment]⟩
    · exact ⟨_, inner, rfl, fun t => by rw [Lexeme.leading_blockComment]⟩

/-- A token that starts in the line behind the last comment is no comment, and that does not depend on what
follows the line. -/
theorem exists_code_in_line (h : Opening text front back) (hlast : IsLast back) {line u : Text}
    (hback : join back = line ++ u) {gs : List Piece} {g : Glyph} {rest : Text}
    (hline : IsTokenLine line gs g rest) (v : Text) :
    ∃ kind s more, kind ≠ .comment ∧
      ofText true (line ++ .scalar '\n' :: v) = gs ++ .lexeme kind s :: more := by
  obtain ⟨kind, s, more, hfirst, hkind⟩ :=
    exists_lexeme true hline.ne_newline hline.not_spacing (hline.not_splice v)
  refine ⟨kind, s, more, ?_, ?_⟩
  · rintro rfl
    -- the comment would be there already
    obtain ⟨rfl, sign, inner, rfl, hcomment⟩ := exists_sign_of_comment hkind
    obtain ⟨kind', s', more', hold, hkind'⟩ := exists_lexeme true (g := .scalar '/')
      (t := sign :: (inner ++ u)) hline.ne_newline hline.not_spacing rfl
    rw [hcomment] at hkind'
    subst hkind'
    refine hlast gs s' more' hline.gaps ?_
    rw [← h.cut_back, hback, hline.eq, List.append_assoc, List.cons_append, List.cons_append, hline.cut, hold]
  · rw [hline.eq, List.append_assoc, List.cons_append, hline.cut, hfirst]

/-- The first token of a file that is no comment, if it is known behind the comments at the start. -/
theorem find_tokens (hopening : ∀ p ∈ front, p.IsOpening) {updated : Text} {gs more : List Piece}
    {kind : TokenKind} {s : Text} (hgs : OnlyGaps gs) (hkind : kind ≠ .comment)
    (hpieces : ofText true updated = front ++ (gs ++ .lexeme kind s :: more)) :
    ∃ t ∈ (tokens updated).find? fun t => !t.isComment,
      t.kind = kind ∧ t.text = s ∧ t.start = (join front).length + (join gs).length := by
  have hcomments : (place .start front).find? (fun t => !t.isComment) = none := by
    refine List.find?_eq_none.mpr fun t ht => ?_
    simp [isComment_of_opening hopening t ht]
  refine ⟨tokenAt ((Place.start.past (join front)).past (join gs)) kind s, ?_, rfl, rfl, ?_⟩
  · rw [tokens, hpieces, place_append, List.find?_append, hcomments, Option.none_or, find_place hgs hkind]
    rfl
  · show ((Place.start.past (join front)).past (join gs)).offset = _
    rw [offset_past, offset_past, show Place.start.offset = 0 from rfl, Nat.zero_add]

/-- A guarding line that is put in behind the comments at the start, and behind some more text and a line end,
leads the file exactly if there is no token in between. -/
theorem leadsWithGuard_iff (h : Opening text front back) (hlast : IsLast back) {line u : Text}
    (hback : join back = line ++ u) (v : Text) :
    LeadsWithGuard (join front ++ (line ++ .scalar '\n' :: (pragmaOnce ++ v)))
        ((join front).length + line.length + 1) ↔
      tokens (line ++ [.scalar '\n']) = [] := by
  have hcut := h.cut hback (pragmaOnce ++ v)
  rcases gapLine_or_tokenLine line with ⟨gs, hline⟩ | ⟨gs, g, rest, hline⟩
  · have htokens : tokens (line ++ [.scalar '\n']) = [] := by
      rw [tokens, hline.cut, place_append, place_of_onlyGaps hline.gaps, ofText]
      rfl
    rw [hline.cut, ofText_pragmaOnce] at hcut
    obtain ⟨t, ht, hkind, htext, hstart⟩ := find_tokens h.isOpening hline.gaps (by decide) hcut
    rw [hline.join, List.length_append, ← Nat.add_assoc] at hstart
    exact iff_of_true ⟨t, ht, hkind, htext, hstart⟩ htokens
  · obtain ⟨kind, s, more, -, hfirst⟩ := exists_code_in_line h hlast hback hline []
    have htokens : tokens (line ++ [.scalar '\n']) ≠ [] := by
      rw [tokens, hfirst, place_append, place_lexeme]
      simp
    obtain ⟨kind, s, more, hkind, hfirst⟩ := exists_code_in_line h hlast hback hline (pragmaOnce ++ v)
    rw [hfirst] at hcut
    obtain ⟨t, ht, -, -, hstart⟩ := find_tokens h.isOpening hline.gaps hkind hcut
    refine iff_of_false ?_ htokens
    rintro ⟨t', ht', -, -, hstart'⟩
    obtain rfl := Option.some.inj (ht.symm.trans ht')
    have hlen := congrArg List.length hline.eq
    rw [List.length_append, List.length_cons] at hlen
    omega

/-- Another line feed behind a line is no token. -/
theorem tokens_line_eq_nil_iff (line : Text) :
    tokens (line ++ [.scalar '\n'] ++ [.scalar '\n']) = [] ↔ tokens (line ++ [.scalar '\n']) = [] := by
  rw [List.append_assoc]
  rcases gapLine_or_tokenLine line with ⟨gs, hline⟩ | ⟨gs, g, rest, hline⟩
  · have hgaps : ∀ v, tokens (line ++ .scalar '\n' :: v) =
        place (Place.start.past (join gs)) (ofText true v) := by
      intro v
      rw [tokens, hline.cut, place_append, place_of_onlyGaps hline.gaps, List.nil_append]
    refine iff_of_true ?_ ?_
    · rw [List.singleton_append, hgaps, ofText_newline, ofText]
      rfl
    · rw [hgaps, ofText]
      rfl
  · have hcode : ∀ v, tokens (line ++ .scalar '\n' :: v) ≠ [] := by
      intro v
      obtain ⟨kind, s, more, hfirst, -⟩ :=
        exists_lexeme true hline.ne_newline hline.not_spacing (hline.not_splice v)
      rw [tokens, hline.eq, List.append_assoc, List.cons_append, hline.cut, hfirst, place_append, place_lexeme]
      simp
    exact iff_of_false (hcode _) (hcode _)

/-! ## The fix of the rule -/

/-- Where the comments at the start of a file end. -/
def openingEnd (ts : List Token) : Nat := ((ts.takeWhile (·.isComment)).getLast?.map (·.stop)).getD 0

/-- The offset at which the directive of an edit stands in the new text: behind the line feed that is put in in
front of it, if there is one. -/
def directiveOffset (e : Edit) : Nat := e.start.toNat + (e.replacement.length - pragmaOnce.length)

/-- The text that an edit of the guarding line makes of a text. -/
def guarded (text : Text) (e : Edit) : Text := text.take e.start.toNat ++ (e.replacement ++ text.drop e.stop.toNat)

/-- The guarding line of an edit leads the new text exactly if there is no token between the comments at the
start of the text and the place of the edit. -/
def LeadsUnlessToken (text : Text) (openingEnd : Nat) (e : Edit) : Prop :=
  LeadsWithGuard (guarded text e) (directiveOffset e) ↔
    tokens (text.extract openingEnd e.start.toNat ++ [.scalar '\n']) = []

theorem text_eq_join (h : Opening text front back) : text = join front ++ join back := by
  rw [← join_append, ← h.pieces, join_ofText]

/-- The guarding line as the first line of a text without comments at its start. -/
theorem leadsUnlessToken_first (text : Text) : LeadsUnlessToken text 0 ⟨0, 0, pragmaOnce⟩ := by
  have hcut : ofText true (pragmaOnce ++ text) = [] ++ ([] ++ (guardPieces ++ ofText true text)) :=
    ofText_pragmaOnce text
  have hleads := find_tokens (fun p hp => absurd hp List.not_mem_nil)
    (fun kind s hmem => absurd hmem List.not_mem_nil) (by decide) hcut
  refine iff_of_true hleads ?_
  rw [tokens, List.extract_eq_take_drop]
  show place .start (ofText true [.scalar '\n']) = []
  rw [ofText_newline, ofText]
  rfl

/-- The guarding line at the end of a text. -/
theorem leadsUnlessToken_end (h : Opening text front back) (hlast : IsLast back) :
    LeadsUnlessToken text (join front).length ⟨text.length, text.length, .scalar '\n' :: pragmaOnce⟩ := by
  have htext := text_eq_join h
  have hlen := congrArg List.length htext
  rw [List.length_append] at hlen
  have hnew : guarded text ⟨text.length, text.length, .scalar '\n' :: pragmaOnce⟩ =
      join front ++ (join back ++ .scalar '\n' :: (pragmaOnce ++ [])) := by
    show text.take text.length ++ (.scalar '\n' :: pragmaOnce ++ text.drop text.length) = _
    rw [List.take_length, List.drop_length, List.append_nil, List.append_nil, ← List.append_assoc, ← htext]
  have hbetween : text.extract (join front).length text.length = join back := by
    rw [List.extract_eq_take_drop, hlen, Nat.add_sub_cancel_left, htext, List.drop_left, List.take_length]
  have hoffset : directiveOffset ⟨text.length, text.length, .scalar '\n' :: pragmaOnce⟩ =
      (join front).length + (join back).length + 1 := by
    rw [← hlen]
    rfl
  unfold LeadsUnlessToken
  rw [hnew, hoffset, Int.toNat_natCast, hbetween]
  exact leadsWithGuard_iff h hlast (List.append_nil (join back)).symm []

/-- The guarding line right behind the comments. -/
theorem leadsUnlessToken_behind (h : Opening text front back) (hlast : IsLast back) :
    LeadsUnlessToken text (join front).length
      ⟨(join front).length, (join front).length, .scalar '\n' :: pragmaOnce⟩ := by
  have hnew : guarded text ⟨(join front).length, (join front).length, .scalar '\n' :: pragmaOnce⟩ =
      join front ++ ([] ++ .scalar '\n' :: (pragmaOnce ++ join back)) := by
    show text.take (join front).length ++ (_ ++ text.drop (join front).length) = _
    rw [text_eq_join h, List.take_left, List.drop_left]
    rfl
  have hbetween : text.extract (join front).length (join front).length = [] := by
    rw [List.extract_eq_take_drop, Nat.sub_self, List.take_zero]
  unfold LeadsUnlessToken
  rw [hnew, Int.toNat_natCast, hbetween]
  exact leadsWithGuard_iff h hlast (List.nil_append (join back)).symm (join back)

/-- The guarding line on the line below the comments. -/
theorem leadsUnlessToken_below (h : Opening text front back) (hlast : IsLast back) {line below : Text}
    (hbelow : join back = line ++ .scalar '\n' :: below) :
    LeadsUnlessToken text (join front).length
      ⟨((join front).length + line.length + 1 : Nat), ((join front).length + line.length + 1 : Nat),
        pragmaOnce⟩ := by
  have hbetween : text.extract (join front).length ((join front).length + line.length + 1) =
      line ++ [.scalar '\n'] := by
    rw [List.extract_eq_take_drop, Nat.add_assoc, Nat.add_sub_cancel_left, text_eq_join h, List.drop_left, hbelow,
      List.take_length_add_append]
    rfl
  have hnew : guarded text ⟨((join front).length + line.length + 1 : Nat),
      ((join front).length + line.length + 1 : Nat), pragmaOnce⟩ =
        join front ++ (line ++ .scalar '\n' :: (pragmaOnce ++ below)) := by
    show text.take ((join front).length + line.length + 1) ++
      (pragmaOnce ++ text.drop ((join front).length + line.length + 1)) = _
    rw [text_eq_join h, hbelow, Nat.add_assoc, List.take_length_add_append, List.drop_length_add_append,
      List.take_length_add_append, List.drop_length_add_append]
    simp
  unfold LeadsUnlessToken
  rw [hnew, Int.toNat_natCast, hbetween, tokens_line_eq_nil_iff]
  exact leadsWithGuard_iff h hlast hbelow below

/-- Wherever the guarding line is put in, only a token in front of that place keeps it from leading the file. -/
theorem leadsUnlessToken_of_guardEdit {config : Config} {isOneOfMany : Bool} {path : SourcePath} {e : Edit}
    (h : guardEdit? (.ofText config isOneOfMany path text) = some e) :
    LeadsUnlessToken text (openingEnd (tokens text)) e := by
  have htokens : (SourceFile.ofText config isOneOfMany path text).tokens = tokens text := rfl
  rw [guardEdit?, htokens] at h
  split at h
  · next hcomment =>
    rw [openingEnd, hcomment]
    obtain rfl := Option.some.inj h
    exact leadsUnlessToken_first text
  · next comment hcomment =>
    rw [openingEnd, hcomment]
    split at h
    · exact absurd h (by simp)
    · next hopen =>
      obtain ⟨front, back, hopening, hstop, hdrop⟩ :=
        exists_opening_of_comment hcomment (Bool.eq_false_iff.mpr hopen)
      have hlast := isLast_of_getLast hcomment hopening hstop
      rw [show (SourceFile.ofText config isOneOfMany path text).text = text from rfl, hdrop, hstop] at h
      rw [Option.map_some, Option.getD_some, hstop]
      dsimp only at h
      split at h
      · obtain rfl := Option.some.inj h
        exact leadsUnlessToken_end hopening hlast
      · next hlen =>
        split at h
        · obtain rfl := Option.some.inj h
          exact leadsUnlessToken_behind hopening hlast
        · obtain rfl := Option.some.inj h
          obtain ⟨below, hbelow⟩ := exists_below hlen
          exact leadsUnlessToken_below hopening hlast hbelow

theorem applyEdits_guard {config : Config} {isOneOfMany : Bool} {path : SourcePath} {e : Edit}
    (h : guardEdit? (.ofText config isOneOfMany path text) = some e) : applyEdits text [e] = guarded text e := by
  have hsingle : applyEdits text [e] = applyEdit text e := by simp [applyEdits]
  rw [hsingle, applyEdit_of_within (within_of_guardEdit h), List.append_assoc]
  rfl

/-- A file with the guarding line in front of all its code has a guard. -/
theorem hasGuard_of_leadsWithGuard {config : Config} {isOneOfMany : Bool} {path : SourcePath} {offset : Nat}
    (h : LeadsWithGuard text offset) : hasGuard (.ofText config isOneOfMany path text) = true := by
  obtain ⟨t, ht, hkind, htext, -⟩ := h
  obtain ⟨front, back, hpieces, -⟩ := exists_piece_of_mem_tokens (List.mem_of_find?_eq_some ht)
  rw [hkind, htext] at hpieces
  exact hasGuard_of_piece hpieces

/-- A header without a guard that may be given one without asking is given one line. That line is the first
token but for comments, and so the file is guarded, exactly if there is no token between the comments at the
start and the place where the line is put in. -/
theorem guard_put_in_iff (config : Config) (isOneOfMany : Bool) (path : SourcePath) (text : Text) {v : Violation}
    (hv : v ∈ check (.ofText config isOneOfMany path text)) (hfix : v.autofix = true) :
    ∃ e, v.edits = [e] ∧
      (hasGuard (.ofText config isOneOfMany path (applyEdits text v.edits)) = true ∧
          LeadsWithGuard (applyEdits text v.edits) (directiveOffset e) ↔
        tokens (text.extract (openingEnd (tokens text)) e.start.toNat ++ [.scalar '\n']) = []) := by
  obtain ⟨-, -, rfl⟩ := mem_check_iff.mp hv
  cases hedit : guardEdit? (.ofText config isOneOfMany path text) with
  | none =>
    rw [hedit] at hfix
    exact absurd hfix (by simp [RuleInfo.violation])
  | some e =>
    refine ⟨e, rfl, ?_⟩
    show hasGuard (.ofText config isOneOfMany path (applyEdits text [e])) = true ∧
      LeadsWithGuard (applyEdits text [e]) (directiveOffset e) ↔ _
    rw [applyEdits_guard hedit]
    exact (and_iff_right_of_imp hasGuard_of_leadsWithGuard).trans (leadsUnlessToken_of_guardEdit hedit)

/-- A line comment behind a block comment, and an empty line: the guarding line goes in between. -/
theorem guard_put_in_below_comments :
    ∃ v ∈ check (.ofText {} false (.ofString "a.h") (Text.ofString "/* a */ // b\n\nint x;\n")),
      v.autofix = true ∧ ∃ e, v.edits = [e] ∧
        LeadsWithGuard (applyEdits (Text.ofString "/* a */ // b\n\nint x;\n") v.edits) (directiveOffset e) := by
  obtain ⟨v, hv, hfix, hclear⟩ : ∃ v ∈ check (.ofText {} false (.ofString "a.h")
      (Text.ofString "/* a */ // b\n\nint x;\n")), v.autofix = true ∧ ∀ e ∈ v.edits,
        tokens ((Text.ofString "/* a */ // b\n\nint x;\n").extract
          (openingEnd (tokens (Text.ofString "/* a */ // b\n\nint x;\n"))) e.start.toNat ++ [.scalar '\n']) = [] := by
    rw [Text.ofString_ofList]
    decide +kernel
  obtain ⟨e, hedits, hiff⟩ := guard_put_in_iff {} false (.ofString "a.h") _ hv hfix
  exact ⟨v, hv, hfix, e, hedits, (hiff.mpr (hclear e (by rw [hedits]; simp))).2⟩

/-- A header of one line, which holds code behind a comment: the line goes to the end of the file, behind the
code. If the code ends in a backslash, the line is a part of it and guards nothing. -/
theorem exists_guard_behind_code :
    (∃ text, ∃ v ∈ check (.ofText {} false (.ofString "a.h") text), v.autofix = true ∧
        ∀ offset, ¬ LeadsWithGuard (applyEdits text v.edits) offset) ∧
      ∃ text, ∃ v ∈ check (.ofText {} false (.ofString "a.h") text), v.autofix = true ∧
        hasGuard (.ofText {} false (.ofString "a.h") (applyEdits text v.edits)) = false := by
  obtain ⟨⟨v, hv, hfix, t, ht, hkind⟩, hcontinued⟩ :
      (∃ v ∈ check (.ofText {} false (.ofString "a.h") (Text.ofString "/* a */ int x;")), v.autofix = true ∧
        ∃ t ∈ (tokens (applyEdits (Text.ofString "/* a */ int x;") v.edits)).find? (fun t => !t.isComment),
          t.kind = .keyword .intKw) ∧
        ∃ v ∈ check (.ofText {} false (.ofString "a.h") (Text.ofString "/* a */ int x; \\")), v.autofix = true ∧
          hasGuard (.ofText {} false (.ofString "a.h")
            (applyEdits (Text.ofString "/* a */ int x; \\") v.edits)) = false := by
    rw [Text.ofString_ofList, Text.ofString_ofList]
    decide +kernel
  refine ⟨⟨_, v, hv, hfix, fun offset hleads => ?_⟩, _, hcontinued⟩
  obtain ⟨t', ht', hkind', -⟩ := hleads
  obtain rfl := Option.some.inj (ht.symm.trans ht')
  rw [hkind] at hkind'
  exact absurd hkind' (by decide)

end IncludeGuardRule

end HouseStyle
