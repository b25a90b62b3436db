import HouseStyle.Proofs.Inserted
import Mathlib.Data.List.TakeWhile

/-!
# A header with its guarding line

The guarding line goes behind the comments at the start of a header, and there it changes nothing but that
it is there: what stands in front of it is cut as before, since comments that are closed, gaps and blanks do
not depend on what comes behind a line end, and what stands behind it is cut as at the start of a line.

- `ofText_opening`: comments and gaps in front of a line feed.
- `ofText_blanks`: blanks in front of a line feed.
- `exists_guardedAt`: the cut of a header before and after.
-/

namespace HouseStyle

namespace Lexeme

/-! ## Comments that are closed -/

theorem takeWhile_line_append (t v : Text) :
    (t ++ .scalar '\n' :: v).takeWhile (· != Glyph.scalar '\n') = t.takeWhile (· != .scalar '\n') := by
  induction t with
  | nil => rfl
  | cons g t ih =>
    rw [List.cons_append, List.takeWhile_cons, List.takeWhile_cons, ih]

/-- A line comment ends with its line, and behind a text it does so whatever the next line is. -/
theorem lineCommentTail_append {c t u : Text} (h : lineCommentTail (c ++ (t ++ u)) = c.length) (v : Text) :
    lineCommentTail (c ++ (t ++ .scalar '\n' :: v)) = c.length := by
  have hline : ∀ g ∈ c, (g != Glyph.scalar '\n') = true := by
    have hpre := List.takeWhile_prefix (· != Glyph.scalar '\n') (l := c ++ (t ++ u))
    have hlen : c.length ≤ ((c ++ (t ++ u)).takeWhile (· != Glyph.scalar '\n')).length := by
      rw [← h, lineCommentTail]
      have := (List.dropWhile_sublist (· == Glyph.scalar '\r')
        (l := ((c ++ (t ++ u)).takeWhile (· != .scalar '\n')).reverse)).length_le
      rwa [List.length_reverse] at this
    have hc := List.prefix_of_prefix_length_le (List.prefix_append c _) hpre hlen
    exact fun g hg => List.all_eq_true.mp List.all_takeWhile g (hc.subset hg)
  unfold lineCommentTail at h ⊢
  rw [List.takeWhile_append_of_pos hline, List.reverse_append, List.dropWhile_append] at h ⊢
  -- what follows on the line is carriage returns only
  have hreturns : ((t ++ u).takeWhile (· != Glyph.scalar '\n')).reverse.dropWhile
      (· == Glyph.scalar '\r') = [] := by
    refine Classical.byContradiction fun hne => ?_
    rw [if_neg (by rwa [List.isEmpty_iff]), List.length_append, List.length_reverse] at h
    have := List.length_pos_iff.mpr hne
    omega
  have hreturns' : ((t ++ .scalar '\n' :: v).takeWhile (· != Glyph.scalar '\n')).reverse.dropWhile
      (· == Glyph.scalar '\r') = [] := by
    rw [List.dropWhile_eq_nil_iff] at hreturns ⊢
    intro g hg
    rw [List.mem_reverse, takeWhile_line_append] at hg
    refine hreturns g (List.mem_reverse.mpr ?_)
    rw [List.takeWhile_append]
    split
    next => exact List.mem_append_left _ ((List.takeWhile_sublist _).subset hg)
    next => exact hg
  rw [hreturns, if_pos (by decide)] at h
  rwa [hreturns', if_pos (by decide)]

/-- A mark that stands in a text is found there. -/
theorem lengthThrough_ne_none {mark front back : Text} :
    lengthThrough? mark (front ++ (mark ++ back)) ≠ none := by
  induction front with
  | nil =>
    rw [List.nil_append]
    cases hm : mark ++ back with
    | nil =>
      obtain ⟨rfl, -⟩ := List.append_eq_nil_iff.mp hm
      simp [lengthThrough?]
    | cons g t =>
      rw [lengthThrough?, if_pos (List.isPrefixOf_iff_prefix.mpr ⟨back, hm⟩)]
      simp
  | cons g front ih =>
    rw [List.cons_append, lengthThrough?]
    split
    · simp
    · simpa using ih

/-- A block comment that is closed ends with its mark, whatever stands behind it. -/
theorem blockCommentTail_append {c u : Text} (h : blockCommentTail (c ++ u) = c.length)
    (hclosed : u ≠ [] ∨ ∃ front, c = front ++ Text.ofString "*/") (v : Text) :
    blockCommentTail (c ++ v) = c.length := by
  unfold blockCommentTail at h ⊢
  cases hn : lengthThrough? (Text.ofString "*/") (c ++ u) with
  | some n =>
    rw [hn] at h
    rw [lengthThrough_append (by decide) hn (Nat.le_of_eq h)]
    exact h
  | none =>
    rw [hn] at h
    rcases hclosed with hu | ⟨front, rfl⟩
    · have := List.length_pos_iff.mpr hu
      rw [Option.getD_none, List.length_append] at h
      omega
    · rw [List.append_assoc] at hn
      exact absurd hn lengthThrough_ne_none

theorem kind_word_ne_comment (t : Text) : (word t).1 ≠ .comment := by
  unfold word
  dsimp only
  cases Keyword.ofText? (t.takeWhile continuesWord) with
  | none | some k =>
    dsimp only
    split
    next => simp
    next =>
      split
      next => simp
      next => split <;> simp

/-- A comment starts with one of its two signs. -/
theorem comment_of_leading {lineStart : Bool} {g : Glyph} {rest : Text} {n : Nat}
    (h : leading lineStart (g :: rest) = (.comment, n)) :
    g = .scalar '/' ∧ ((∃ t, rest = .scalar '/' :: t ∧ n = 2 + lineCommentTail t) ∨
      ∃ t, rest = .scalar '*' :: t ∧ n = 2 + blockCommentTail t) := by
  by_cases hd : g = .scalar '#' ∧ lineStart = true
  · obtain ⟨rfl, rfl⟩ := hd
    rw [leading_directive] at h
    exact absurd h (by simp)
  rcases comment_cases g rest with ⟨t, rfl, rfl⟩ | ⟨t, rfl, rfl⟩ | hplain
  · rw [leading_lineComment] at h
    exact ⟨rfl, Or.inl ⟨t, rfl, (Prod.mk.inj h).2.symm⟩⟩
  · rw [leading_blockComment] at h
    exact ⟨rfl, Or.inr ⟨t, rfl, (Prod.mk.inj h).2.symm⟩⟩
  · rw [leading_plain hd hplain] at h
    split at h
    next => exact absurd h (by simp)
    next =>
      split at h
      next => exact absurd (congrArg Prod.fst h) (kind_word_ne_comment _)
      next =>
        split at h
        next => exact absurd h (by simp)
        next =>
          unfold symbol at h
          split at h <;> exact absurd h (by simp)

end Lexeme

/-- A block comment that is not open has its mark at the end. -/
theorem IncludeGuardRule.exists_front_of_not_open {c : Text}
    (h : isOpenComment (.scalar '/' :: .scalar '*' :: c) = false) : ∃ front, c = front ++ Text.ofString "*/" := by
  have hstarts : (Text.ofString "/*").isPrefixOf (.scalar '/' :: .scalar '*' :: c) = true :=
    List.isPrefixOf_iff_prefix.mpr ⟨c, rfl⟩
  unfold isOpenComment at h
  rw [hstarts, Bool.true_and, Bool.or_eq_false_iff, Bool.not_eq_false', List.isSuffixOf_iff_suffix] at h
  obtain ⟨hlong, front, hfront⟩ := h
  have hlen := congrArg List.length hfront
  have hmark : (Text.ofString "*/").length = 2 := rfl
  simp only [decide_eq_false_iff_not, List.length_cons, List.length_append, Nat.not_lt] at hlong hlen
  match front, hlen, hfront with
  | [], hlen, _ => rw [List.length_nil] at hlen; omega
  | [_], hlen, _ => rw [List.length_singleton] at hlen; omega
  | _ :: _ :: front, _, hfront =>
    simp only [List.cons_append, List.cons.injEq] at hfront
    exact ⟨front, hfront.2.2.symm⟩

namespace Piece

/-- A line splice is known by its own glyphs. -/
theorem spliceLength_of_eq_length {t u : Text} (hpos : 0 < t.length)
    (h : t.length = Lexeme.spliceLength (t ++ u)) (v : Text) :
    t.length = Lexeme.spliceLength (t ++ v) := by
  unfold Lexeme.spliceLength at h
  split at h
  next heq =>
    match t, h, heq with
    | [a, b], _, heq =>
      simp only [List.cons_append, List.cons.injEq] at heq
      obtain ⟨rfl, rfl, -⟩ := heq
      rfl
  next heq =>
    match t, h, heq with
    | [a, b, c], _, heq =>
      simp only [List.cons_append, List.cons.injEq] at heq
      obtain ⟨rfl, rfl, rfl, -⟩ := heq
      rfl
  next => omega

/-- A piece that stands among the comments at the start of a header. -/
def IsOpening (p : Piece) : Prop := ∀ kind t, p = .lexeme kind t → kind = .comment

/-- A piece of the opening leads a text that goes on in another way from some line end on, unless it is a
comment that is not closed. -/
theorem leads_opening {lineStart : Bool} {p : Piece} {t u : Text} (hp : Leads lineStart p (t ++ u))
    (hopening : p.IsOpening)
    (hclosed : ∀ s, p = .lexeme .comment s → t ++ u ≠ [] ∨ IncludeGuardRule.isOpenComment s = false)
    (v : Text) :
    Leads lineStart p (t ++ .scalar '\n' :: v) := by
  cases p with
  | gap s =>
    -- a gap is told by its own glyphs, but a splice may end at the line feed
    rcases hp with hp | hp | ⟨hpos, hlen⟩
    · exact Or.inl hp
    · exact Or.inr (Or.inl hp)
    · exact Or.inr (Or.inr ⟨hpos, spliceLength_of_eq_length hpos hlen _⟩)
  | lexeme kind s =>
    obtain rfl := hopening kind s rfl
    obtain ⟨g, more, rfl, hn, hg, -, hl⟩ := hp
    rw [List.cons_append] at hl
    -- a lexeme of the opening is a comment, of a line or in a block
    obtain ⟨rfl, ⟨rest, hrest, hlen⟩ | ⟨rest, hrest, hlen⟩⟩ := Lexeme.comment_of_leading hl
    · obtain ⟨c, rfl⟩ : ∃ c, more = .scalar '/' :: c := by
        cases more with
        | nil => exact absurd hlen (by simp; omega)
        | cons a c => exact ⟨c, by rw [(List.cons.inj hrest).1]⟩
      obtain rfl : c ++ (t ++ u) = rest := (List.cons.inj hrest).2
      have hc : Lexeme.lineCommentTail (c ++ (t ++ u)) = c.length := by
        simp only [List.length_cons] at hlen
        omega
      refine ⟨_, _, rfl, hn, hg, rfl, ?_⟩
      rw [List.cons_append, List.cons_append, Lexeme.leading_lineComment, Lexeme.lineCommentTail_append hc]
      simp only [List.length_cons, Prod.mk.injEq, true_and]
      omega
    · obtain ⟨c, rfl⟩ : ∃ c, more = .scalar '*' :: c := by
        cases more with
        | nil => exact absurd hlen (by simp; omega)
        | cons a c => exact ⟨c, by rw [(List.cons.inj hrest).1]⟩
      obtain rfl : c ++ (t ++ u) = rest := (List.cons.inj hrest).2
      have hc : Lexeme.blockCommentTail (c ++ (t ++ u)) = c.length := by
        simp only [List.length_cons] at hlen
        omega
      -- a comment that is not closed would go on with what comes below
      have hend : t ++ u ≠ [] ∨ ∃ front, c = front ++ Text.ofString "*/" := by
        exact (hclosed _ rfl).imp_right IncludeGuardRule.exists_front_of_not_open
      refine ⟨_, _, rfl, hn, hg, rfl, ?_⟩
      rw [List.cons_append, List.cons_append, Lexeme.leading_blockComment,
        Lexeme.blockCommentTail_append hc hend]
      simp only [List.length_cons, Prod.mk.injEq, true_and]
      omega

/-- A text of no glyphs has no pieces. -/
theorem eq_nil_of_join {lineStart : Bool} {ps : List Piece} (h : ofText lineStart (join ps) = ps)
    (hnil : join ps = []) : ps = [] := by
  rw [hnil, ofText] at h
  exact h.symm

/-- The opening of a header is cut as before if another line follows, unless it ends in a comment that is not
closed. -/
theorem ofText_opening {lineStart : Bool} {ps back : List Piece} {t u : Text}
    (h : ofText lineStart (join (ps ++ back)) = ps ++ back) (hback : join back = t ++ u)
    (hopening : ∀ p ∈ ps, p.IsOpening)
    (hclosed : ∀ front s, ps = front ++ [.lexeme .comment s] →
      back ≠ [] ∨ IncludeGuardRule.isOpenComment s = false) (v : Text) :
    ofText lineStart (join ps ++ (t ++ .scalar '\n' :: v)) =
      ps ++ ofText (ps.foldl lineStartPast lineStart) (t ++ .scalar '\n' :: v) := by
  induction ps generalizing lineStart with
  | nil => rfl
  | cons p ps ih =>
    rw [List.forall_mem_cons] at hopening
    rw [List.cons_append] at h
    obtain ⟨-, hlead, hrest⟩ := ofText_eq_cons_iff.mp h
    have hlast : ∀ s, p = .lexeme .comment s →
        join ps ++ t ++ u ≠ [] ∨ IncludeGuardRule.isOpenComment s = false := by
      rintro s rfl
      by_cases hnil : join (ps ++ back) = []
      · obtain ⟨rfl, rfl⟩ := List.append_eq_nil_iff.mp (eq_nil_of_join hrest hnil)
        exact Or.inr ((hclosed [] s rfl).resolve_left (by simp))
      · exact Or.inl (by rwa [join_append, hback, ← List.append_assoc] at hnil)
    rw [join_append, hback, ← List.append_assoc] at hlead
    have hcut := ofText_of_leads (leads_opening hlead hopening.1 hlast v)
    rw [List.append_assoc, ih hrest hopening.2 fun front s hps => hclosed (p :: front) s (by rw [hps]; rfl)]
      at hcut
    rw [join_cons, List.append_assoc]
    exact hcut

/-- The lines of an opening start anew. -/
theorem lineStartPast_opening {ps : List Piece} (hopening : ∀ p ∈ ps, p.IsOpening) :
    ps.foldl lineStartPast true = true := by
  induction ps with
  | nil => rfl
  | cons p ps ih =>
    rw [List.forall_mem_cons] at hopening
    have hp : lineStartPast true p = true := by
      cases p with
      | gap t => simp [lineStartPast]
      | lexeme kind t =>
        obtain rfl := hopening.1 kind t rfl
        rfl
    rw [List.foldl_cons, hp, ih hopening.2]

/-- Blanks in front of a line end are cut one by one. -/
theorem ofText_blanks {line : Text} (hline : line.all IncludeGuardRule.isBlank = true) (lineStart : Bool) :
    ∃ ps, join ps = line ∧ (∀ kind t, .lexeme kind t ∈ ps → kind = .unknown) ∧
      ∀ v, ofText lineStart (line ++ .scalar '\n' :: v) = ps ++ .gap [.scalar '\n'] :: ofText true v := by
  induction line generalizing lineStart with
  | nil => exact ⟨[], rfl, by simp, fun v => ofText_newline lineStart v⟩
  | cons g line ih =>
    rw [List.all_cons, Bool.and_eq_true] at hline
    obtain ⟨c, rfl, hc⟩ : ∃ c, g = .scalar c ∧ Blank.isBlank c = true := by
      cases g with
      | raw b => exact absurd hline.1 (by simp [IncludeGuardRule.isBlank, Glyph.satisfies])
      | scalar c => exact ⟨c, rfl, hline.1⟩
    obtain ⟨p, hp, hkind, hlead⟩ := leads_blank hc lineStart
    obtain ⟨ps, hjoin, hkinds, hcut⟩ := ih hline.2 (lineStartPast lineStart p)
    refine ⟨p :: ps, by rw [join_cons, hp, hjoin]; rfl, fun kind t hmem => ?_, fun v => ?_⟩
    · rcases List.mem_cons.mp hmem with heq | hmem
      · exact hkind kind t heq.symm
      · exact hkinds kind t hmem
    · have := ofText_of_leads (hlead (line ++ .scalar '\n' :: v))
      rw [hp, hcut] at this
      exact this

/-- The comments at the start of a file, told from its pieces. -/
theorem exists_opening {p : Place} {ps : List Piece} {comment : Token}
    (h : ((place p ps).takeWhile (·.isComment)).getLast? = some comment) :
    ∃ front back, ps = front ++ .lexeme .comment comment.text :: back ∧ (∀ q ∈ front, q.IsOpening) ∧
      comment.stop = p.offset + (join (front ++ [.lexeme .comment comment.text])).length := by
  induction ps generalizing p with
  | nil => exact absurd h (by simp [place])
  | cons q ps ih =>
    cases q with
    | gap s =>
      obtain ⟨front, back, rfl, hopening, hstop⟩ := ih h
      refine ⟨.gap s :: front, back, rfl, ?_, ?_⟩
      · rw [List.forall_mem_cons]
        exact ⟨fun kind t heq => Piece.noConfusion heq, hopening⟩
      · rw [hstop, offset_past, List.cons_append, join_cons, List.length_append, Nat.add_assoc]
        rfl
    | lexeme kind s =>
      rw [place, List.takeWhile_cons] at h
      split at h
      next hcomment =>
        obtain rfl : kind = .comment := by simpa [Token.isComment] using hcomment
        cases hrest : (place (p.past s) ps).takeWhile (·.isComment) with
        | nil =>
          rw [hrest] at h
          obtain rfl := Option.some.inj h
          exact ⟨[], ps, rfl, by simp, by rw [offset_past]; simp [text]⟩
        | cons t ts =>
          rw [hrest, List.getLast?_cons_cons, ← hrest] at h
          obtain ⟨front, back, rfl, hopening, hstop⟩ := ih h
          refine ⟨.lexeme .comment s :: front, back, rfl, ?_, ?_⟩
          · rw [List.forall_mem_cons]
            exact ⟨fun kind t heq => (Piece.lexeme.inj heq).1.symm, hopening⟩
          · rw [hstop, offset_past, List.cons_append, join_cons, List.length_append, Nat.add_assoc]
            rfl
      next => exact absurd h (by simp)

/-- The pieces of the guarding line. -/
def guardPieces : List Piece :=
  [.lexeme .directive (Text.ofString "#pragma once"), .gap [.scalar '\n']]

theorem ofText_pragmaOnce (u : Text) :
    ofText true (IncludeGuardRule.pragmaOnce ++ u) = guardPieces ++ ofText true u := by
  refine (ofText_of_leads (leads_pragmaOnce u)).trans (congrArg _ ?_)
  exact ofText_newline _ u

end Piece

/-- The start of a header: comments, the last of which is closed, and gaps. -/
structure Opening (text : Text) (front back : List Piece) : Prop where
  pieces : Piece.ofText true text = front ++ back
  isOpening : ∀ p ∈ front, p.IsOpening
  closed : ∀ before s, front = before ++ [.lexeme .comment s] →
    back ≠ [] ∨ IncludeGuardRule.isOpenComment s = false

/-- How the guarding line is put into a text: between pieces, the first of which are comments and blanks, and
as lines of its own. -/
structure GuardedAt (text : Text) (e : Edit) (front put back : List Piece) : Prop where
  pieces : Piece.ofText true text = front ++ back
  cut_back : Piece.ofText true (Piece.join back) = back
  start : e.start = (Piece.join front).length
  stop : e.stop = (Piece.join front).length
  quiet : ∀ kind t, .lexeme kind t ∈ front → kind = .comment ∨ kind = .unknown
  directive : ∀ kind t, .lexeme kind t ∈ put → kind = .directive ∧ t = Text.ofString "#pragma once"
  guarded : .lexeme .directive (Text.ofString "#pragma once") ∈ put
  cut : ∀ u, Piece.ofText true (Piece.join front ++ (e.replacement ++ u)) =
    front ++ (put ++ Piece.ofText true u)

namespace Opening

open Piece IncludeGuardRule

variable {text : Text} {front back : List Piece}

theorem join_pieces (h : Opening text front back) : ofText true (join (front ++ back)) = front ++ back := by
  rw [← h.pieces, join_ofText]

theorem cut_back (h : Opening text front back) : ofText true (join back) = back := by
  have := ofText_eq_append h.pieces
  rwa [lineStartPast_opening h.isOpening] at this

theorem quiet (h : Opening text front back) : ∀ kind t, .lexeme kind t ∈ front →
    kind = .comment ∨ kind = .unknown :=
  fun kind t hmem => Or.inl (h.isOpening _ hmem kind t rfl)

/-- What follows up to the next line end is cut as before, too. -/
theorem cut (h : Opening text front back) {t u : Text} (hback : join back = t ++ u) (v : Text) :
    ofText true (join front ++ (t ++ .scalar '\n' :: v)) = front ++ ofText true (t ++ .scalar '\n' :: v) := by
  have := ofText_opening h.join_pieces hback h.isOpening h.closed v
  rwa [lineStartPast_opening h.isOpening] at this

/-- The guarding line right behind the opening. -/
theorem guardedAt_behind (h : Opening text front back) {e : Edit} (hstart : e.start = (join front).length)
    (hstop : e.stop = (join front).length) (he : e.replacement = .scalar '\n' :: pragmaOnce) :
    GuardedAt text e front (.gap [.scalar '\n'] :: guardPieces) back where
  pieces := h.pieces
  cut_back := h.cut_back
  start := hstart
  stop := hstop
  quiet := h.quiet
  directive := by simp [guardPieces]
  guarded := by simp [guardPieces]
  cut u := by
    rw [he]
    refine (h.cut (t := []) rfl (pragmaOnce ++ u)).trans ?_
    rw [List.nil_append, ofText_newline, ofText_pragmaOnce]
    rfl

/-- The guarding line on the line below the opening, if that line ends in blanks. -/
theorem guardedAt_below (h : Opening text front back) {line below : Text}
    (hback : join back = line ++ .scalar '\n' :: below) (hline : line.all isBlank = true) {e : Edit}
    (hstart : e.start = ((join front).length + line.length + 1 : Nat))
    (hstop : e.stop = ((join front).length + line.length + 1 : Nat)) (he : e.replacement = pragmaOnce) :
    ∃ front' back', GuardedAt text e front' guardPieces back' := by
  obtain ⟨blanks, hjoin, hkinds, hcut⟩ := ofText_blanks hline true
  have hlen : (join (front ++ (blanks ++ [.gap [.scalar '\n']]))).length =
      (join front).length + line.length + 1 := by
    rw [join_append, join_append, hjoin, List.length_append, List.length_append, Nat.add_assoc]
    rfl
  refine ⟨front ++ (blanks ++ [.gap [.scalar '\n']]), ofText true below, ⟨?_, by rw [join_ofText], ?_, ?_,
    fun kind t hmem => ?_, by simp [guardPieces], by simp [guardPieces], fun u => ?_⟩⟩
  · rw [h.pieces, ← h.cut_back, hback, hcut]
    simp
  · rw [hstart, hlen]
  · rw [hstop, hlen]
  · rcases List.mem_append.mp hmem with hmem | hmem
    · exact h.quiet kind t hmem
    · rcases List.mem_append.mp hmem with hmem | hmem
      · exact Or.inr (hkinds kind t hmem)
      · exact absurd hmem (by simp)
  · have hnew := h.cut hback (pragmaOnce ++ u)
    rw [hcut, ofText_pragmaOnce] at hnew
    rw [he, join_append, join_append, hjoin]
    simpa [Piece.text] using hnew

end Opening

namespace IncludeGuardRule

open Piece

/-- The comments at the start of a file, if the last one is closed. -/
theorem exists_opening_of_comment {text : Text} {comment : Token}
    (hcomment : ((tokens text).takeWhile (·.isComment)).getLast? = some comment)
    (hclosed : isOpenComment comment.text = false) :
    ∃ front back, Opening text front back ∧ comment.stop = (join front).length ∧
      text.drop comment.stop = join back := by
  obtain ⟨opening, back, hps, hopening, hstop⟩ := exists_opening (p := .start) hcomment
  rw [show Place.start.offset = 0 from rfl, Nat.zero_add] at hstop
  have hpieces : ofText true text = (opening ++ [.lexeme .comment comment.text]) ++ back := by
    rw [hps, List.append_assoc]
    rfl
  refine ⟨opening ++ [.lexeme .comment comment.text], back, ⟨hpieces, fun p hp => ?_, fun before s heq => ?_⟩,
    hstop, ?_⟩
  · rcases List.mem_append.mp hp with hp | hp
    · exact hopening p hp
    · obtain rfl := List.mem_singleton.mp hp
      exact fun kind t heq => (Piece.lexeme.inj heq).1.symm
  · obtain ⟨-, hs⟩ := List.append_inj' heq rfl
    obtain ⟨-, rfl⟩ := Piece.lexeme.inj (List.cons.inj hs).1
    exact Or.inr hclosed
  · rw [← join_ofText true text, hpieces, join_append, List.drop_left' hstop.symm]

/-- A file of comments only is all opening. -/
theorem opening_of_comments {text : Text} {comment : Token}
    (hcomment : ((tokens text).takeWhile (·.isComment)).getLast? = some comment)
    (hclosed : isOpenComment comment.text = false) (hall : ∀ t ∈ tokens text, t.isComment = true) :
    Opening text (ofText true text) [] where
  pieces := (List.append_nil _).symm
  isOpening := by
    rintro p hp kind t rfl
    obtain ⟨front, back, hps⟩ := List.append_of_mem hp
    obtain ⟨u, hu, hkind, -⟩ := mem_tokens_of_piece hps
    rw [← hkind]
    simpa [Token.isComment] using hall u hu
  closed := by
    intro before s hps
    have htokens : tokens text = place .start before ++ [tokenAt (Place.start.past (join before)) .comment s] := by
      rw [tokens, hps, place_append]
      rfl
    rw [List.takeWhile_eq_self_iff.mpr hall, htokens, List.getLast?_concat] at hcomment
    obtain rfl := Option.some.inj hcomment
    exact Or.inr hclosed

/-- A header before and after the guarding line is put in. If that goes to the end of the file, nothing but
comments may stand in it. -/
theorem exists_guardedAt {f : SourceFile} {text : Text} {e : Edit} (htext : f.text = text)
    (htokens : f.tokens = tokens text) (h : guardEdit? f = some e)
    (hend : e.start = text.length → ∀ t ∈ tokens text, t.isComment = true) :
    ∃ front put back, GuardedAt text e front put back := by
  unfold guardEdit? at h
  rw [htext, htokens] at h
  split at h
  next =>
    obtain rfl := Option.some.inj h
    exact ⟨[], guardPieces, ofText true text, rfl, by rw [join_ofText], rfl, rfl, by simp,
      by simp [guardPieces], by simp [guardPieces], ofText_pragmaOnce⟩
  next comment hcomment =>
    split at h
    next => exact absurd h (by simp)
    next hopen =>
      have hclosed := Bool.eq_false_iff.mpr hopen
      obtain ⟨front, back, hopening, hstop, hafter⟩ := exists_opening_of_comment hcomment hclosed
      dsimp only at h
      rw [hafter, hstop] at h
      split at h
      next =>
        obtain rfl := Option.some.inj h
        have hlen : (text.length : Int) = (join (ofText true text)).length := by rw [join_ofText]
        exact ⟨_, _, _, (opening_of_comments hcomment hclosed (hend rfl)).guardedAt_behind hlen hlen rfl⟩
      next hlen =>
        split at h
        next =>
          obtain rfl := Option.some.inj h
          exact ⟨_, _, _, hopening.guardedAt_behind rfl rfl rfl⟩
        next hblank =>
          obtain rfl := Option.some.inj h
          obtain ⟨below, hbelow⟩ := exists_below hlen
          obtain ⟨front', back', hguarded⟩ :=
            hopening.guardedAt_below hbelow (by simpa using hblank) (e := ⟨_, _, pragmaOnce⟩) rfl rfl rfl
          exact ⟨front', guardPieces, back', hguarded⟩

end IncludeGuardRule

end HouseStyle
