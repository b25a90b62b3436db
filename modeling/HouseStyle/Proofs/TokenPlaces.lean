import HouseStyle.Proofs.Cutting
import Mathlib.Data.List.Induction

/-!
# A text is its tokens and the gaps between them

Nothing of a source text is lost when it falls apart into tokens. What stands between two of them
separates them and says nothing else, and each token knows where it stands.

- `isGap_of_mem_gaps`: before, between and behind the tokens there are only blanks and spliced line
  ends.
- `weave_gaps`: the gaps and the tokens in turn are the text.
- `mem_tokens_place`: the lines and the columns of a token are those of its two offsets.
- `eq_of_place_eq`: and no two tokens start at one line and column.
-/

namespace HouseStyle

/-! ## Lines and columns of an offset -/

/-- The line of an offset: one more than the line feeds in front of it. -/
def lineAt (source : Text) (offset : Nat) : Nat := 1 + (source.take offset).count (.scalar '\n')

/-- The column of an offset: one more than the glyphs between it and the last line feed in front of it, or
the start of the text. -/
def columnAt (source : Text) (offset : Nat) : Nat :=
  1 + ((source.take offset).reverse.takeWhile (· != .scalar '\n')).length

namespace Place

theorem past_append (p : Place) (t u : Text) : p.past (t ++ u) = (p.past t).past u :=
  List.foldl_append

/-- The line behind a text is told by the line feeds of it. -/
theorem line_past (p : Place) (t : Text) : (p.past t).line = p.line + t.count (.scalar '\n') := by
  induction t generalizing p with
  | nil => rfl
  | cons g t ih =>
    rw [past, List.foldl_cons]
    change ((p.next g).past t).line = _
    rw [ih, next]
    split
    · next hg =>
      subst hg
      rw [List.count_cons_self]
      dsimp only
      omega
    · next hg => rw [List.count_cons_of_ne hg]

/-- The place behind a text is told by the line feeds of it. -/
theorem past_start (t : Text) :
    start.past t =
      ⟨t.length, 1 + t.count (.scalar '\n'), 1 + (t.reverse.takeWhile (· != .scalar '\n')).length⟩ := by
  -- from the end, since the last glyph alone decides the column
  induction t using List.reverseRecOn with
  | nil => rfl
  | append_singleton t g ih =>
    rw [past_append, ih]
    show next _ g = _
    unfold next
    split
    · next hg =>
      subst hg
      simp [Nat.add_assoc]
    · next hg =>
      have hcount : List.count (.scalar '\n') [g] = 0 := by
        rw [List.count_eq_zero, List.mem_singleton]
        exact Ne.symm hg
      simp [hg, hcount, List.count_append, Nat.add_assoc]

/-- The place behind the first glyphs of a text. -/
theorem past_start_append (before after : Text) :
    start.past before = ⟨before.length, lineAt (before ++ after) before.length,
      columnAt (before ++ after) before.length⟩ := by
  unfold lineAt columnAt
  rw [List.take_left]
  exact past_start before

end Place

namespace Place

/-- A place stands in front of another one, by line and then by column. -/
def IsBefore (p q : Place) : Prop := p.line < q.line ∨ p.line = q.line ∧ p.column < q.column

theorem isBefore_past (p : Place) {t : Text} (ht : t ≠ []) : p.IsBefore (p.past t) := by
  have hnext : ∀ (p : Place) (g : Glyph), p.IsBefore (p.next g) := by
    intro p g
    unfold next
    split
    · exact Or.inl (Nat.lt_succ_self _)
    · exact Or.inr ⟨rfl, Nat.lt_succ_self _⟩
  induction t generalizing p with
  | nil => exact absurd rfl ht
  | cons g t ih =>
    have hfirst := hnext p g
    by_cases hnil : t = []
    · rw [hnil]
      exact hfirst
    · have hrest := ih (p.next g) hnil
      change (p.next g).IsBefore (p.past (g :: t)) at hrest
      unfold IsBefore at *
      omega

end Place

/-- An offset further on has a place further on. -/
theorem isBefore_of_lt {source : Text} {o o' : Nat} (h : o < o') (hle : o' ≤ source.length) :
    (Place.start.past (source.take o)).IsBefore (Place.start.past (source.take o')) := by
  have hmore : source.take o' = source.take o ++ (source.drop o).take (o' - o) := by
    rw [← List.take_add]
    congr
    omega
  rw [hmore, Place.past_append]
  refine Place.isBefore_past _ fun hnil => ?_
  have hlength := congrArg List.length hnil
  simp only [List.length_take, List.length_drop, List.length_nil] at hlength
  omega

/-! ## Gaps -/

/-- What separates tokens: a blank, a line feed, or a backslash with the line end right behind it. -/
def IsSeparator (t : Text) : Prop :=
  (∃ c, c ∈ [' ', '\t', '\r', '\n', '\x0c', '\x0b'] ∧ t = [.scalar c]) ∨
    t = [.scalar '\\', .scalar '\n'] ∨ t = [.scalar '\\', .scalar '\r', .scalar '\n']

/-- A stretch of separators, which may be empty. -/
def IsGap (t : Text) : Prop := ∃ parts : List Text, t = parts.flatten ∧ ∀ part ∈ parts, IsSeparator part

theorem IsGap.nil : IsGap [] := ⟨[], rfl, by simp⟩

theorem IsGap.append_separator {t u : Text} (ht : IsGap t) (hu : IsSeparator u) : IsGap (t ++ u) := by
  obtain ⟨parts, rfl, hparts⟩ := ht
  refine ⟨parts ++ [u], by simp, fun part hpart => ?_⟩
  rcases List.mem_append.mp hpart with hpart | hpart
  · exact hparts part hpart
  · rw [List.mem_singleton.mp hpart]
    exact hu

/-- The stretches of a text in front of some tokens that stand behind the offset `start`, between them,
and behind the last of them. -/
def gaps (source : Text) (start : Nat) : List Token → List Text
  | [] => [source.drop start]
  | t :: ts => source.extract start t.start :: gaps source t.stop ts

/-- Gaps and tokens in turn. -/
def weave : List Text → List Token → Text
  | gap :: gaps, t :: ts => gap ++ t.text ++ weave gaps ts
  | gaps, _ => gaps.flatten

namespace Piece

/-- A gap that a text starts with is a separator. -/
theorem isSeparator_of_leads {lineStart : Bool} {t rest : Text} (h : Leads lineStart (.gap t) rest) :
    IsSeparator t := by
  rcases h with rfl | ⟨g, rfl, -, hg⟩ | ⟨hpos, hlen⟩
  · exact Or.inl ⟨'\n', by simp, rfl⟩
  · cases g with
    | raw b => exact absurd hg (by simp [Glyph.isSpacing])
    | scalar c =>
      refine Or.inl ⟨c, ?_, rfl⟩
      simp only [Glyph.isSpacing, Bool.or_eq_true, beq_iff_eq] at hg
      simp only [List.mem_cons, List.not_mem_nil, or_false]
      rcases hg with (((h | h) | h) | h) | h <;> simp [h]
  · right
    unfold Lexeme.spliceLength at hlen
    split at hlen
    · next more heq =>
      change t ++ rest = [.scalar '\\', .scalar '\n'] ++ more at heq
      exact Or.inl (List.append_inj_left heq hlen)
    · next more heq =>
      change t ++ rest = [.scalar '\\', .scalar '\r', .scalar '\n'] ++ more at heq
      exact Or.inr (List.append_inj_left heq hlen)
    · exact absurd hlen (Nat.ne_of_gt hpos)

/-- The gaps among the pieces of a text are separators. -/
theorem isSeparator_of_mem_ofText {lineStart : Bool} {source t : Text}
    (h : .gap t ∈ ofText lineStart source) : IsSeparator t := by
  obtain ⟨front, back, hps⟩ := List.append_of_mem h
  obtain ⟨-, hleads, -⟩ := ofText_eq_cons_iff.mp (ofText_eq_append hps)
  exact isSeparator_of_leads hleads

/-- The gaps between the tokens of some pieces, of which `gap` has been passed already: they are gaps, and
with the tokens they are the text of the pieces. -/
theorem gaps_place {source : Text} (before gap : Text) {ps : List Piece} {p : Place}
    (hsource : source = before ++ gap ++ join ps) (hp : p.offset = (before ++ gap).length)
    (hgap : IsGap gap) (hps : ∀ t, .gap t ∈ ps → IsSeparator t) :
    (∀ t ∈ gaps source before.length (place p ps), IsGap t) ∧
      weave (gaps source before.length (place p ps)) (place p ps) = gap ++ join ps := by
  induction ps generalizing before gap p with
  | nil =>
    have hdrop : source.drop before.length = gap := by
      rw [hsource, join_nil, List.append_nil, List.drop_left]
    simp [place, gaps, weave, hdrop, hgap]
  | cons q ps ih =>
    have hrest : ∀ t, .gap t ∈ ps → IsSeparator t := fun t ht => hps t (List.mem_cons_of_mem q ht)
    cases q with
    | gap t =>
      -- one more piece of the gap
      have hpast : (p.past t).offset = (before ++ (gap ++ t)).length := by
        rw [offset_past, hp, ← List.append_assoc]
        exact List.length_append.symm
      obtain ⟨hgaps, hweave⟩ := ih before (gap ++ t) (by rw [hsource, join_cons]; simp [text]) hpast
        (hgap.append_separator (hps t List.mem_cons_self)) hrest
      refine ⟨hgaps, ?_⟩
      rw [join_cons, ← List.append_assoc]
      exact hweave
    | lexeme kind t =>
      -- a token ends the gap, and the next one starts behind it
      have hstop : (p.past t).offset = (before ++ gap ++ t).length := by
        rw [offset_past, hp]
        exact List.length_append.symm
      obtain ⟨hgaps, hweave⟩ := ih (before ++ gap ++ t) [] (by rw [hsource, join_cons]; simp [text])
        (by rw [hstop, List.append_nil]) .nil hrest
      have hextract : source.extract before.length p.offset = gap := by
        rw [hsource, hp, List.append_assoc, List.extract_eq_take_drop, List.drop_left,
          List.length_append, Nat.add_sub_cancel_left, List.take_left]
      rw [← hstop] at hgaps hweave
      rw [place_lexeme, gaps]
      constructor
      · intro u hu
        rcases List.mem_cons.mp hu with rfl | hu
        · exact hextract ▸ hgap
        · exact hgaps u hu
      · rw [weave, show (tokenAt p kind t).start = p.offset from rfl, hextract,
          show (tokenAt p kind t).stop = (p.past t).offset from rfl, hweave, join_cons]
        simp [tokenAt, text]

/-- Every token is a lexeme at the place behind the pieces in front of it. -/
theorem exists_place_of_mem {p : Place} {ps : List Piece} {t : Token} (h : t ∈ place p ps) :
    ∃ front back, ps = front ++ .lexeme t.kind t.text :: back ∧
      t = tokenAt (p.past (join front)) t.kind t.text := by
  induction ps generalizing p with
  | nil => exact absurd h (by simp [place])
  | cons q ps ih =>
    have hlater : t ∈ place (p.past q.text) ps → ∃ front back,
        q :: ps = front ++ .lexeme t.kind t.text :: back ∧
          t = tokenAt (p.past (join front)) t.kind t.text := by
      intro hmem
      obtain ⟨front, back, hps, ht⟩ := ih hmem
      refine ⟨q :: front, back, by rw [hps]; rfl, ?_⟩
      rw [join_cons, Place.past_append]
      exact ht
    cases q with
    | gap s => exact hlater h
    | lexeme kind s =>
      rcases List.mem_cons.mp h with rfl | hmem
      · exact ⟨[], ps, rfl, rfl⟩
      · exact hlater hmem

end Piece

/-! ## The tokens of a text -/

theorem gaps_tokens (source : Text) :
    (∀ t ∈ gaps source 0 (tokens source), IsGap t) ∧
      weave (gaps source 0 (tokens source)) (tokens source) = source := by
  have hsource : source = [] ++ [] ++ Piece.join (Piece.ofText true source) :=
    (Piece.join_ofText true source).symm
  have h := Piece.gaps_place [] [] hsource (p := .start) rfl .nil
    fun t ht => Piece.isSeparator_of_mem_ofText ht
  rw [List.nil_append, Piece.join_ofText] at h
  exact h

/-- Before, between and behind the tokens of a text there are only gaps. -/
theorem isGap_of_mem_gaps {source t : Text} (h : t ∈ gaps source 0 (tokens source)) : IsGap t :=
  (gaps_tokens source).1 t h

/-- The gaps and the tokens of a text in turn are the text. -/
theorem weave_gaps (source : Text) : weave (gaps source 0 (tokens source)) (tokens source) = source :=
  (gaps_tokens source).2

/-- A token has the lines and the columns of its two offsets. -/
theorem mem_tokens_place {source : Text} {t : Token} (h : t ∈ tokens source) :
    t.line = lineAt source t.start ∧ t.column = columnAt source t.start ∧
      t.endLine = lineAt source t.stop ∧ t.endColumn = columnAt source t.stop := by
  obtain ⟨front, back, hps, ht⟩ := Piece.exists_place_of_mem h
  have hsource : source = Piece.join front ++ t.text ++ Piece.join back := by
    rw [← Piece.join_ofText true source, hps, Piece.join_append, Piece.join_cons, List.append_assoc]
    rfl
  have hstart := Place.past_start_append (Piece.join front) (t.text ++ Piece.join back)
  have hstop := Place.past_start_append (Piece.join front ++ t.text) (Piece.join back)
  rw [← List.append_assoc, ← hsource] at hstart
  rw [← hsource, Place.past_append] at hstop
  rw [ht]
  unfold Piece.tokenAt
  dsimp only
  rw [hstop, hstart]
  exact ⟨rfl, rfl, rfl, rfl⟩

/-- No two tokens start at one place. -/
theorem eq_of_place_eq {source : Text} {t u : Token} (ht : t ∈ tokens source) (hu : u ∈ tokens source)
    (hline : t.line = u.line) (hcolumn : t.column = u.column) : t = u := by
  have hnot : ∀ v ∈ tokens source, ∀ w ∈ tokens source, v.line = w.line → v.column = w.column →
      ¬ v.stop ≤ w.start := by
    intro v hv w hw hsameLine hsameColumn hle
    have hpos := start_lt_stop hv
    have hwithin := stop_le_length hw
    have hbefore := isBefore_of_lt (Nat.lt_of_lt_of_le hpos hle)
      (Nat.le_trans (Nat.le_of_lt (start_lt_stop hw)) hwithin)
    obtain ⟨hvLine, hvColumn, -⟩ := mem_tokens_place hv
    obtain ⟨hwLine, hwColumn, -⟩ := mem_tokens_place hw
    rw [Place.past_start, Place.past_start] at hbefore
    change lineAt source v.start < lineAt source w.start ∨ lineAt source v.start = lineAt source w.start ∧
      columnAt source v.start < columnAt source w.start at hbefore
    omega
  rcases tokens_apart ht hu with heq | hle | hle
  · exact heq
  · exact absurd hle (hnot t ht u hu hline hcolumn)
  · exact absurd hle (hnot u hu t ht hline.symm hcolumn.symm)

/-- Nothing is lost between a text and its tokens: they stand in it one after another, each is the slice
between its ends and knows their places, what lies between them separates them only, and with them it is
the text. -/
theorem tokens_lossless (source : Text) :
    (∀ t ∈ tokens source, t.text ≠ [] ∧ t.start < t.stop ∧ t.stop ≤ source.length ∧
        t.text = source.extract t.start t.stop ∧
        t.line = lineAt source t.start ∧ t.column = columnAt source t.start ∧
        t.endLine = lineAt source t.stop ∧ t.endColumn = columnAt source t.stop) ∧
      ((tokens source).Pairwise fun t u => t.start < u.start ∧ t.stop ≤ u.start) ∧
      (∀ t ∈ gaps source 0 (tokens source), IsGap t) ∧
      weave (gaps source 0 (tokens source)) (tokens source) = source := by
  refine ⟨fun t ht => ?_, ?_, fun t ht => isGap_of_mem_gaps ht, weave_gaps source⟩
  · have hpos := start_lt_stop ht
    have hslice := slice_eq_text ht
    refine ⟨?_, hpos, stop_le_length ht, ?_, mem_tokens_place ht⟩
    · intro hnil
      obtain ⟨_, before, rest, -, -, hstop, -⟩ := exists_leads_of_mem_tokens ht
      rw [hnil] at hstop
      simp only [List.length_nil] at hstop
      omega
    · rw [List.extract_eq_take_drop, hslice]
  · refine (tokens_ordered source).imp_of_mem fun {t u} ht _ hle => ⟨?_, hle⟩
    exact Nat.lt_of_lt_of_le (start_lt_stop ht) hle

end HouseStyle
