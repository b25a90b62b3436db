import HouseStyle.Proofs.Lookahead

/-!
# Words replaced in a text that is cut again

A `Renaming` gives some words new spellings. When every identifier of a text is replaced by its new
spelling, the new text is cut at the same places, with one exception: a new spelling that is the
prefix of a literal joins the quote right behind it (`Lexeme.joinsQuote`), and the two become one
literal.

- `ofText_map_rename`: the cut of the new text, up to the first such quote.
- `ofText_joined`: what stands there instead, if there is one.

Both rest on `leading_before_term`: two texts that agree up to the first replaced word have the same
tokens before it.
-/

namespace HouseStyle

namespace Lexeme

/-! ## Words -/

/-- A text that can stand as an identifier: a word that starts like one and is no keyword. -/
def IsName (t : Text) : Prop :=
  (∃ g more, t = g :: more ∧ startsWord g = true ∧ isDigit g = false) ∧
    (∀ g ∈ t, continuesWord g = true) ∧ Keyword.ofText? t = none

theorem IsName.lineFeed_not_mem {name : Text} (h : IsName name) : .scalar '\n' ∉ name :=
  fun hin => absurd (h.2.1 _ hin) (by decide)

/-- No name starts with a tilde. -/
theorem IsName.head_ne_tilde {t : Text} (h : IsName t) : t.head? ≠ some (.scalar '~') := by
  obtain ⟨⟨g, more, rfl, hg, -⟩, -⟩ := h
  intro heq
  rw [Option.some.inj heq] at hg
  exact absurd hg (by decide)

/-- No word goes on into the text. -/
def EndsWord (t : Text) : Prop := t.takeWhile continuesWord = []

/-- Whether a word and the quote right behind it are one literal. -/
def joinsQuote (name : Text) : Text → Bool
  | [] => false
  | g :: _ =>
    (g = .scalar '"' && (rawStringLeads.map Text.ofString).contains name) ||
      (isQuote g && (stringLeads.map Text.ofString).contains name)

theorem endsWord_cons {g : Glyph} {t : Text} : EndsWord (g :: t) ↔ continuesWord g = false := by
  unfold EndsWord
  rw [List.takeWhile_cons]
  split <;> simp_all

/-- Only the first glyph of the rest matters for a quote. -/
theorem joinsQuote_congr {name t u : Text} (h : t.head? = u.head?) :
    joinsQuote name t = joinsQuote name u := by
  cases t <;> cases u <;> simp_all [joinsQuote]

theorem joinsQuote_eq_false {rest : Text} (h : ∀ g ∈ rest.head?, isQuote g = false) (name : Text) :
    joinsQuote name rest = false := by
  cases rest with
  | nil => rfl
  | cons g more =>
    have hquote : isQuote g = false := h g rfl
    have hdouble : decide (g = .scalar '"') = false := by
      refine decide_eq_false ?_
      rintro rfl
      exact absurd hquote (by decide)
    rw [joinsQuote, hdouble, hquote]
    rfl

theorem endsWord_congr {t u : Text} (h : t.head? = u.head?) : EndsWord t ↔ EndsWord u := by
  cases t <;> cases u <;> simp_all [endsWord_cons]

theorem takeWhile_name {name rest : Text} (hname : ∀ g ∈ name, continuesWord g = true)
    (hrest : EndsWord rest) : (name ++ rest).takeWhile continuesWord = name := by
  rw [List.takeWhile_append_of_pos hname, hrest, List.append_nil]

theorem dropWhile_name {name rest : Text} (hname : ∀ g ∈ name, continuesWord g = true)
    (hrest : EndsWord rest) : (name ++ rest).dropWhile continuesWord = rest := by
  have hcut := List.takeWhile_append_dropWhile (p := continuesWord) (l := name ++ rest)
  rw [takeWhile_name hname hrest] at hcut
  exact List.append_cancel_left hcut

/-- A word that joins no quote is an identifier. -/
theorem word_name {name rest : Text} (hname : IsName name) (hrest : EndsWord rest)
    (hquote : joinsQuote name rest = false) : word (name ++ rest) = (.identifier, name.length) := by
  obtain ⟨-, hall, hkey⟩ := hname
  unfold word
  rw [takeWhile_name hall hrest, dropWhile_name hall hrest]
  dsimp only
  rw [hkey]
  cases rest with
  | nil => rfl
  | cons g inner =>
    simp only [joinsQuote, Bool.or_eq_false_iff] at hquote
    dsimp only
    rw [if_neg (by rw [hquote.1]; decide), if_neg (by rw [hquote.2]; decide)]

/-- A word that joins a quote is a literal. -/
theorem word_joinsQuote {name rest : Text} (hname : IsName name) (hrest : EndsWord rest)
    (hquote : joinsQuote name rest = true) : (word (name ++ rest)).1 = .literal := by
  obtain ⟨-, hall, hkey⟩ := hname
  unfold word
  rw [takeWhile_name hall hrest, dropWhile_name hall hrest]
  dsimp only
  rw [hkey]
  cases rest with
  | nil => exact absurd hquote (by simp [joinsQuote])
  | cons g inner =>
    simp only [joinsQuote, Bool.or_eq_true] at hquote
    dsimp only
    split
    next => rfl
    next hraw =>
      rw [if_pos (hquote.resolve_left hraw)]

theorem word_eq_identifier {t : Text} {n : Nat} (h : word t = (.identifier, n)) :
    (t.takeWhile continuesWord).length = n ∧ Keyword.ofText? (t.takeWhile continuesWord) = none ∧
      joinsQuote (t.takeWhile continuesWord) (t.dropWhile continuesWord) = false := by
  unfold word at h
  dsimp only at h
  cases hk : Keyword.ofText? (t.takeWhile continuesWord) with
  | some k =>
    rw [hk] at h
    dsimp only at h
    split at h
    next => exact absurd h (by simp)
    next =>
      split at h
      next => exact absurd h (by simp)
      next => split at h <;> exact absurd h (by simp)
  | none =>
    rw [hk] at h
    split at h
    next hrest =>
      rw [hrest]
      exact ⟨(Prod.mk.inj h).2, rfl, rfl⟩
    next g inner hrest =>
      rw [hrest]
      split at h
      next => exact absurd h (by simp)
      next hraw =>
        split at h
        next => exact absurd h (by simp)
        next hquote =>
          refine ⟨(Prod.mk.inj h).2, rfl, ?_⟩
          rw [joinsQuote, Bool.or_eq_false_iff]
          exact ⟨by simpa using hraw, by simpa using hquote⟩

/-- A glyph that starts a word opens no directive, comment or number. -/
theorem leading_startsWord {lineStart : Bool} {g : Glyph} {rest : Text} (hg : startsWord g = true)
    (hd : isDigit g = false) : leading lineStart (g :: rest) = word (g :: rest) := by
  have hhash : g ≠ .scalar '#' := by rintro rfl; exact absurd hg (by decide)
  have hslash : g ≠ .scalar '/' := by rintro rfl; exact absurd hg (by decide)
  have hdot : (g == Glyph.scalar '.') = false := by
    refine beq_eq_false_iff_ne.mpr ?_
    rintro rfl
    exact absurd hg (by decide)
  rw [leading_plain (fun h => hhash h.1) fun h => absurd h hslash, hd, hdot]
  simp [hg]

theorem length_word_of_ne_literal {t : Text} (h : (word t).1 ≠ .literal) :
    (word t).2 = (t.takeWhile continuesWord).length := by
  unfold word at h ⊢
  dsimp only at h ⊢
  split
  next => rfl
  next g inner hrest =>
    rw [hrest] at h
    dsimp only at h
    split
    next hraw =>
      rw [if_pos hraw] at h
      exact absurd rfl h
    next hraw =>
      rw [if_neg hraw] at h
      split
      next hquote =>
        rw [if_pos hquote] at h
        exact absurd rfl h
      next => rfl

/-- An identifier or a keyword is a word, and no word goes on behind it. -/
theorem word_of_leading {lineStart : Bool} {name rest : Text} {kind : TokenKind} (hne : name ≠ [])
    (hkind : kind = .identifier ∨ ∃ k, kind = .keyword k)
    (h : leading lineStart (name ++ rest) = (kind, name.length)) :
    (∃ g more, name = g :: more ∧ startsWord g = true ∧ isDigit g = false) ∧
      (∀ g ∈ name, continuesWord g = true) ∧ EndsWord rest ∧
      word (name ++ rest) = (kind, name.length) := by
  obtain ⟨g, more, rfl⟩ := List.exists_cons_of_ne_nil hne
  have hliteral : kind ≠ .literal := by rcases hkind with rfl | ⟨k, rfl⟩ <;> exact fun h => nomatch h
  have absurd_of : ∀ {other : TokenKind} {n : Nat}, (other, n) = (kind, (g :: more).length) →
      other ≠ .identifier → (∀ k, other ≠ .keyword k) → False := by
    intro other n heq hid hkey
    obtain rfl := (Prod.mk.inj heq).1
    rcases hkind with h | ⟨k, h⟩
    · exact hid h
    · exact hkey k h
  rw [List.cons_append] at h
  -- no other shape gives a word
  by_cases hd : g = .scalar '#' ∧ lineStart = true
  · obtain ⟨rfl, rfl⟩ := hd
    rw [leading_directive] at h
    exact (absurd_of h (by simp) (by simp)).elim
  rcases comment_cases g (more ++ rest) with ⟨t, rfl, ht⟩ | ⟨t, rfl, ht⟩ | hplain
  · rw [ht, leading_lineComment] at h
    exact (absurd_of h (by simp) (by simp)).elim
  · rw [ht, leading_blockComment] at h
    exact (absurd_of h (by simp) (by simp)).elim
  rw [leading_plain hd hplain] at h
  split at h
  next => exact (absurd_of h (by simp) (by simp)).elim
  next hnum =>
    split at h
    next hg =>
      rw [← List.cons_append] at h
      have hlen := length_word_of_ne_literal (t := g :: more ++ rest) (by rw [h]; exact hliteral)
      rw [h] at hlen
      have hname : (g :: more ++ rest).takeWhile continuesWord = g :: more := by
        have hpre := (List.takeWhile_prefix continuesWord (l := g :: more ++ rest))
        exact (List.prefix_of_prefix_length_le hpre (List.prefix_append _ rest)
          (Nat.le_of_eq hlen.symm)).eq_of_length hlen.symm
      have hall : ∀ a ∈ g :: more, continuesWord a = true := by
        rw [← hname]
        intro a ha
        exact List.all_eq_true.mp (List.all_takeWhile) a ha
      have hend : EndsWord rest := by
        rw [List.takeWhile_append_of_pos hall] at hname
        exact List.append_right_eq_self.mp hname
      simp only [Bool.or_eq_true, not_or, Bool.not_eq_true] at hnum
      exact ⟨⟨g, more, rfl, hg, hnum.1⟩, hall, hend, h⟩
    next =>
      split at h
      next => exact (absurd_of h (by simp) (by simp)).elim
      next =>
        unfold symbol at h
        split at h <;> exact (absurd_of h (by simp) (by simp)).elim

/-- Which texts start with an identifier that ends where `name` does. -/
theorem leading_eq_identifier_iff {lineStart : Bool} {name rest : Text} (hne : name ≠ []) :
    leading lineStart (name ++ rest) = (.identifier, name.length) ↔
      IsName name ∧ EndsWord rest ∧ joinsQuote name rest = false := by
  constructor
  · intro h
    obtain ⟨hstart, hall, hend, hword⟩ := word_of_leading hne (Or.inl rfl) h
    obtain ⟨-, hkey, hquote⟩ := word_eq_identifier hword
    rw [takeWhile_name hall hend] at hkey hquote
    rw [dropWhile_name hall hend] at hquote
    exact ⟨⟨hstart, hall, hkey⟩, hend, hquote⟩
  · rintro ⟨hname, hrest, hquote⟩
    obtain ⟨⟨g, more, rfl, hg, hd⟩, -⟩ := id hname
    rw [List.cons_append, leading_startsWord hg hd]
    exact word_name hname hrest hquote

end Lexeme

/-! ## Renamings -/

/-- New spellings for some words. The old ones start with a letter or an underscore, and the new
ones are identifiers that do so too. -/
structure Renaming where
  newName : Text → Option Text
  startsWord_old : ∀ {name new}, newName name = some new → Lexeme.StartsWord name
  startsWord_new : ∀ {name new}, newName name = some new → Lexeme.StartsWord new
  isName_new : ∀ {name new}, newName name = some new → Lexeme.IsName new

namespace Renaming

/-- The spelling of a name after the renaming. -/
def apply (ρ : Renaming) (name : Text) : Text := (ρ.newName name).getD name

/-- A piece after the renaming: only identifiers change. -/
def piece (ρ : Renaming) : Piece → Piece
  | .lexeme .identifier name => .lexeme .identifier (ρ.apply name)
  | p => p

/-- The text of some pieces after the renaming. -/
def text (ρ : Renaming) (ps : List Piece) : Text := Piece.join (ps.map ρ.piece)

variable {ρ : Renaming}

@[simp] theorem piece_identifier (name : Text) :
    ρ.piece (.lexeme .identifier name) = .lexeme .identifier (ρ.apply name) := rfl

theorem piece_lexeme {kind : TokenKind} (h : kind ≠ .identifier) (t : Text) :
    ρ.piece (.lexeme kind t) = .lexeme kind t := by
  cases kind <;> first | rfl | exact absurd rfl h

@[simp] theorem text_nil : ρ.text [] = [] := rfl

@[simp] theorem text_cons (p : Piece) (ps : List Piece) :
    ρ.text (p :: ps) = (ρ.piece p).text ++ ρ.text ps := rfl

theorem apply_of_none {name : Text} (h : ρ.newName name = none) : ρ.apply name = name := by
  rw [apply, h]
  rfl

theorem apply_of_some {name new : Text} (h : ρ.newName name = some new) : ρ.apply name = new := by
  rw [apply, h]
  rfl

/-- A piece is renamed, or it stays as it is. -/
theorem piece_cases (ρ : Renaming) (p : Piece) :
    (∃ name new, p = .lexeme .identifier name ∧ ρ.newName name = some new) ∨ ρ.piece p = p := by
  cases p with
  | gap t => exact Or.inr rfl
  | lexeme kind t =>
    by_cases hk : kind = .identifier
    · subst hk
      cases h : ρ.newName t with
      | none =>
        right
        rw [piece_identifier, apply_of_none h]
      | some new => exact Or.inl ⟨t, new, rfl, h⟩
    · exact Or.inr (piece_lexeme hk t)

/-- No word is renamed, or the two texts agree up to the first renamed word. -/
theorem text_cases (ρ : Renaming) (ps : List Piece) :
    ρ.text ps = Piece.join ps ∨
      ∃ front name back u v, ps = front ++ .lexeme .identifier name :: back ∧
        Piece.join ps = Piece.join front ++ u ∧ ρ.text ps = Piece.join front ++ v ∧
        Lexeme.StartsWord u ∧ Lexeme.StartsWord v := by
  induction ps with
  | nil => exact Or.inl rfl
  | cons p ps ih =>
    rcases ρ.piece_cases p with ⟨name, new, rfl, hnew⟩ | hp
    · right
      refine ⟨[], name, ps, name ++ Piece.join ps, new ++ ρ.text ps, rfl, rfl, ?_, ?_, ?_⟩
      · rw [text_cons, piece_identifier, apply_of_some hnew]
        rfl
      · obtain ⟨g, more, rfl, hg⟩ := ρ.startsWord_old hnew
        exact ⟨g, more ++ Piece.join ps, rfl, hg⟩
      · obtain ⟨g, more, rfl, hg⟩ := ρ.startsWord_new hnew
        exact ⟨g, more ++ ρ.text ps, rfl, hg⟩
    · rcases ih with h | ⟨front, name, back, u, v, rfl, hu, hv, hsu, hsv⟩
      · left
        rw [text_cons, hp, h, Piece.join_cons]
      · right
        refine ⟨p :: front, name, back, u, v, rfl, ?_, ?_, hsu, hsv⟩
        · rw [Piece.join_cons, hu, Piece.join_cons, List.append_assoc]
        · rw [text_cons, hp, hv, Piece.join_cons, List.append_assoc]

end Renaming

theorem Punct.mem_all (p : Punct) : p ∈ all := by
  cases p <;> decide

namespace Piece

variable {ρ : Renaming}

/-- No gap starts with a glyph that starts a word. -/
theorem no_gap_of_startsWord {g : Glyph} (hg : Lexeme.startsWord g = true) (rest : Text) :
    g ≠ .scalar '\n' ∧ g.isSpacing = false ∧ Lexeme.spliceLength (g :: rest) = 0 := by
  refine ⟨?_, ?_, ?_⟩
  · rintro rfl
    exact absurd hg (by decide)
  · cases g with
    | raw b => rfl
    | scalar c =>
      refine Bool.eq_false_iff.mpr fun hs => ?_
      simp only [Glyph.isSpacing, Bool.or_eq_true, beq_iff_eq] at hs
      rcases hs with (((rfl | rfl) | rfl) | rfl) | rfl <;> exact absurd hg (by decide)
  · refine Nat.eq_zero_of_not_pos fun hpos => ?_
    obtain rfl := head_of_spliceLength_pos hpos
    exact absurd hg (by decide)

theorem leads_identifier_iff {lineStart : Bool} {name rest : Text} :
    Leads lineStart (.lexeme .identifier name) rest ↔
      Lexeme.IsName name ∧ Lexeme.EndsWord rest ∧ Lexeme.joinsQuote name rest = false := by
  constructor
  · rintro ⟨g, more, rfl, -, -, -, hl⟩
    exact (Lexeme.leading_eq_identifier_iff (by simp)).mp hl
  · intro h
    obtain ⟨⟨⟨g, more, rfl, hg, hd⟩, -⟩, -⟩ := id h
    obtain ⟨hn, hs, hsplice⟩ := no_gap_of_startsWord hg (more ++ rest)
    exact ⟨g, more, rfl, hn, hs, hsplice, (Lexeme.leading_eq_identifier_iff (by simp)).mpr h⟩

/-- Where it is the longest one, a punctuator leads a text, unless its first glyph opens a comment, a directive or
a number. -/
theorem leads_punct {lineStart : Bool} {p : Punct} {rest : Text}
    (hp : p ∉ [Punct.slash, .slashEq, .hash, .hashHash, .dot, .dotStar, .ellipsis])
    (h : Punct.leading? (p.text ++ rest) = some p) :
    Leads lineStart (.lexeme (.punct p) p.text) rest := by
  have hall : ∀ p ∈ Punct.all, p ∉ [Punct.slash, .slashEq, .hash, .hashHash, .dot, .dotStar, .ellipsis] →
      (p.text.head?.any fun g => g != .scalar '\n' && !g.isSpacing && g != .scalar '\\' && g != .scalar '#' &&
        g != .scalar '/' && g != .scalar '.' && !Lexeme.isDigit g && !Lexeme.startsWord g &&
        !Lexeme.isQuote g) = true := by decide +kernel
  have hfirst := hall p p.mem_all hp
  obtain ⟨g, more, htext⟩ := List.exists_cons_of_ne_nil (List.length_pos_iff.mp (Lexeme.text_length_pos p))
  simp only [htext, List.head?_cons, Option.any_some, Bool.and_eq_true, bne_iff_ne, ne_eq, Bool.not_eq_true']
    at hfirst
  obtain ⟨⟨⟨⟨⟨⟨⟨⟨hline, hspacing⟩, hback⟩, hhash⟩, hslash⟩, hpoint⟩, hdigit⟩, hword⟩, hquote⟩ := hfirst
  have hsplice : Lexeme.spliceLength (p.text ++ rest) = 0 := by
    rw [htext]
    exact Nat.eq_zero_of_not_pos fun hpos => hback (head_of_spliceLength_pos hpos)
  refine ⟨g, more, htext, hline, hspacing, hsplice, ?_⟩
  rw [htext, List.cons_append] at h ⊢
  rw [Lexeme.leading_plain (fun hd => hhash hd.1) (fun hg => absurd hg hslash),
    if_neg (by simp [hdigit, hpoint]), if_neg (by simp [hword]), if_neg (by simp [hquote]), Lexeme.symbol, h]
  dsimp only
  rw [htext]

/-- A quote is never a piece of its own in front of a word or a bracket. -/
theorem not_leads_quote {lineStart : Bool} {p : Piece} {u : Text} (hu : Lexeme.StartsTerm u)
    (hp : p.text = [.scalar '\'']) : ¬Leads lineStart p u := by
  intro h
  cases p with
  | gap t =>
    simp only [text] at hp
    subst hp
    rcases h with h | ⟨g, h, -, hg⟩ | ⟨-, h⟩
    · exact absurd h (by decide)
    · obtain ⟨rfl, -⟩ := List.cons.inj h
      exact absurd hg (by decide)
    · have := head_of_spliceLength_pos (g := .scalar '\'') (t := u) (by rw [← List.singleton_append, ← h]; decide)
      exact absurd this (by decide)
  | lexeme kind t =>
    simp only [text] at hp
    subst hp
    obtain ⟨_, _, -, -, -, -, hl⟩ := h
    rw [List.singleton_append, Lexeme.leading_plain (by simp) (fun h => absurd h (by decide))] at hl
    obtain ⟨a, us, rfl, ha⟩ := hu
    have := Lexeme.quotedTail_pos (.scalar '\'') (u := us) (Lexeme.ne_of_opensTerm ha (c := '\n') (by decide))
    rw [if_neg (by simp [show Lexeme.isDigit (.scalar '\'') = false by decide]), if_neg (by decide),
      if_pos (by decide)] at hl
    have hlen := (Prod.mk.inj hl).2
    simp only [List.length_singleton] at hlen
    omega

/-- The pieces in front of a word or a bracket that begins a piece are not a single quote. -/
theorem join_ne_quote {lineStart : Bool} {front ps : List Piece}
    (h : ofText lineStart (join (front ++ ps)) = front ++ ps) (hps : Lexeme.StartsTerm (join ps)) :
    join front ≠ [.scalar '\''] := by
  intro hq
  cases front with
  | nil => exact absurd hq (by simp)
  | cons q front =>
    rw [List.cons_append] at h
    obtain ⟨-, hlead, -⟩ := ofText_eq_cons_iff.mp h
    obtain ⟨g, more, hg⟩ := List.exists_cons_of_ne_nil (text_ne_nil hlead)
    rw [join_cons, hg, List.cons_append] at hq
    obtain ⟨rfl, hrest⟩ := List.cons.inj hq
    obtain ⟨rfl, hfront⟩ := List.append_eq_nil_iff.mp hrest
    rw [join_append, hfront, List.nil_append] at hlead
    exact not_leads_quote hps hg hlead

/-- A piece leads a text whichever word or bracket stands somewhere behind it, unless a quote is all there is
between the two, or nothing is and a word might become a part of the piece. -/
theorem leads_append_term {lineStart : Bool} {p : Piece} {t u v : Text} (hp : Leads lineStart p (t ++ u))
    (hu : Lexeme.StartsTerm u) (hv : Lexeme.StartsTerm v)
    (hend : ∀ kind s, p = .lexeme kind s → Lexeme.isWordOrLiteral kind = true → t ≠ [] ∨ Lexeme.StartsWord u)
    (hquote : t ≠ [.scalar '\'']) : Leads lineStart p (t ++ v) := by
  cases p with
  | gap s =>
    rcases hp with hp | hp | ⟨hpos, hlen⟩
    · exact Or.inl hp
    · exact Or.inr (Or.inl hp)
    · refine Or.inr (Or.inr ⟨hpos, ?_⟩)
      rw [← List.append_assoc] at hlen ⊢
      rw [hlen]
      exact (Lexeme.spliceLength_append_term (List.append_ne_nil_of_left_ne_nil
        (List.length_pos_iff.mp hpos) _) hu hv).symm
  | lexeme kind s =>
    obtain ⟨g, more, hs, hn, hg, hsplice, hl⟩ := hp
    have hne : s ++ t ≠ [] := by simp [hs]
    rw [← List.append_assoc] at hsplice hl
    refine ⟨g, more, hs, hn, hg, ?_, ?_⟩
    · rw [← List.append_assoc, Lexeme.spliceLength_append_term hne hu hv, hsplice]
    · rw [← List.append_assoc, Lexeme.leading_before_term hne hu hv, hl]
      · rw [hl, List.length_append]
        exact Nat.le_add_right _ _
      · rw [hl]
        intro hkind
        refine (hend kind s rfl hkind).imp_left fun ht => ?_
        have := List.length_pos_iff.mpr ht
        rw [List.length_append]
        omega
      · rw [hl, List.drop_left]
        exact hquote

/-- A piece leads a text whichever word stands somewhere behind it, unless a quote is all there is between
the two. -/
theorem leads_append_word {lineStart : Bool} {p : Piece} {t u v : Text} (hp : Leads lineStart p (t ++ u))
    (hu : Lexeme.StartsWord u) (hv : Lexeme.StartsWord v) (hquote : t ≠ [.scalar '\'']) :
    Leads lineStart p (t ++ v) :=
  leads_append_term hp hu.term hv.term (fun _ _ _ _ => Or.inr hu) hquote

/-- Pieces in front of a word or a bracket stay as they are in front of another one, unless a word right behind
might become a part of the last one. -/
theorem ofText_append_term {lineStart : Bool} {front ps : List Piece} {v : Text}
    (h : ofText lineStart (join (front ++ ps)) = front ++ ps) (hps : Lexeme.StartsTerm (join ps))
    (hv : Lexeme.StartsTerm v)
    (hend : ∀ kind s, front.getLast? = some (.lexeme kind s) → Lexeme.isWordOrLiteral kind = true →
      Lexeme.StartsWord (join ps)) :
    ofText lineStart (join front ++ v) = front ++ ofText (front.foldl lineStartPast lineStart) v := by
  induction front generalizing lineStart with
  | nil => rfl
  | cons p front ih =>
    rw [List.cons_append] at h
    obtain ⟨-, hlead, hrest⟩ := ofText_eq_cons_iff.mp h
    have hlast : ∀ kind s, p = .lexeme kind s → Lexeme.isWordOrLiteral kind = true →
        join front ≠ [] ∨ Lexeme.StartsWord (join ps) := by
      rintro kind s rfl hkind
      cases front with
      | nil => exact Or.inr (hend kind s rfl hkind)
      | cons q front =>
        obtain ⟨-, hq, -⟩ := ofText_eq_cons_iff.mp hrest
        exact Or.inl (List.append_ne_nil_of_left_ne_nil (text_ne_nil hq) _)
    have hlater : ∀ kind s, front.getLast? = some (.lexeme kind s) → Lexeme.isWordOrLiteral kind = true →
        Lexeme.StartsWord (join ps) := by
      intro kind s hs
      refine hend kind s ?_
      rw [List.getLast?_cons, hs]
      rfl
    have hjoin : join (front ++ ps) = join front ++ join ps := join_append front ps
    have hquote := join_ne_quote hrest hps
    rw [hjoin] at hlead
    rw [join_cons, List.append_assoc, ofText_of_leads (leads_append_term hlead hps hv hlast hquote),
      ih hrest hlater]
    rfl

/-- A piece that is not renamed still leads the text when words behind it are. -/
theorem leads_of_unrenamed {lineStart lineStart' : Bool} {p : Piece} {ps : List Piece}
    (hp : Leads lineStart p (join ps)) (hps : ofText lineStart' (join ps) = ps) :
    Leads lineStart p (ρ.text ps) := by
  rcases ρ.text_cases ps with heq | ⟨front, name, back, u, v, rfl, hu, hv, hsu, hsv⟩
  · rw [heq]
    exact hp
  rw [hu] at hp
  rw [hv]
  refine leads_append_word hp hsu hsv (join_ne_quote hps ?_)
  rw [join_append] at hu
  rw [List.append_cancel_left hu]
  exact hsu.term

/-- After an identifier the text goes on with the same glyph when words behind it are renamed. -/
theorem head_text (ρ : Renaming) {lineStart : Bool} {ps : List Piece} (hps : ofText lineStart (join ps) = ps)
    (hend : Lexeme.EndsWord (join ps)) : (ρ.text ps).head? = (join ps).head? := by
  cases ps with
  | nil => rfl
  | cons p ps =>
    obtain ⟨-, hlead, -⟩ := ofText_eq_cons_iff.mp hps
    obtain ⟨g, more, hg⟩ := List.exists_cons_of_ne_nil (text_ne_nil hlead)
    rcases ρ.piece_cases p with ⟨name, new, rfl, hnew⟩ | hp
    · obtain ⟨a, as, rfl, ha⟩ := ρ.startsWord_old hnew
      have := Lexeme.endsWord_cons.mp hend
      rw [Lexeme.continuesWord_of_opensWord ha] at this
      exact absurd this (by decide)
    · rw [Renaming.text_cons, hp, join_cons, hg]
      rfl

theorem lineStartPast_piece (lineStart : Bool) (p : Piece) :
    lineStartPast lineStart (ρ.piece p) = lineStartPast lineStart p := by
  rcases ρ.piece_cases p with ⟨name, new, rfl, -⟩ | hp
  · rfl
  · rw [hp]

/-- No renamed identifier among the first pieces has a quote right behind it that its new spelling
would join; `behind` is the text after these pieces. -/
def NoQuoteJoined (ρ : Renaming) (behind : Text) : List Piece → Prop
  | [] => True
  | p :: ps =>
    (∀ name new, p = .lexeme .identifier name → ρ.newName name = some new →
      Lexeme.joinsQuote new (join ps ++ behind) = false) ∧ NoQuoteJoined ρ behind ps

theorem noQuoteJoined_iff_forall {behind : Text} {ps : List Piece} :
    NoQuoteJoined ρ behind ps ↔
      ∀ front name new back, ps = front ++ .lexeme .identifier name :: back →
        ρ.newName name = some new → Lexeme.joinsQuote new (join back ++ behind) = false := by
  induction ps with
  | nil => simp [NoQuoteJoined]
  | cons p ps ih =>
    rw [NoQuoteJoined, ih]
    constructor
    · rintro ⟨hfirst, hrest⟩ front name new back heq hnew
      cases front with
      | nil =>
        obtain ⟨rfl, rfl⟩ := List.cons.inj heq
        exact hfirst name new rfl hnew
      | cons q front =>
        obtain ⟨-, rfl⟩ := List.cons.inj heq
        exact hrest front name new back rfl hnew
    · intro hall
      refine ⟨fun name new hp hnew => hall [] name new ps (by rw [hp]; rfl) hnew, ?_⟩
      intro front name new back heq hnew
      exact hall (p :: front) name new back (by rw [heq]; rfl) hnew

/-- No new spelling joins a quote, or there is a first one that does. -/
theorem noQuoteJoined_or (ρ : Renaming) (ps : List Piece) :
    NoQuoteJoined ρ [] ps ∨
      ∃ front name new back, ps = front ++ .lexeme .identifier name :: back ∧
        ρ.newName name = some new ∧ Lexeme.joinsQuote new (join back) = true ∧
        NoQuoteJoined ρ (join (.lexeme .identifier name :: back)) front := by
  induction ps with
  | nil => exact Or.inl trivial
  | cons p ps ih =>
    by_cases hp : ∃ name new, p = .lexeme .identifier name ∧ ρ.newName name = some new ∧
        Lexeme.joinsQuote new (join ps) = true
    · obtain ⟨name, new, rfl, hnew, hjoin⟩ := hp
      exact Or.inr ⟨[], name, new, ps, rfl, hnew, hjoin, trivial⟩
    have hfirst : ∀ name new, p = .lexeme .identifier name → ρ.newName name = some new →
        Lexeme.joinsQuote new (join ps) = false := fun name new heq hnew =>
      Bool.eq_false_iff.mpr fun hjoin => hp ⟨name, new, heq, hnew, hjoin⟩
    rcases ih with hrest | ⟨front, name, new, back, rfl, hnew, hjoin, hfront⟩
    · exact Or.inl ⟨by simpa using hfirst, hrest⟩
    · refine Or.inr ⟨p :: front, name, new, back, rfl, hnew, hjoin, ?_, hfront⟩
      simpa using hfirst

/-- Renamed pieces are cut at the same places. -/
theorem leads_renamed (ρ : Renaming) {lineStart lineStart' : Bool} {p : Piece} {ps : List Piece}
    (hp : Leads lineStart p (join ps)) (hps : ofText lineStart' (join ps) = ps)
    (hquote : ∀ name new, p = .lexeme .identifier name → ρ.newName name = some new →
      Lexeme.joinsQuote new (join ps) = false) :
    Leads lineStart (ρ.piece p) (ρ.text ps) := by
  rcases ρ.piece_cases p with ⟨name, new, rfl, hnew⟩ | heq
  · obtain ⟨-, hend, -⟩ := leads_identifier_iff.mp hp
    have hhead := head_text ρ hps hend
    rw [Renaming.piece_identifier, Renaming.apply_of_some hnew, leads_identifier_iff]
    refine ⟨ρ.isName_new hnew, (Lexeme.endsWord_congr hhead).mpr hend, ?_⟩
    rw [Lexeme.joinsQuote_congr hhead]
    exact hquote name new rfl hnew
  · rw [heq]
    exact leads_of_unrenamed hp hps

/-- The new text is cut at the same places, as long as no new spelling joins a quote. -/
theorem ofText_text_append (ρ : Renaming) {lineStart : Bool} (front back : List Piece)
    (h : ofText lineStart (join (front ++ back)) = front ++ back)
    (hquote : NoQuoteJoined ρ (join back) front) :
    ofText lineStart (ρ.text (front ++ back)) =
      front.map ρ.piece ++ ofText (front.foldl lineStartPast lineStart) (ρ.text back) := by
  induction front generalizing lineStart with
  | nil => rfl
  | cons p front ih =>
    rw [List.cons_append] at h ⊢
    obtain ⟨-, hlead, hrest⟩ := ofText_eq_cons_iff.mp h
    have hp := leads_renamed ρ hlead hrest (by rw [join_append]; exact hquote.1)
    rw [Renaming.text_cons, ofText_of_leads hp, lineStartPast_piece, ih hrest hquote.2]
    rfl

/-- Where no new spelling joins a quote, renaming and cutting commute. -/
theorem ofText_map_rename {lineStart : Bool} {ps : List Piece} (h : ofText lineStart (join ps) = ps)
    (hquote : NoQuoteJoined ρ [] ps) : ofText lineStart (ρ.text ps) = ps.map ρ.piece := by
  have := ofText_text_append ρ ps [] (by rwa [List.append_nil]) hquote
  rwa [List.append_nil, Renaming.text_nil, ofText, List.append_nil] at this

/-- Where a new spelling joins the quote behind it, the new text has a literal in place of the
identifier. -/
theorem ofText_joined {lineStart : Bool} {name new : Text} {ps : List Piece}
    (h : ofText lineStart (join (.lexeme .identifier name :: ps)) = .lexeme .identifier name :: ps)
    (hnew : ρ.newName name = some new) (hquote : Lexeme.joinsQuote new (join ps) = true) :
    ∃ t more, ofText lineStart (ρ.text (.lexeme .identifier name :: ps)) = .lexeme .literal t :: more := by
  obtain ⟨-, hlead, hrest⟩ := ofText_eq_cons_iff.mp h
  obtain ⟨-, hend, -⟩ := leads_identifier_iff.mp hlead
  have hhead := head_text ρ hrest hend
  have hliteral := Lexeme.word_joinsQuote (ρ.isName_new hnew) ((Lexeme.endsWord_congr hhead).mpr hend)
    (by rw [Lexeme.joinsQuote_congr hhead]; exact hquote)
  obtain ⟨⟨g, more, rfl, hg, hd⟩, -⟩ := id (ρ.isName_new hnew)
  obtain ⟨hn, hs, hsplice⟩ := no_gap_of_startsWord hg (more ++ ρ.text ps)
  rw [List.cons_append, ← Lexeme.leading_startsWord hg hd] at hliteral
  rw [Renaming.text_cons, Renaming.piece_identifier, Renaming.apply_of_some hnew, text,
    List.cons_append, ofText, if_neg hn, if_neg (by rw [hs]; decide), if_neg (by rw [hsplice]; decide)]
  dsimp only
  rw [hliteral]
  exact ⟨_, _, rfl⟩

end Piece

/-! ## Words side by side -/

/-- The text of an identifier is a name. -/
theorem isName_text {source : Text} {t : Token} (ht : t ∈ tokens source) (hkind : t.kind = .identifier) :
    Lexeme.IsName t.text := by
  obtain ⟨_, _, _, -, -, -, hlead⟩ := exists_leads_of_mem_tokens ht
  rw [hkind] at hlead
  exact (Piece.leads_identifier_iff.mp hlead).1

/-- An identifier or a keyword is a word of its text, and no word goes on behind it. -/
theorem word_of_mem_tokens {source : Text} {t : Token} (ht : t ∈ tokens source)
    (hword : t.kind = .identifier ∨ ∃ k, t.kind = .keyword k) :
    source.drop t.start = t.text ++ source.drop t.stop ∧
      (∃ g more, t.text = g :: more ∧ Lexeme.startsWord g = true) ∧
      (∀ g ∈ t.text, Lexeme.continuesWord g = true) ∧ Lexeme.EndsWord (source.drop t.stop) := by
  obtain ⟨_, before, rest, hsource, hstart, hstop, hlead⟩ := exists_leads_of_mem_tokens ht
  have hne : t.text ≠ [] := Piece.text_ne_nil hlead
  obtain ⟨_, _, -, -, -, -, hleading⟩ := hlead
  obtain ⟨⟨g, more, htext, hg, -⟩, hall, hend, -⟩ := Lexeme.word_of_leading hne hword hleading
  have hfrom : source.drop t.start = t.text ++ rest := by
    rw [hsource, hstart, List.append_assoc, List.drop_left]
  have hbehind : source.drop t.stop = rest := by
    rw [hsource]
    exact List.drop_left' (by rw [List.length_append]; omega)
  rw [hfrom, hbehind]
  exact ⟨rfl, ⟨g, more, htext, hg⟩, hall, hend⟩

/-- Two words of a text do not touch. -/
theorem stop_ne_start_of_words {source : Text} {t u : Token} (ht : t ∈ tokens source)
    (hu : u ∈ tokens source) (htword : t.kind = .identifier ∨ ∃ k, t.kind = .keyword k)
    (huword : u.kind = .identifier ∨ ∃ k, u.kind = .keyword k) : t.stop ≠ u.start := by
  intro h
  obtain ⟨-, -, -, hend⟩ := word_of_mem_tokens ht htword
  obtain ⟨hfrom, ⟨g, more, htext, hg⟩, -, -⟩ := word_of_mem_tokens hu huword
  -- what stands behind the first word is the second one
  rw [h, hfrom, htext, List.cons_append, Lexeme.endsWord_cons, Lexeme.continuesWord_of_startsWord hg]
    at hend
  exact absurd hend (by decide)

end HouseStyle
