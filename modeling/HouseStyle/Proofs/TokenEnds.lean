import HouseStyle.Proofs.GuardPlace
import HouseStyle.Proofs.Nesting

/-!
# Where a token ends

Two tokens that stand apart in one text may be written side by side in another. Whether the first one is then
still read as it was is to be seen from the next glyph alone, but for two shapes that need one more: a quote
goes on with a number if a letter or a digit follows, and a point is part of `...` if two more follow.

- `Lexeme.leading_of_head`: a token of the code ends where it does in front of all texts that look alike.
- `Token.EndsBefore`: the token is still read as it is with a given text right behind it.
- `lexemesOf_joinedText_iff`: the normalised text of a type is cut into the tokens of the type exactly when each
  of them ends before what is written next to it (`Separate`).

A punctuator is the longest one that stands at the front of a text (`Punct.leading_eq_some_iff`), and it comes
to be glyph by glyph (`Punct.exists_text_eq_take`): this is why one glyph is enough.
-/

namespace HouseStyle

/-! ## The longest punctuator -/

namespace Punct

/-- What is to be seen from the spellings of some punctuators. -/
structure Spelled (ps : List Punct) : Prop where
  injective : ∀ p ∈ ps, ∀ q ∈ ps, p.text = q.text → p = q
  longestFirst : ps.Pairwise fun p q => q.text.length ≤ p.text.length
  /-- Each beginning of a longer one is one, but for `..`. -/
  beginning : ∀ p ∈ ps, ∀ q ∈ ps, p.text.isPrefixOf q.text = true → p ≠ q → (p = .dot → q ≠ .ellipsis) →
    ∃ r ∈ ps, r.text = q.text.take (p.text.length + 1)
  first : ∀ q ∈ ps, ∃ r ∈ ps, r.text = q.text.take 1
  /-- Round brackets and `>` are no beginnings of longer ones. -/
  alone : ∀ p ∈ [Punct.greater, .lparen, .rparen], ∀ q ∈ ps, q.text.head? = p.text.head? → q.text.length ≤ 1
  behindLess : ∀ q ∈ ps, q.text.head? = some (.scalar '<') → 1 < q.text.length →
    q.text[1]? = some (.scalar '<') ∨ q.text[1]? = some (.scalar '=')

theorem spelled_all : Spelled all := by
  constructor <;> decide +kernel

/-- A punctuator is told by its text. -/
theorem text_injective {p q : Punct} (h : p.text = q.text) : p = q :=
  spelled_all.injective p (mem_all p) q (mem_all q) h

/-- Of the punctuators at the front of a text the longest one is read. -/
theorem leading_eq_some_iff {p : Punct} {t : Text} :
    leading? t = some p ↔ p.text <+: t ∧ ∀ q : Punct, q.text <+: t → q.text.length ≤ p.text.length := by
  have hfound : ∀ {p}, leading? t = some p →
      p.text <+: t ∧ ∀ q : Punct, q.text <+: t → q.text.length ≤ p.text.length := by
    intro p h
    obtain ⟨hp, before, behind, hall, hbefore⟩ := List.find?_eq_some_iff_append.mp h
    refine ⟨List.isPrefixOf_iff_prefix.mp hp, fun q hq => ?_⟩
    have hlengths := spelled_all.longestFirst
    have hmem := mem_all q
    rw [hall] at hmem hlengths
    rcases List.mem_append.mp hmem with hmem | hmem
    · have := hbefore q hmem
      rw [List.isPrefixOf_iff_prefix.mpr hq] at this
      exact absurd this (by decide)
    · rcases List.mem_cons.mp hmem with rfl | hmem
      · exact Nat.le_refl _
      · exact List.rel_of_pairwise_cons (List.pairwise_append.mp hlengths).2.1 hmem
  refine ⟨hfound, fun ⟨hp, hlongest⟩ => ?_⟩
  obtain ⟨q, hq⟩ : ∃ q, leading? t = some q :=
    Option.isSome_iff_exists.mp (List.find?_isSome.mpr ⟨p, mem_all p, List.isPrefixOf_iff_prefix.mpr hp⟩)
  obtain ⟨hfront, hlonger⟩ := hfound hq
  have hlength := Nat.le_antisymm (hlongest q hfront) (hlonger p hp)
  rw [hq, text_injective ((List.prefix_of_prefix_length_le hfront hp (Nat.le_of_eq hlength)).eq_of_length hlength)]

/-- The glyphs of a longer punctuator come one by one: each beginning is a punctuator, but for `..`. -/
theorem exists_text_eq_take {p q : Punct} (h : p.text <+: q.text) (hne : p ≠ q)
    (hdots : p = .dot → q ≠ .ellipsis) : ∃ r : Punct, r.text = q.text.take (p.text.length + 1) := by
  have hfront := List.isPrefixOf_iff_prefix.mpr h
  obtain ⟨r, -, hr⟩ := spelled_all.beginning p (mem_all p) q (mem_all q) hfront hne hdots
  exact ⟨r, hr⟩

/-- The first glyph of a punctuator is one. -/
theorem exists_text_eq_head (q : Punct) : ∃ r : Punct, r.text = q.text.take 1 := by
  obtain ⟨r, -, hr⟩ := spelled_all.first q (mem_all q)
  exact ⟨r, hr⟩

variable {us vs : Text} {a : Glyph}

/-- A text that is longer by one glyph at most stands in front of both texts or of neither. -/
theorem prefix_of_head {t s : Text} (hlength : s.length ≤ t.length + 1) (h : s <+: t ++ a :: vs) :
    s <+: t ++ a :: us := by
  have h : s <+: (t ++ [a]) ++ vs := by rwa [List.append_assoc]
  rw [← List.singleton_append, ← List.append_assoc]
  refine (List.prefix_of_prefix_length_le h (List.prefix_append _ _) ?_).trans (List.prefix_append _ _)
  rw [List.length_append]
  exact hlength

/-- The longest punctuator is to be seen from the glyph behind it, and a point from the two behind it. -/
theorem leading_of_head {p : Punct} (hsecond : us.head? = vs.head? ∨ (p = .dot → a ≠ .scalar '.'))
    (h : leading? (p.text ++ a :: us) = some p) : leading? (p.text ++ a :: vs) = some p := by
  obtain ⟨-, hlongest⟩ := leading_eq_some_iff.mp h
  refine leading_eq_some_iff.mpr ⟨List.prefix_append _ _, fun q hq => Nat.le_of_not_lt fun hlt => ?_⟩
  -- a longer punctuator that stands there with `vs` would begin with one that stood there with `us`
  have hpq : p.text <+: q.text := List.prefix_of_prefix_length_le (List.prefix_append _ _) hq (Nat.le_of_lt hlt)
  have hne : p ≠ q := by
    rintro rfl
    omega
  by_cases hdots : p = .dot → q ≠ .ellipsis
  · obtain ⟨r, hr⟩ := exists_text_eq_take hpq hne hdots
    have hlength : r.text.length = p.text.length + 1 := by
      rw [hr, List.length_take]
      omega
    have hstands : r.text <+: p.text ++ a :: vs := hr ▸ (List.take_prefix _ _).trans hq
    have := hlongest r (prefix_of_head (Nat.le_of_eq hlength) hstands)
    omega
  · -- the one beginning that is no punctuator
    obtain ⟨rfl, hellipsis⟩ := Classical.not_imp.mp hdots
    obtain rfl := Decidable.not_not.mp hellipsis
    obtain ⟨rest, hrest⟩ := hq
    change .scalar '.' :: .scalar '.' :: .scalar '.' :: rest = .scalar '.' :: a :: vs at hrest
    obtain ⟨-, hrest⟩ := List.cons.inj hrest
    obtain ⟨rfl, rfl⟩ := List.cons.inj hrest
    rcases hsecond with hhead | hpoint
    · cases us with
      | nil => exact absurd hhead (by simp)
      | cons b us =>
        obtain rfl := Option.some.inj hhead
        exact absurd (hlongest .ellipsis ⟨us, rfl⟩) (by decide)
    · exact hpoint rfl rfl

/-- What starts no punctuator is to be seen from the first glyph. -/
theorem leading_eq_none_of_head {t u : Text} (hhead : t.head? = u.head?) (h : leading? t = none) :
    leading? u = none := by
  refine List.find?_eq_none.mpr fun q _ hq => ?_
  obtain ⟨r, hr⟩ := exists_text_eq_head q
  have hu : r.text <+: u := hr ▸ (List.take_prefix _ _).trans (List.isPrefixOf_iff_prefix.mp hq)
  have ht : r.text <+: t := by
    have hlength : r.text.length ≤ 1 := by
      rw [hr, List.length_take]
      omega
    cases u with
    | nil => exact absurd (List.eq_nil_of_prefix_nil hu) (List.length_pos_iff.mp (Lexeme.text_length_pos r))
    | cons g u =>
      obtain ⟨more, rfl⟩ : ∃ more, t = g :: more := List.head?_eq_some_iff.mp hhead
      exact prefix_of_head (t := []) hlength hu
  exact List.find?_eq_none.mp h r (mem_all r) (List.isPrefixOf_iff_prefix.mpr ht)

end Punct

namespace Lexeme

variable {kind : TokenKind} {t us vs : Text} {a : Glyph}

theorem numberTail_of_head {last : Glyph} (hsecond : us.head? = vs.head? ∨ a ≠ .scalar '\'')
    (h : numberTail last (t ++ a :: us) = t.length) : numberTail last (t ++ a :: vs) = t.length := by
  induction t generalizing last with
  | nil =>
    simp only [List.nil_append, List.length_nil, numberTail] at h ⊢
    split at h
    next => omega
    next h₁ =>
      rw [if_neg h₁]
      split at h
      next => omega
      next h₂ =>
        have h₂' : ¬(a == .scalar '\'' && (vs.head?.map isAlphanumeric).getD false) = true := by
          rcases hsecond with hhead | hne
          · rw [← hhead]
            exact h₂
          · simp [hne]
        rw [if_neg h₂']
        split at h
        next => omega
        next h₃ => rw [if_neg h₃]
  | cons g t ih =>
    -- the glyph `g` belongs to the number in both texts or in neither
    have step : ∀ last', 1 + numberTail last' (t ++ a :: us) = (g :: t).length →
        1 + numberTail last' (t ++ a :: vs) = (g :: t).length := by
      intro last' h
      rw [List.length_cons] at h ⊢
      rw [ih (by omega)]
      omega
    have hhead : (t ++ a :: vs).head? = (t ++ a :: us).head? := by cases t <;> rfl
    simp only [List.cons_append, numberTail, hhead] at h ⊢
    split at h
    next h₁ => rw [if_pos h₁]; exact step g h
    next h₁ =>
      rw [if_neg h₁]
      split at h
      next h₂ => rw [if_pos h₂]; exact step g h
      next h₂ =>
        rw [if_neg h₂]
        split at h
        next h₃ => rw [if_pos h₃]; exact step g h
        next => exact absurd h (by simp)

theorem word_of_head (h : word (t ++ a :: us) = (kind, t.length)) : word (t ++ a :: vs) = (kind, t.length) := by
  have hle := length_name_le_length_word (t ++ a :: us)
  rw [h] at hle
  rcases Nat.lt_or_eq_of_le hle with hlt | heq
  · rw [word_before ⟨a, a, us, vs, rfl, rfl, Iff.rfl⟩ hlt (Nat.le_of_eq (congrArg Prod.snd h)), h]
  -- the word is all of `t`
  have hname : (t ++ a :: us).takeWhile continuesWord = t :=
    (List.prefix_of_prefix_length_le (List.takeWhile_prefix _) (List.prefix_append t _)
      (Nat.le_of_eq heq)).eq_of_length heq
  have hall : ∀ g ∈ t, continuesWord g = true := by
    rw [← hname]
    exact fun g hg => List.all_eq_true.mp List.all_takeWhile g hg
  have hend : EndsWord (a :: us) := by
    rw [List.takeWhile_append_of_pos hall] at hname
    exact List.append_right_eq_self.mp hname
  have hend' : EndsWord (a :: vs) := endsWord_cons.mpr (endsWord_cons.mp hend)
  unfold word at h ⊢
  rw [takeWhile_name hall hend, dropWhile_name hall hend] at h
  rw [takeWhile_name hall hend', dropWhile_name hall hend']
  dsimp only at h ⊢
  split at h
  next =>
    have := (Prod.mk.inj h).2
    omega
  next hraw =>
    rw [if_neg hraw]
    split at h
    next =>
      have := (Prod.mk.inj h).2
      omega
    next hquote =>
      rw [if_neg hquote]
      exact h

theorem symbol_of_head (ht : t ≠ []) (hsecond : us.head? = vs.head? ∨ (a = .scalar '.' → t ≠ [.scalar '.']))
    (h : symbol (t ++ a :: us) = (kind, t.length)) : symbol (t ++ a :: vs) = (kind, t.length) := by
  unfold symbol at h ⊢
  split at h
  next p hp =>
    have hlength := (Prod.mk.inj h).2
    have hfront := (Punct.leading_eq_some_iff.mp hp).1
    obtain rfl : p.text = t :=
      (List.prefix_of_prefix_length_le hfront (List.prefix_append t _) (Nat.le_of_eq hlength)).eq_of_length hlength
    have hsame : Punct.leading? (p.text ++ a :: vs) = some p :=
      Punct.leading_of_head (hsecond.imp_right fun hpoint hp ha => hpoint ha (hp ▸ rfl)) hp
    rw [hsame]
    exact h
  next hnone =>
    have hhead : (t ++ a :: us).head? = (t ++ a :: vs).head? := by
      rw [List.head?_append_of_ne_nil _ ht, List.head?_append_of_ne_nil _ ht]
    have hsame : Punct.leading? (t ++ a :: vs) = none := Punct.leading_eq_none_of_head hhead hnone
    rw [hsame]
    exact h

/-- Only a symbol is a punctuator. -/
theorem symbol_of_leading_punct {lineStart : Bool} {p : Punct} {n : Nat}
    (h : leading lineStart t = (.punct p, n)) : symbol t = (.punct p, n) := by
  cases t with
  | nil => exact absurd h (by simp [leading])
  | cons g t =>
    by_cases hd : g = .scalar '#' ∧ lineStart = true
    · obtain ⟨rfl, rfl⟩ := hd
      rw [leading_directive] at h
      exact absurd h (by simp)
    rcases comment_cases g t with ⟨rest, rfl, rfl⟩ | ⟨rest, rfl, rfl⟩ | hplain
    · rw [leading_lineComment] at h
      exact absurd h (by simp)
    · rw [leading_blockComment] at h
      exact absurd h (by simp)
    rw [leading_plain hd hplain] at h
    split at h
    next => exact absurd h (by simp)
    split at h
    next =>
      have hword := isWordOrLiteral_word (g :: t)
      rw [h] at hword
      exact absurd hword (by simp [isWordOrLiteral])
    split at h
    next => exact absurd h (by simp)
    next => exact h

theorem text_of_leading_punct {lineStart : Bool} {rest : Text} {p : Punct}
    (h : leading lineStart (t ++ rest) = (.punct p, t.length)) : t = p.text := by
  have h := symbol_of_leading_punct h
  unfold symbol at h
  split at h
  next q hq =>
    obtain ⟨hkind, hlength⟩ := Prod.mk.inj h
    obtain rfl := TokenKind.punct.inj hkind
    have hfront := (Punct.leading_eq_some_iff.mp hq).1
    exact ((List.prefix_of_prefix_length_le hfront (List.prefix_append t rest)
      (Nat.le_of_eq hlength)).eq_of_length hlength).symm
  next => exact absurd h (by simp)

theorem kind_ne_of_isWordOrLiteral (h : isWordOrLiteral kind = true) : kind ≠ .comment ∧ kind ≠ .directive := by
  constructor <;>
  · rintro rfl
    exact absurd h (by decide)

/-- What opens no comment is no comment, and no directive unless it opens a line. -/
theorem kind_leading_of_opensNoComment {g : Glyph} (h : OpensNoComment g t) :
    (leading false (g :: t)).1 ≠ .comment ∧ (leading false (g :: t)).1 ≠ .directive := by
  rw [leading_plain (by simp) h]
  split
  · exact kind_ne_of_isWordOrLiteral rfl
  split
  · exact kind_ne_of_isWordOrLiteral (isWordOrLiteral_word _)
  split
  · exact kind_ne_of_isWordOrLiteral rfl
  · unfold symbol
    split <;> simp

theorem kind_leading_ne_directive (t : Text) : (leading false t).1 ≠ .directive := by
  cases t with
  | nil => simp [leading]
  | cons g t =>
    rcases comment_cases g t with ⟨rest, rfl, rfl⟩ | ⟨rest, rfl, rfl⟩ | hplain
    · simp [leading_lineComment]
    · simp [leading_blockComment]
    · exact (kind_leading_of_opensNoComment hplain).2

/-- A glyph that opens no comment in front of a text opens none in front of one that looks alike. -/
theorem opensNoComment_of_head {g : Glyph} {t us : Text} {a : Glyph} (h : OpensNoComment g (t ++ a :: us))
    (vs : Text) : OpensNoComment g (t ++ a :: vs) := by
  intro hg b more hmore
  cases t with
  | nil =>
    obtain ⟨rfl, -⟩ := List.cons.inj hmore
    exact h hg a us rfl
  | cons c t =>
    obtain ⟨rfl, -⟩ := List.cons.inj hmore
    exact h hg c (t ++ a :: us) rfl

/-- Whether a token ends where it does is to be seen from the next glyph, and from the one behind that where
a quote may go on with a number or a point with another one. -/
theorem leading_of_head (ht : t ≠ []) (hkind : kind ≠ .comment)
    (hsecond : us.head? = vs.head? ∨
      (a = .scalar '\'' → kind ≠ .literal) ∧ (a = .scalar '.' → t ≠ [.scalar '.']))
    (h : leading false (t ++ a :: us) = (kind, t.length)) :
    leading false (t ++ a :: vs) = (kind, t.length) := by
  obtain ⟨g, t, rfl⟩ := List.exists_cons_of_ne_nil ht
  rw [List.cons_append] at h ⊢
  rcases comment_cases g (t ++ a :: us) with ⟨rest, rfl, hrest⟩ | ⟨rest, rfl, hrest⟩ | hplain
  · rw [hrest, leading_lineComment] at h
    exact absurd (Prod.mk.inj h).1.symm hkind
  · rw [hrest, leading_blockComment] at h
    exact absurd (Prod.mk.inj h).1.symm hkind
  have hdirective : ¬(g = .scalar '#' ∧ false = true) := by simp
  -- the first glyph behind the token is the same, and only that and the next one are looked at
  have hhead : (t ++ a :: vs).head? = (t ++ a :: us).head? := by cases t <;> rfl
  have hbreak : SameBreak (a :: us) (a :: vs) := ⟨a, a, us, vs, rfl, rfl, Iff.rfl⟩
  rw [leading_plain hdirective hplain] at h
  rw [leading_plain hdirective (opensNoComment_of_head hplain vs), hhead]
  split at h
  next hnumber =>
    obtain ⟨hliteral, hlength⟩ := Prod.mk.inj h
    rw [List.length_cons] at hlength
    have htail : numberTail g (t ++ a :: us) = t.length := by omega
    have hquote : us.head? = vs.head? ∨ a ≠ .scalar '\'' :=
      hsecond.imp_right fun hquote ha => hquote.1 ha hliteral.symm
    rw [if_pos hnumber, numberTail_of_head hquote htail, List.length_cons, Nat.add_comm, hliteral]
  next hnumber =>
    rw [if_neg hnumber]
    split at h
    next hword =>
      rw [if_pos hword]
      exact word_of_head (t := g :: t) h
    next hword =>
      rw [if_neg hword]
      split at h
      next hquote =>
        obtain ⟨hliteral, hlength⟩ := Prod.mk.inj h
        rw [List.length_cons] at hlength
        rw [if_pos hquote, quotedTail_before (ne_of_isQuote hquote (by decide)) hbreak (by omega),
          List.length_cons, hliteral, hlength]
      next hquote =>
        rw [if_neg hquote]
        exact symbol_of_head (t := g :: t) ht (hsecond.imp_right fun hpoint => hpoint.2) h

end Lexeme

/-! ## Tokens that are written anew -/

theorem Lexeme.spliceLength_of_head {t u vs : Text} {a : Glyph} (ht : t ≠ []) (h : spliceLength (t ++ u) = 0)
    (hline : a ≠ .scalar '\n') (hreturn : a ≠ .scalar '\r') : spliceLength (t ++ a :: vs) = 0 := by
  match t, ht with
  | [g], _ => simp only [List.cons_append, List.nil_append, spliceLength] at h ⊢; grind
  | [g, b], _ => simp only [List.cons_append, List.nil_append, spliceLength] at h ⊢; grind
  | g :: b :: c :: t, _ => simp only [List.cons_append, spliceLength] at h ⊢; grind

namespace Token

/-- What a token is and how it is written. -/
def reading (t : Token) : TokenKind × Text := (t.kind, t.text)

/-- The token is still read as it is with `s` right behind it. -/
def EndsBefore (t : Token) (s : Text) : Prop :=
  Lexeme.leading false (t.text ++ s) = (t.kind, t.text.length)

instance (t : Token) (s : Text) : Decidable (t.EndsBefore s) :=
  inferInstanceAs (Decidable (_ = _))

/-- A text shows whether a token ends in front of it: it starts no line, and it is more than a quote behind a
literal and more than a point behind a point. -/
def ShownBy (t : Token) (s : Text) : Prop :=
  ∃ a more, s = a :: more ∧ a ≠ .scalar '\n' ∧ a ≠ .scalar '\r' ∧
    (more = [] → (a = .scalar '\'' → t.kind ≠ .literal) ∧ (a = .scalar '.' → t.text ≠ [.scalar '.']))

/-- Most glyphs show it alone. -/
theorem shownBy_cons (t : Token) {a : Glyph} (more : Text) (hline : a ≠ .scalar '\n') (hreturn : a ≠ .scalar '\r')
    (hquote : a ≠ .scalar '\'') (hpoint : a ≠ .scalar '.') : t.ShownBy (a :: more) :=
  ⟨a, more, rfl, hline, hreturn, fun _ => ⟨fun h => absurd h hquote, fun h => absurd h hpoint⟩⟩

/-- What shows the end of a token does so whatever comes behind. -/
theorem endsBefore_append_iff {t : Token} (ht : t.text ≠ []) (hcomment : t.kind ≠ .comment) {s : Text}
    (hs : t.ShownBy s) (rest : Text) : t.EndsBefore (s ++ rest) ↔ t.EndsBefore s := by
  obtain ⟨a, more, rfl, -, -, halone⟩ := hs
  have hsecond : more.head? = (more ++ rest).head? ∨
      (a = .scalar '\'' → t.kind ≠ .literal) ∧ (a = .scalar '.' → t.text ≠ [.scalar '.']) := by
    cases more with
    | nil => exact Or.inr (halone rfl)
    | cons b more => exact Or.inl rfl
  constructor
  · exact Lexeme.leading_of_head ht hcomment (hsecond.imp_left Eq.symm)
  · exact Lexeme.leading_of_head ht hcomment hsecond

end Token

/-- Each token of a type ends before what is written next to it, and the last one before `s`. -/
def Separate (s : Text) : List Token → Prop
  | [] => True
  | [t] => t.EndsBefore s
  | t :: u :: ts => t.EndsBefore (if spaced t u then [.scalar ' '] else u.text) ∧ Separate s (u :: ts)

instance (s : Text) : (ts : List Token) → Decidable (Separate s ts)
  | [] => .isTrue trivial
  | [t] => inferInstanceAs (Decidable (t.EndsBefore s))
  | _ :: u :: ts =>
    have := instDecidableSeparate s (u :: ts)
    inferInstanceAs (Decidable (_ ∧ _))

section

variable {source : Text} {t u : Token}

theorem text_eq_of_punct (ht : t ∈ tokens source) {p : Punct} (h : t.kind = .punct p) : t.text = p.text := by
  obtain ⟨lineStart, _, rest, -, -, -, hlead⟩ := exists_leads_of_mem_tokens ht
  obtain ⟨g, more, htext, -, -, -, hl⟩ := hlead
  rw [h] at hl
  exact Lexeme.text_of_leading_punct hl

theorem text_eq_of_keyword (ht : t ∈ tokens source) {k : Keyword} (h : t.kind = .keyword k) : t.text = k.text := by
  obtain ⟨_, _, _, -, -, -, hlead⟩ := exists_leads_of_mem_tokens ht
  rw [h] at hlead
  exact (Piece.leads_keyword hlead).1

/-- The punctuators that stand close behind another token of a type. -/
def Punct.closeBehind : List Punct :=
  [.scope, .less, .greater, .comma, .star, .amp, .ampAmp, .rparen, .rbracket, .lparen, .lbracket, .ellipsis]

/-- The punctuators that stand close in front of another token of a type. -/
def Punct.closeBefore : List Punct := [.scope, .less, .lparen, .lbracket, .tilde]

/-- Of two tokens that are written side by side in a type one is a bracket or another sign that stands close. -/
theorem close_of_not_spaced (ht : t ∈ tokens source) (hu : u ∈ tokens source) (h : spaced t u = false) :
    (∃ q ∈ Punct.closeBehind, u.text = q.text) ∨
      ∃ p ∈ Punct.closeBefore, t.kind = .punct p ∧ t.text = p.text := by
  simp only [spaced, Bool.and_eq_false_iff, Bool.not_eq_false'] at h
  rcases h with h | h
  · obtain ⟨q, hq, hkind⟩ := Token.exists_of_isOneOf h
    exact Or.inl ⟨q, hq, text_eq_of_punct hu (by simpa [Token.isPunct] using hkind)⟩
  · obtain ⟨p, hp, hkind⟩ := Token.exists_of_isOneOf h
    have hkind : t.kind = .punct p := by simpa [Token.isPunct] using hkind
    exact Or.inr ⟨p, hp, hkind, text_eq_of_punct ht hkind⟩

/-- Tokens that are written side by side in a type show where the first one ends. -/
theorem shownBy_text (ht : t ∈ tokens source) (hu : u ∈ tokens source) (h : spaced t u = false) :
    t.ShownBy u.text := by
  obtain ⟨_, _, _, -, -, -, g, more, htext, hline, hspacing, -, -⟩ := exists_leads_of_mem_tokens hu
  have hreturn : g ≠ .scalar '\r' := by
    rintro rfl
    exact absurd hspacing (by decide)
  refine ⟨g, more, htext, hline, hreturn, fun hmore => ?_⟩
  subst hmore
  rcases close_of_not_spaced ht hu h with ⟨q, hq, hu⟩ | ⟨p, hp, hkind, ht⟩
  · rw [htext] at hu
    have hno : ∀ q ∈ Punct.closeBehind, q.text ≠ [.scalar '\''] ∧ q.text ≠ [.scalar '.'] := by decide
    constructor
    · rintro rfl
      exact absurd hu.symm (hno q hq).1
    · rintro rfl
      exact absurd hu.symm (hno q hq).2
  · refine ⟨fun _ hliteral => absurd (hkind.symm.trans hliteral) (by simp), fun _ hpoint => ?_⟩
    obtain rfl := Punct.text_injective (q := .dot) (ht.symm.trans hpoint)
    exact absurd hp (by decide)

theorem kind_of_mem_code (ht : t ∈ Token.code (tokens source)) : t.kind ≠ .comment ∧ t.kind ≠ .directive := by
  have hcode := (List.mem_filter.mp ht).2
  constructor <;>
  · intro hkind
    simp [Token.isCode, Token.isComment, Token.isDirective, hkind] at hcode

/-- A token of the code opens a comment only with what stands behind it, and only if it is a `/`. -/
theorem slash_of_comment (ht : t ∈ Token.code (tokens source)) {rest : Text}
    (h : (Lexeme.leading false (t.text ++ rest)).1 = .comment) :
    t.text = Punct.slash.text ∧ (rest.head? = some (.scalar '/') ∨ rest.head? = some (.scalar '*')) := by
  obtain ⟨hmem, hcode⟩ := List.mem_filter.mp ht
  obtain ⟨lineStart, _, behind, -, -, -, g, inner, htext, -, -, -, hl⟩ := exists_leads_of_mem_tokens hmem
  have hcomment := (kind_of_mem_code ht).1
  rw [htext, List.cons_append] at h hl
  rcases Lexeme.comment_cases g (inner ++ rest) with ⟨more, rfl, hmore⟩ | ⟨more, rfl, hmore⟩ | hplain
  · cases inner with
    | nil => exact ⟨htext, Or.inl (by rw [← List.nil_append rest, hmore]; rfl)⟩
    | cons a inner =>
      obtain ⟨rfl, -⟩ := List.cons.inj hmore
      rw [List.cons_append, Lexeme.leading_lineComment] at hl
      exact absurd (Prod.mk.inj hl).1.symm hcomment
  · cases inner with
    | nil => exact ⟨htext, Or.inr (by rw [← List.nil_append rest, hmore]; rfl)⟩
    | cons a inner =>
      obtain ⟨rfl, -⟩ := List.cons.inj hmore
      rw [List.cons_append, Lexeme.leading_blockComment] at hl
      exact absurd (Prod.mk.inj hl).1.symm hcomment
  · exact absurd h (Lexeme.kind_leading_of_opensNoComment hplain).1

/-- In front of most glyphs a token of the code opens no comment. -/
theorem kind_ne_comment_of_head (ht : t ∈ Token.code (tokens source)) {s rest : Text} (hs : t.ShownBy s)
    (hopens : s.head? ≠ some (.scalar '/') ∧ s.head? ≠ some (.scalar '*')) :
    (Lexeme.leading false (t.text ++ (s ++ rest))).1 ≠ .comment := by
  obtain ⟨a, more, rfl, -⟩ := hs
  exact fun h => (slash_of_comment ht h).2.elim hopens.1 hopens.2

/-! ## Reading what is written -/

/-- The kinds of tokens that are looked at: those of the code at least. -/
def KeepsCode (keep : TokenKind → Bool) : Prop :=
  ∀ kind, kind ≠ .comment → kind ≠ .directive → keep kind = true

/-- The lexemes of the kinds that are looked at. -/
def Piece.lexemesOf (keep : TokenKind → Bool) (ps : List Piece) : List (TokenKind × Text) :=
  (lexemes ps).filter fun r => keep r.1

theorem Piece.lexemesOf_cons {keep : TokenKind → Bool} {kind : TokenKind} (h : keep kind = true) (s : Text)
    (ps : List Piece) : lexemesOf keep (.lexeme kind s :: ps) = (kind, s) :: lexemesOf keep ps :=
  List.filter_cons_of_pos h

theorem Piece.lexemesOf_append (keep : TokenKind → Bool) (ps qs : List Piece) :
    lexemesOf keep (ps ++ qs) = lexemesOf keep ps ++ lexemesOf keep qs := by
  rw [lexemesOf, lexemes_append, List.filter_append]
  rfl

theorem Piece.map_reading_filter (keep : TokenKind → Bool) (p : Place) (ps : List Piece) :
    ((place p ps).filter fun t => keep t.kind).map Token.reading = lexemesOf keep ps := by
  rw [lexemesOf, ← map_place p ps, List.filter_map]
  rfl

variable {keep : TokenKind → Bool}

/-- A token of the code that is written anew is read as it was exactly when it ends before what stands behind
it. A comment that it opens has to be looked at, too. -/
theorem lexemesOf_token_iff (hkeep : KeepsCode keep) (ht : t ∈ Token.code (tokens source)) {s rest : Text}
    (hs : t.ShownBy s)
    (hcomment : keep .comment = true ∨ (Lexeme.leading false (t.text ++ (s ++ rest))).1 ≠ .comment)
    {L : List (TokenKind × Text)} :
    Piece.lexemesOf keep (Piece.ofText false (t.text ++ (s ++ rest))) = t.reading :: L ↔
      t.EndsBefore s ∧ Piece.lexemesOf keep (Piece.ofText false (s ++ rest)) = L := by
  obtain ⟨_, _, behind, -, -, -, hlead⟩ := exists_leads_of_mem_tokens (List.mem_filter.mp ht).1
  obtain ⟨g, more, htext, hline, hspacing, hsplice, -⟩ := hlead
  obtain ⟨hcode, hdirective⟩ := kind_of_mem_code ht
  have hne : t.text ≠ [] := by simp [htext]
  have hsplice' : Lexeme.spliceLength (t.text ++ (s ++ rest)) = 0 := by
    obtain ⟨a, inner, rfl, ha, ha', -⟩ := hs
    exact Lexeme.spliceLength_of_head hne hsplice ha ha'
  -- it stands in front just if it ends there, since what begins it has not changed
  have hleads : Piece.Leads false (.lexeme t.kind t.text) (s ++ rest) ↔ t.EndsBefore s := by
    rw [← Token.endsBefore_append_iff hne hcode hs rest]
    exact ⟨fun ⟨_, _, _, _, _, _, h⟩ => h, fun h => ⟨g, more, htext, hline, hspacing, hsplice', h⟩⟩
  have hstart : Piece.lineStartPast false (.lexeme t.kind t.text) = false := by
    show Piece.lineStartAfter false t.kind t.text = false
    cases hkind : t.kind <;> first | rfl | exact absurd hkind hcode
  constructor
  · -- the first piece is a lexeme, which is kept, so it is the token
    intro h
    obtain ⟨kind, r, ps, hps, hkind⟩ : ∃ kind r ps,
        Piece.ofText false (t.text ++ (s ++ rest)) = .lexeme kind r :: ps ∧
          (Lexeme.leading false (t.text ++ (s ++ rest))).1 = kind := by
      rw [htext] at hsplice' ⊢
      exact Piece.exists_lexeme false hline hspacing hsplice'
    have hkept : keep kind = true := by
      by_cases hc : kind = .comment
      · rw [hkind] at hcomment
        rw [hc]
        exact hcomment.resolve_right fun hnot => hnot hc
      · exact hkeep kind hc fun hd => Lexeme.kind_leading_ne_directive _ (hkind.trans hd)
    rw [hps, Piece.lexemesOf_cons hkept] at h
    obtain ⟨hreading, hL⟩ := List.cons.inj h
    obtain ⟨rfl, rfl⟩ := Prod.mk.inj hreading
    obtain ⟨hjoin, hlead, hrest⟩ := Piece.ofText_eq_cons_iff.mp hps
    have hjoin : s ++ rest = Piece.join ps := List.append_cancel_left hjoin
    rw [← hjoin] at hlead hrest
    rw [hstart] at hrest
    refine ⟨hleads.mp hlead, ?_⟩
    rw [hrest]
    exact hL
  · -- the other way round, the token is the first piece and ends no line
    rintro ⟨hends, rfl⟩
    have := Piece.ofText_of_leads (hleads.mpr hends)
    rw [hstart] at this
    change Piece.ofText false (t.text ++ (s ++ rest)) = _ at this
    rw [this, Piece.lexemesOf_cons (hkeep _ hcode hdirective)]
    rfl

theorem joinedText_cons (t : Token) (ts : List Token) : ∃ more, joinedText (t :: ts) = t.text ++ more := by
  cases ts with
  | nil => exact ⟨[], (List.append_nil _).symm⟩
  | cons u ts => exact ⟨_, rfl⟩

theorem lexemesOf_space (keep : TokenKind → Bool) (rest : Text) :
    Piece.lexemesOf keep (Piece.ofText false ([.scalar ' '] ++ rest)) =
      Piece.lexemesOf keep (Piece.ofText false rest) := by
  rw [List.singleton_append, Piece.ofText_spacing (by decide) (by decide)]
  rfl

/-- In no place among some tokens a `/` stands right in front of a `*`. -/
def NoSlashStar (ts : List Token) : Prop :=
  ts.IsChain fun t u => ¬(t.text = Punct.slash.text ∧ u.text = Punct.star.text)

/-- Side by side, two tokens of a type open a comment only if they are a `/` and a `*`. -/
theorem star_of_comment (ht : t ∈ Token.code (tokens source)) (hu : u ∈ Token.code (tokens source))
    (h : spaced t u = false) {rest : Text}
    (hcomment : (Lexeme.leading false (t.text ++ (u.text ++ rest))).1 = .comment) :
    t.text = Punct.slash.text ∧ u.text = Punct.star.text := by
  obtain ⟨hslash, hhead⟩ := slash_of_comment ht hcomment
  refine ⟨hslash, ?_⟩
  rcases close_of_not_spaced (List.mem_filter.mp ht).1 (List.mem_filter.mp hu).1 h with
    ⟨q, hq, htext⟩ | ⟨p, hp, -, htext⟩
  · rw [htext, List.head?_append_of_ne_nil _ (List.length_pos_iff.mp (Lexeme.text_length_pos q))] at hhead
    rw [htext]
    have hno : ∀ q ∈ Punct.closeBehind, q ≠ .star →
        q.text.head? ≠ some (.scalar '/') ∧ q.text.head? ≠ some (.scalar '*') := by decide
    by_contra hstar
    exact hhead.elim (hno q hq fun h => hstar (by rw [h])).1 (hno q hq fun h => hstar (by rw [h])).2
  · obtain rfl := Punct.text_injective (htext.symm.trans hslash)
    exact absurd hp (by decide)

/-- The normalised text of a type is cut into its tokens exactly when each of them ends before what is written
next to it. -/
theorem lexemesOf_joinedText_iff (hkeep : KeepsCode keep) {ts : List Token}
    (hts : ∀ t ∈ ts, t ∈ Token.code (tokens source)) (hcomment : keep .comment = true ∨ NoSlashStar ts)
    {s rest : Text} (hs : ∀ t : Token, t.ShownBy s)
    (hopens : s.head? ≠ some (.scalar '/') ∧ s.head? ≠ some (.scalar '*')) {L : List (TokenKind × Text)} :
    Piece.lexemesOf keep (Piece.ofText false (joinedText ts ++ (s ++ rest))) = ts.map Token.reading ++ L ↔
      Separate s ts ∧ Piece.lexemesOf keep (Piece.ofText false (s ++ rest)) = L := by
  induction ts with
  | nil => simp [joinedText, Separate]
  | cons t ts ih =>
    have ht := hts t List.mem_cons_self
    cases ts with
    | nil => exact lexemesOf_token_iff hkeep ht (hs t) (Or.inr (kind_ne_comment_of_head ht (hs t) hopens))
    | cons u ts =>
      have hu := hts u (List.mem_cons_of_mem t List.mem_cons_self)
      have hchain := hcomment.imp_right List.isChain_cons_cons.mp
      have hrest : _ ↔ _ := ih (fun v hv => hts v (List.mem_cons_of_mem t hv)) (hchain.imp_right And.right)
      rw [Separate, and_assoc, ← hrest, joinedText]
      by_cases hspaced : spaced t u = true
      · have hblank : t.ShownBy [.scalar ' '] :=
          t.shownBy_cons [] (by decide) (by decide) (by decide) (by decide)
        rw [if_pos hspaced, if_pos hspaced, ← lexemesOf_space keep (joinedText (u :: ts) ++ _),
          ← lexemesOf_token_iff hkeep ht hblank (Or.inr (kind_ne_comment_of_head ht hblank (by decide)))]
        simp only [List.append_assoc, List.nil_append, List.cons_append, List.map_cons]
      · have hclose : spaced t u = false := by simpa using hspaced
        have hnext := shownBy_text (List.mem_filter.mp ht).1 (List.mem_filter.mp hu).1 hclose
        obtain ⟨more, hmore⟩ := joinedText_cons u ts
        rw [if_neg hspaced, if_neg hspaced, hmore, List.append_assoc u.text,
          ← lexemesOf_token_iff hkeep ht hnext (hchain.imp_right fun h hc => h.1 (star_of_comment ht hu hclose hc))]
        simp only [List.append_assoc, List.cons_append, List.map_cons]

end

end HouseStyle
