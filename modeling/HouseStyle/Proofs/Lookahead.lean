import HouseStyle.Proofs.Cutting

/-!
# A token does not depend on what stands behind it

Every token is recognised by looking ahead, and how far depends on its shape: one glyph for a word,
two for a number, the whole rest of the text for a block comment. None of this looks into a word that
stands behind the token, or past a round bracket:

> `leading_before_term`: if the token at the front of `p ++ u` ends within `p`, and each of `u` and `v`
> starts with a word or with an opening bracket, then the same token stands at the front of `p ++ v`.

Words and numbers end there only because of what stands behind them. They have to end before `p` does,
unless `u` starts with a word and so shows that they end.

There is one shape for which the end of `p` matters besides. A quote goes on with a number only if a
letter or a digit follows, so whether it does depends on the word if `p` is the number and then a single
quote. Such a `p` does not arise: a quote is never a token of its own in front of a word or a bracket. The
lemmas on numbers carry this as the hypothesis `QuoteFree`.

The lemmas before the main one say the same of each function that measures a shape, in the same
form: a length within `p` for `u` is the length for `v`. What ends with a mark of its own does not depend
on `v` at all, and quoted literals only need to know whether a line feed stands there (`SameBreak`).
-/

namespace HouseStyle.Lexeme

/-- A glyph that starts a word: a letter or an underscore. -/
def opensWord (g : Glyph) : Bool := startsWord g && !isDigit g && g != .scalar '$'

/-- The text starts with a word. -/
def StartsWord (t : Text) : Prop := ∃ g more, t = g :: more ∧ opensWord g = true

/-- A glyph that starts a word, or an opening round bracket. -/
def opensTerm (g : Glyph) : Bool := opensWord g || g == .scalar '('

/-- The text starts with a word or with an opening round bracket. -/
def StartsTerm (t : Text) : Prop := ∃ g more, t = g :: more ∧ opensTerm g = true

/-- Two texts that both start with a line feed, or neither of which does, and neither is empty. -/
def SameBreak (u v : Text) : Prop :=
  ∃ a b us vs, u = a :: us ∧ v = b :: vs ∧ (a = .scalar '\n' ↔ b = .scalar '\n')

/-! ## The glyph that starts a word or a term -/

/-- A glyph that starts a word is none of those that may not. -/
theorem ne_of_opensWord {g : Glyph} (h : opensWord g = true) {c : Char}
    (hc : opensWord (.scalar c) = false) : g ≠ .scalar c := by
  rintro rfl
  rw [hc] at h
  exact absurd h (by decide)

/-- Nor is a glyph that starts a term. -/
theorem ne_of_opensTerm {g : Glyph} (h : opensTerm g = true) {c : Char}
    (hc : opensTerm (.scalar c) = false) : g ≠ .scalar c := by
  rintro rfl
  rw [hc] at h
  exact absurd h (by decide)

theorem StartsWord.term {t : Text} (h : StartsWord t) : StartsTerm t := by
  obtain ⟨g, more, rfl, hg⟩ := h
  exact ⟨g, more, rfl, by rw [opensTerm, hg, Bool.true_or]⟩

theorem StartsTerm.ne_nil {t : Text} (h : StartsTerm t) : t ≠ [] := by
  obtain ⟨g, more, rfl, -⟩ := h
  exact List.cons_ne_nil g more

/-- No term starts with a line feed. -/
theorem StartsTerm.sameBreak {u v : Text} (hu : StartsTerm u) (hv : StartsTerm v) : SameBreak u v := by
  obtain ⟨a, us, rfl, ha⟩ := hu
  obtain ⟨b, vs, rfl, hb⟩ := hv
  exact ⟨a, b, us, vs, rfl, rfl, iff_of_false (ne_of_opensTerm ha (by decide)) (ne_of_opensTerm hb (by decide))⟩

theorem continuesWord_of_opensWord {g : Glyph} (h : opensWord g = true) : continuesWord g = true := by
  simp only [opensWord, Bool.and_eq_true] at h
  exact continuesWord_of_startsWord h.1.1

theorem isDigit_of_opensWord {g : Glyph} (h : opensWord g = true) : isDigit g = false := by
  simp only [opensWord, Bool.and_eq_true, Bool.not_eq_true'] at h
  exact h.1.2

/-- A glyph that starts a word goes on with a number. -/
theorem extendsNumber_of_opensWord {g : Glyph} (h : opensWord g = true) :
    (isAlphanumeric g || g == .scalar '.' || g == .scalar '_') = true := by
  have hc := continuesWord_of_opensWord h
  have hd := ne_of_opensWord h (c := '$') (by decide)
  cases g with
  | raw b => simp [continuesWord, Glyph.satisfies] at hc
  | scalar c =>
    simp only [continuesWord, isAlphanumeric, Glyph.satisfies, Bool.or_eq_true, beq_iff_eq, ne_eq,
      Glyph.scalar.injEq] at hc hd ⊢
    rcases hc with (rfl | rfl) | hc
    · exact Or.inr rfl
    · exact absurd rfl hd
    · exact Or.inl (Or.inl hc)

/-! ## Splices, marks and numbers -/

theorem spliceLength_append_term {p u v : Text} (hp : p ≠ []) (hu : StartsTerm u)
    (hv : StartsTerm v) : spliceLength (p ++ v) = spliceLength (p ++ u) := by
  obtain ⟨a, us, rfl, ha⟩ := hu
  obtain ⟨b, vs, rfl, hb⟩ := hv
  have han := ne_of_opensTerm ha (c := '\n') (by decide)
  have har := ne_of_opensTerm ha (c := '\r') (by decide)
  have hbn := ne_of_opensTerm hb (c := '\n') (by decide)
  have hbr := ne_of_opensTerm hb (c := '\r') (by decide)
  match p, hp with
  | [g], _ => simp only [List.cons_append, List.nil_append, spliceLength]; grind
  | [g, h], _ => simp only [List.cons_append, List.nil_append, spliceLength]; grind
  | g :: h :: i :: p, _ => simp only [List.cons_append, spliceLength]; grind

theorem length_le_lengthThrough {mark t : Text} {n : Nat} (h : lengthThrough? mark t = some n) :
    mark.length ≤ n := by
  induction t generalizing n with
  | nil =>
    unfold lengthThrough? at h
    split at h
    next he => simp only [List.isEmpty_iff] at he; simp [he]
    next => exact absurd h (by simp)
  | cons g t ih =>
    unfold lengthThrough? at h
    split at h
    next => simp only [Option.some.injEq] at h; omega
    next =>
      obtain ⟨m, hm, rfl⟩ := Option.map_eq_some_iff.mp h
      exact Nat.le_succ_of_le (ih hm)

theorem isPrefixOf_append_iff {mark p u : Text} (h : mark.length ≤ p.length) :
    mark.isPrefixOf (p ++ u) = true ↔ mark.isPrefixOf p = true := by
  rw [List.isPrefixOf_iff_prefix, List.isPrefixOf_iff_prefix]
  exact ⟨fun hp => List.prefix_of_prefix_length_le hp (List.prefix_append p u) h,
    fun hp => hp.trans (List.prefix_append p u)⟩

/-- A mark is found where it first stands, if its last glyph is nowhere else in it. -/
theorem lengthThrough_mark {front : Text} {last : Glyph} (hlast : last ∉ front) {body : Text}
    (hbody : ¬ front ++ [last] <:+: body) (rest : Text) :
    lengthThrough? (front ++ [last]) (body ++ ((front ++ [last]) ++ rest)) =
      some (body.length + (front ++ [last]).length) := by
  induction body with
  | nil =>
    have hhere : (front ++ [last]).isPrefixOf ((front ++ [last]) ++ rest) = true :=
      List.isPrefixOf_iff_prefix.mpr (List.prefix_append _ _)
    obtain ⟨g, more, hmark⟩ : ∃ g more, front ++ [last] = g :: more := List.exists_cons_of_ne_nil (by simp)
    rw [hmark, List.cons_append] at hhere ⊢
    rw [List.nil_append, lengthThrough?, if_pos hhere, List.length_nil, Nat.zero_add]
  | cons g body ih =>
    have hnot : ¬ (front ++ [last]).isPrefixOf (g :: (body ++ ((front ++ [last]) ++ rest))) = true := by
      intro hprefix
      by_cases hlen : (front ++ [last]).length ≤ (g :: body).length
      · -- the mark would stand in the body
        rw [← List.cons_append, isPrefixOf_append_iff hlen] at hprefix
        exact hbody (List.isPrefixOf_iff_prefix.mp hprefix).isInfix
      · -- the rest of the mark would stand in front of the last glyph of the one behind the body
        rw [List.length_append, List.length_singleton] at hlen
        have hprefix := List.isPrefixOf_iff_prefix.mp hprefix
        rw [← List.cons_append] at hprefix
        obtain ⟨m, rfl⟩ : g :: body <+: front := List.prefix_of_prefix_length_le (List.prefix_append _ _)
          ((List.prefix_append front [last]).trans hprefix) (by omega)
        have hbehind : m ++ [last] <+: (g :: body ++ m) ++ ([last] ++ rest) := by
          rw [List.append_assoc, List.prefix_append_right_inj] at hprefix
          simpa only [List.append_assoc] using hprefix
        have hinside : m ++ [last] <+: g :: body ++ m :=
          List.prefix_of_prefix_length_le hbehind (List.prefix_append _ _) (by simp)
        exact hlast (hinside.subset (by simp))
    rw [List.cons_append, lengthThrough?, if_neg hnot,
      ih fun hinside => hbody (hinside.trans (List.suffix_cons g body).isInfix), Option.map_some, List.length_cons]
    congr 1
    omega

/-- A mark that ends within `p` is found there whatever follows. -/
theorem lengthThrough_append {mark p u v : Text} {n : Nat} (hm : mark ≠ [])
    (h : lengthThrough? mark (p ++ u) = some n) (hn : n ≤ p.length) :
    lengthThrough? mark (p ++ v) = some n := by
  induction p generalizing n with
  | nil =>
    have := length_le_lengthThrough h
    have := List.length_pos_iff.mpr hm
    simp only [List.length_nil] at hn
    omega
  | cons g p ih =>
    have hlen : mark.length ≤ (g :: p).length := Nat.le_trans (length_le_lengthThrough h) hn
    rw [List.cons_append, lengthThrough?] at h ⊢
    rw [← List.cons_append] at h ⊢
    by_cases hp : mark.isPrefixOf (g :: p) = true
    · rw [if_pos ((isPrefixOf_append_iff hlen).mpr hp)] at h ⊢
      exact h
    · rw [if_neg (fun hc => hp ((isPrefixOf_append_iff hlen).mp hc))] at h ⊢
      obtain ⟨m, hm', rfl⟩ := Option.map_eq_some_iff.mp h
      rw [ih hm' (by simp only [List.length_cons] at hn; omega)]
      rfl

theorem blockCommentTail_before {p u v : Text} (hu : u ≠ [])
    (hn : blockCommentTail (p ++ u) ≤ p.length) :
    blockCommentTail (p ++ v) = blockCommentTail (p ++ u) := by
  obtain ⟨a, us, rfl⟩ := List.exists_cons_of_ne_nil hu
  unfold blockCommentTail at hn ⊢
  cases h : lengthThrough? (Text.ofString "*/") (p ++ a :: us) with
  | none =>
    rw [h] at hn
    simp only [Option.getD_none, List.length_append, List.length_cons] at hn
    omega
  | some n =>
    rw [h] at hn
    rw [lengthThrough_append (by decide) h hn]
    rfl

theorem numberTail_word_pos (last : Glyph) {u : Text} (hu : StartsWord u) : 0 < numberTail last u := by
  obtain ⟨a, us, rfl, ha⟩ := hu
  rw [numberTail, if_pos (extendsNumber_of_opensWord ha)]
  omega

/-- What is left of `p` behind its first `n` glyphs is not a single quote. -/
def QuoteFree (p : Text) (n : Nat) : Prop := p.drop n ≠ [.scalar '\'']

/-- A number does not end right in front of a word. -/
theorem numberTail_ne_before_word (last : Glyph) (p : Text) {u : Text} (hu : StartsWord u) :
    numberTail last (p ++ u) ≠ p.length := by
  induction p generalizing last with
  | nil => exact Nat.ne_of_gt (numberTail_word_pos last hu)
  | cons g p ih =>
    have := ih g
    simp only [List.cons_append, numberTail, List.length_cons]
    split
    · omega
    split
    · omega
    split <;> omega

theorem numberTail_before {last : Glyph} {p u v : Text} (hn : numberTail last (p ++ u) < p.length)
    (hq : QuoteFree p (numberTail last (p ++ u))) :
    numberTail last (p ++ v) = numberTail last (p ++ u) := by
  induction p generalizing last with
  | nil => exact absurd hn (Nat.not_lt_zero _)
  | cons g p ih =>
    -- the glyph `g` belongs to the number in both texts or in neither
    have step : ∀ last', 1 + numberTail last' (p ++ u) < (g :: p).length →
        QuoteFree (g :: p) (1 + numberTail last' (p ++ u)) →
        1 + numberTail last' (p ++ v) = 1 + numberTail last' (p ++ u) := by
      intro last' hlt hfree
      rw [QuoteFree, Nat.add_comm, List.drop_succ_cons] at hfree
      rw [ih (by simp only [List.length_cons] at hlt; omega) hfree]
    simp only [List.cons_append, numberTail] at hn hq ⊢
    by_cases h₁ : (isAlphanumeric g || g == .scalar '.' || g == .scalar '_') = true
    · simp only [if_pos h₁] at hn hq ⊢
      exact step g hn hq
    simp only [if_neg h₁] at hn hq ⊢
    cases p with
    | cons h p =>
      simp only [List.cons_append, List.head?_cons] at hn hq step ⊢
      split at hn
      next h₂ => simp only [if_pos h₂] at hq ⊢; exact step g hn hq
      next h₂ =>
        simp only [if_neg h₂] at hq ⊢
        split at hn
        next h₃ => simp only [if_pos h₃] at hq ⊢; exact step g hn hq
        next h₃ => simp only [if_neg h₃]
    | nil =>
      simp only [List.nil_append, List.length_singleton] at hn hq ⊢
      split at hn
      next => omega
      next h₂ =>
        simp only [if_neg h₂] at hq
        split at hn
        next => omega
        next h₃ =>
          simp only [if_neg h₃, QuoteFree, List.drop_zero] at hq
          have hne : (g == Glyph.scalar '\'') = false := by
            simp only [beq_eq_false_iff_ne, ne_eq]
            rintro rfl
            exact hq rfl
          simp [hne, h₃]

/-! ## Quoted literals and raw strings -/

/-- A quote is none of the other glyphs. -/
theorem ne_of_isQuote {g : Glyph} (h : isQuote g = true) {c : Char} (hc : isQuote (.scalar c) = false) :
    g ≠ .scalar c := by
  rintro rfl
  rw [hc] at h
  exact absurd h (by decide)

theorem quotedTail_cons {quote g h : Glyph} {t : Text} :
    quotedTail quote (g :: h :: t) =
      if g = .scalar '\\' then 2 + quotedTail quote t
      else if g = quote then 1
      else if g = .scalar '\n' then 0
      else 1 + quotedTail quote (h :: t) := rfl

theorem quotedTail_pos (quote : Glyph) {a : Glyph} {u : Text} (ha : a ≠ .scalar '\n') :
    0 < quotedTail quote (a :: u) := by
  cases u with
  | nil => simp [quotedTail, ha]
  | cons b u =>
    rw [quotedTail_cons, if_neg ha]
    split
    · omega
    · split <;> omega

/-- A literal that a line feed ends has no length in front of it. -/
theorem quotedTail_newline_eq_zero {quote : Glyph} (hquote : quote ≠ .scalar '\n') (u : Text) :
    quotedTail quote (.scalar '\n' :: u) = 0 := by
  cases u with
  | nil => rfl
  | cons b u => rw [quotedTail_cons, if_neg (by decide), if_neg hquote.symm, if_pos rfl]

/-- Whether a literal ends at once does not depend on more than a line feed there. -/
theorem quotedTail_eq_zero_of_sameBreak {quote : Glyph} (hquote : quote ≠ .scalar '\n') {u v : Text}
    (h : SameBreak u v) (hu : quotedTail quote u = 0) : quotedTail quote v = 0 := by
  obtain ⟨a, b, us, vs, rfl, rfl, hline⟩ := h
  by_cases ha : a = .scalar '\n'
  · rw [hline.mp ha]
    exact quotedTail_newline_eq_zero hquote vs
  · have := quotedTail_pos quote (u := us) ha
    omega

theorem quotedTail_before {quote : Glyph} (hquote : quote ≠ .scalar '\n') {p u v : Text}
    (h : SameBreak u v) (hn : quotedTail quote (p ++ u) ≤ p.length) :
    quotedTail quote (p ++ v) = quotedTail quote (p ++ u) := by
  induction hl : p.length using Nat.strongRecOn generalizing p with
  | _ n ih =>
    match p with
    | [] =>
      have hu := Nat.le_zero.mp hn
      exact (quotedTail_eq_zero_of_sameBreak hquote h hu).trans hu.symm
    | [g] =>
      -- the last glyph of `p`, with which the literal may end
      have hzero := quotedTail_eq_zero_of_sameBreak hquote h
      obtain ⟨a, b, us, vs, rfl, rfl, -⟩ := h
      simp only [List.cons_append, List.nil_append, quotedTail_cons, List.length_singleton] at hn ⊢
      split
      · rw [if_pos (by assumption)] at hn; omega
      · rw [if_neg (by assumption)] at hn
        split
        · rfl
        · rw [if_neg (by assumption)] at hn
          split
          · rfl
          · rw [if_neg (by assumption)] at hn
            have hu : quotedTail quote (a :: us) = 0 := by omega
            rw [hzero hu, hu]
    | g :: h :: p =>
      -- a backslash takes the glyph behind it along, and so the induction is on the length
      subst hl
      simp only [List.cons_append, quotedTail_cons, List.length_cons] at hn ⊢
      split
      next hg =>
        rw [if_pos hg] at hn
        rw [ih p.length (by simp only [List.length_cons]; omega) (by omega) rfl]
      next hg =>
        rw [if_neg hg] at hn
        split
        next => rfl
        next hq =>
          rw [if_neg hq] at hn
          split
          next => rfl
          next hnl =>
            rw [if_neg hnl] at hn
            have := ih (h :: p).length (by simp)
              (by simp only [List.cons_append, List.length_cons]; omega) rfl
            rw [List.cons_append, List.cons_append] at this
            rw [this]

/-- Without a delimiter within `p`, a raw string has none whatever follows, but for a line feed. -/
theorem no_rawDelimiter_before {room : Nat} {p u v : Text} (h : SameBreak u v)
    (hd : rawDelimiter? room (p ++ u) = none)
    (hn : quotedTail (.scalar '"') (p ++ u) ≤ p.length) :
    rawDelimiter? room (p ++ v) = none := by
  induction room generalizing p with
  | zero => rfl
  | succ room ih =>
    cases p with
    | nil =>
      obtain ⟨a, b, us, vs, rfl, rfl, hline⟩ := h
      -- a quoted literal that ends at once stands in front of a line feed, where no delimiter ends
      have ha : a = .scalar '\n' := by
        refine Decidable.byContradiction fun ha => ?_
        exact Nat.not_le.mpr (quotedTail_pos (.scalar '"') ha) hn
      rw [List.nil_append, hline.mp ha, rawDelimiter?, if_neg (by decide), if_pos (by decide)]
    | cons g p =>
      simp only [List.cons_append, rawDelimiter?] at hd ⊢
      split at hd
      next => exact absurd hd (by simp)
      next hg =>
        rw [if_neg hg]
        split at hd
        next hstop => rw [if_pos hstop]
        next hstop =>
          rw [if_neg hstop]
          rw [Option.map_eq_none_iff] at hd ⊢
          refine ih hd ?_
          simp only [List.any_cons, List.any_nil, Bool.or_false, Bool.or_eq_true, beq_iff_eq,
            not_or] at hstop
          obtain ⟨-, -, hback, -, hline, hquote⟩ := hstop
          obtain ⟨a, us, hu'⟩ : ∃ a us, p ++ u = a :: us := by
            obtain ⟨a, _, us, _, rfl, -⟩ := h
            cases p with
            | nil => exact ⟨a, us, rfl⟩
            | cons b p => exact ⟨b, p ++ a :: us, rfl⟩
          rw [List.cons_append, hu', quotedTail_cons, if_neg hback, if_neg hquote, if_neg hline] at hn
          rw [hu']
          simp only [List.length_cons] at hn
          omega

/-- A delimiter that ends within `p` is the one whatever follows. -/
theorem rawDelimiter_before {room : Nat} {p u v delimiter body : Text}
    (hd : rawDelimiter? room (p ++ u) = some (delimiter, body)) (hlen : delimiter.length < p.length) :
    ∃ more, p = delimiter ++ .scalar '(' :: more ∧ body = more ++ u ∧
      rawDelimiter? room (p ++ v) = some (delimiter, more ++ v) := by
  induction room generalizing p delimiter with
  | zero => exact absurd hd (by simp [rawDelimiter?])
  | succ room ih =>
    cases p with
    | nil => exact absurd hlen (by simp)
    | cons g p =>
      simp only [List.cons_append, rawDelimiter?] at hd ⊢
      split at hd
      next hg =>
        simp only [Option.some.injEq, Prod.mk.injEq] at hd
        obtain ⟨rfl, rfl⟩ := hd
        exact ⟨p, by rw [hg]; rfl, rfl, by rw [if_pos hg]⟩
      next hg =>
        split at hd
        next => exact absurd hd (by simp)
        next hstop =>
          obtain ⟨⟨d, b⟩, hd', heq⟩ := Option.map_eq_some_iff.mp hd
          simp only [Prod.mk.injEq] at heq
          obtain ⟨rfl, rfl⟩ := heq
          obtain ⟨more, hp, hb, hv⟩ := ih hd' (by simp only [List.length_cons] at hlen; omega)
          refine ⟨more, by rw [hp]; rfl, hb, ?_⟩
          rw [if_neg hg, if_neg hstop, hv]
          rfl

theorem rawStringTail_before {p u v : Text} (h : SameBreak u v)
    (hn : rawStringTail (p ++ u) ≤ p.length) : rawStringTail (p ++ v) = rawStringTail (p ++ u) := by
  unfold rawStringTail at hn ⊢
  cases hd : rawDelimiter? (maxDelimiter + 1) (p ++ u) with
  | none =>
    rw [hd] at hn
    rw [no_rawDelimiter_before h hd hn]
    exact quotedTail_before (by decide) h hn
  | some found =>
    obtain ⟨delimiter, body⟩ := found
    rw [hd] at hn
    dsimp only at hn
    cases hl : lengthThrough? (.scalar ')' :: delimiter ++ [.scalar '"']) body with
    | none =>
      obtain ⟨a, _, us, _, rfl, -⟩ := h
      rw [hl] at hn
      simp only [List.length_append, List.length_cons] at hn
      omega
    | some n =>
      rw [hl] at hn
      dsimp only at hn
      obtain ⟨more, hp, rfl, hv'⟩ := rawDelimiter_before (v := v) hd (by omega)
      rw [hv']
      dsimp only
      have hmore : n ≤ more.length := by
        have := congrArg List.length hp
        simp only [List.length_append, List.length_cons] at this
        omega
      rw [lengthThrough_append (by simp) hl hmore, hl]

/-! ## Line comments and directives -/

/-- Glyphs taken off the end of a text stop at one that is not to be taken. -/
theorem length_lt_of_trimmed (drop : Glyph → Bool) (p : Text) {g : Glyph} (t : Text)
    (hg : drop g = false) :
    p.length < (((p ++ g :: t).reverse).dropWhile drop).length := by
  have hrev : (p ++ g :: t).reverse = t.reverse ++ g :: p.reverse := by simp
  rw [hrev, List.dropWhile_append]
  split
  · rw [List.dropWhile_cons, hg]
    simp
  · simp only [List.length_append, List.length_cons, List.length_reverse]
    omega

theorem lineCommentTail_before {p u v : Text} (hu : StartsTerm u)
    (hn : lineCommentTail (p ++ u) ≤ p.length) :
    lineCommentTail (p ++ v) = lineCommentTail (p ++ u) := by
  obtain ⟨a, us, rfl, ha⟩ := hu
  have hline := ne_of_opensTerm ha (c := '\n') (by decide)
  have hret := ne_of_opensTerm ha (c := '\r') (by decide)
  unfold lineCommentTail at hn ⊢
  by_cases hp : (p.takeWhile (· != Glyph.scalar '\n')).length = p.length
  · -- the comment would run on into the term
    rw [List.takeWhile_append, if_pos hp, List.takeWhile_cons, if_pos (by simpa using hline)] at hn
    have := length_lt_of_trimmed (· == Glyph.scalar '\r') p (us.takeWhile (· != .scalar '\n'))
      (g := a) (by simpa using hret)
    omega
  · rw [List.takeWhile_append, if_neg hp, List.takeWhile_append, if_neg hp]

theorem directiveExtent_newline (behind rest : Text) :
    directiveExtent behind (.scalar '\n' :: rest) =
      if splices behind then 1 + directiveExtent (.scalar '\n' :: behind) rest else 0 := by
  rw [directiveExtent, if_pos rfl] <;> simp

theorem directiveExtent_lineComment (behind rest : Text) :
    directiveExtent behind (.scalar '/' :: .scalar '/' :: rest) = 0 := by
  rw [directiveExtent, if_neg (by decide)]

theorem directiveExtent_blockComment (behind rest : Text) :
    directiveExtent behind (.scalar '/' :: .scalar '*' :: rest) =
      2 + blockCommentTail rest +
        directiveExtent ((rest.take (blockCommentTail rest)).reverse ++ .scalar '*' :: .scalar '/' :: behind)
          (rest.drop (blockCommentTail rest)) := by
  rw [directiveExtent, if_neg (by decide)]

/-- A glyph that opens no comment, before a given text. -/
def OpensNoComment (g : Glyph) (rest : Text) : Prop :=
  g = .scalar '/' → ∀ h more, rest = h :: more → h ≠ .scalar '/' ∧ h ≠ .scalar '*'

/-- A glyph opens a comment of either sort, or none. -/
theorem comment_cases (g : Glyph) (rest : Text) :
    (∃ more, g = .scalar '/' ∧ rest = .scalar '/' :: more) ∨
      (∃ more, g = .scalar '/' ∧ rest = .scalar '*' :: more) ∨ OpensNoComment g rest := by
  by_cases hs : g = .scalar '/'
  · match rest with
    | [] => exact Or.inr (Or.inr fun _ h more hk => absurd hk (by simp))
    | h :: more =>
      by_cases h₁ : h = .scalar '/'
      · exact Or.inl ⟨more, hs, by rw [h₁]⟩
      by_cases h₂ : h = .scalar '*'
      · exact Or.inr (Or.inl ⟨more, hs, by rw [h₂]⟩)
      refine Or.inr (Or.inr fun _ k ks hk => ?_)
      obtain ⟨rfl, -⟩ := List.cons.inj hk
      exact ⟨h₁, h₂⟩
  · exact Or.inr (Or.inr fun h => absurd h hs)

/-- A comment mark in front of a term lies before the term, which starts with neither of its glyphs. -/
theorem exists_cons_before_term {p u : Text} {c : Glyph} {rest : Text} (hu : StartsTerm u)
    (hc : opensTerm c = false) (h : p ++ u = c :: rest) : ∃ more, p = c :: more := by
  cases p with
  | nil =>
    obtain ⟨a, us, rfl, ha⟩ := hu
    obtain ⟨rfl, -⟩ := List.cons.inj h
    rw [hc] at ha
    exact absurd ha (by decide)
  | cons d p =>
    obtain ⟨rfl, -⟩ := List.cons.inj h
    exact ⟨p, rfl⟩

/-- Whether a glyph opens a comment does not depend on the term behind what follows it. -/
theorem opensNoComment_before_term {g : Glyph} {p u v : Text} (hv : StartsTerm v)
    (h : OpensNoComment g (p ++ u)) : OpensNoComment g (p ++ v) := by
  intro hg k more hk
  cases p with
  | nil =>
    obtain ⟨b, vs, rfl, hb⟩ := hv
    obtain ⟨rfl, -⟩ := List.cons.inj hk
    exact ⟨ne_of_opensTerm hb (by decide), ne_of_opensTerm hb (by decide)⟩
  | cons c p =>
    obtain ⟨rfl, -⟩ := List.cons.inj hk
    exact h hg c (p ++ u) rfl

theorem directiveExtent_plain {behind : Text} {g : Glyph} {rest : Text} (hn : g ≠ .scalar '\n')
    (hc : OpensNoComment g rest) :
    directiveExtent behind (g :: rest) =
      if isQuote g then
        1 + quotedTail g rest +
          directiveExtent ((rest.take (quotedTail g rest)).reverse ++ g :: behind)
            (rest.drop (quotedTail g rest))
      else 1 + directiveExtent (g :: behind) rest := by
  rw [directiveExtent, if_neg hn]
  · intro more hg hrest
    exact (hc hg _ more hrest).1 rfl
  · intro more hg hrest
    exact (hc hg _ more hrest).2 rfl

theorem directiveExtent_term_pos (behind : Text) {u : Text} (hu : StartsTerm u) :
    0 < directiveExtent behind u := by
  obtain ⟨a, us, rfl, ha⟩ := hu
  rw [directiveExtent_plain (ne_of_opensTerm ha (by decide))
    fun h => absurd h (ne_of_opensTerm ha (by decide))]
  split <;> omega

theorem directiveExtent_before {behind p u v : Text} (hu : StartsTerm u) (hv : StartsTerm v)
    (hn : directiveExtent behind (p ++ u) ≤ p.length) :
    directiveExtent behind (p ++ v) = directiveExtent behind (p ++ u) := by
  induction hl : p.length using Nat.strongRecOn generalizing behind p with
  | _ n ih =>
    subst hl
    cases p with
    | nil =>
      have := directiveExtent_term_pos behind hu
      simp only [List.nil_append, List.length_nil] at hn
      omega
    | cons g p =>
      simp only [List.cons_append, List.length_cons] at hn ih ⊢
      by_cases hline : g = .scalar '\n'
      · subst hline
        rw [directiveExtent_newline] at hn ⊢
        rw [directiveExtent_newline]
        split at hn
        next hs => rw [if_pos hs, if_pos hs, ih p.length (by omega) (by omega) rfl]
        next hs => rw [if_neg hs, if_neg hs]
      rcases comment_cases g (p ++ u) with ⟨rest, rfl, hrest⟩ | ⟨rest, rfl, hrest⟩ | hplain
      · obtain ⟨more, rfl⟩ := exists_cons_before_term hu (by decide) hrest
        rw [List.cons_append, List.cons_append, directiveExtent_lineComment, directiveExtent_lineComment]
      · obtain ⟨more, rfl⟩ := exists_cons_before_term hu (by decide) hrest
        simp only [List.cons_append, List.length_cons, directiveExtent_blockComment] at hn ih ⊢
        have hb : blockCommentTail (more ++ u) ≤ more.length := by omega
        rw [blockCommentTail_before hu.ne_nil hb, List.take_append_of_le_length hb,
          List.drop_append_of_le_length hb, List.take_append_of_le_length hb,
          List.drop_append_of_le_length hb]
        rw [List.take_append_of_le_length hb, List.drop_append_of_le_length hb] at hn
        have hlen := List.length_drop (i := blockCommentTail (more ++ u)) (l := more)
        rw [ih (more.drop (blockCommentTail (more ++ u))).length (by omega) (by omega) rfl]
      · rw [directiveExtent_plain hline hplain] at hn ⊢
        rw [directiveExtent_plain hline (opensNoComment_before_term hv hplain)]
        split at hn
        next hq =>
          have hb : quotedTail g (p ++ u) ≤ p.length := by omega
          rw [if_pos hq, if_pos hq, quotedTail_before (ne_of_isQuote hq (by decide)) (hu.sameBreak hv) hb,
            List.take_append_of_le_length hb, List.drop_append_of_le_length hb,
            List.take_append_of_le_length hb, List.drop_append_of_le_length hb]
          rw [List.take_append_of_le_length hb, List.drop_append_of_le_length hb] at hn
          have hlen := List.length_drop (i := quotedTail g (p ++ u)) (l := p)
          rw [ih (p.drop (quotedTail g (p ++ u))).length (by omega) (by omega) rfl]
        next hq =>
          rw [if_neg hq, if_neg hq, ih p.length (by omega) (by omega) rfl]

theorem directiveTail_before {p u v : Text} (hu : StartsTerm u) (hv : StartsTerm v)
    (hn : directiveTail (p ++ u) ≤ p.length) : directiveTail (p ++ v) = directiveTail (p ++ u) := by
  obtain ⟨a, us, hua, ha⟩ := id hu
  have hblank : (fun g : Glyph => g == .scalar ' ' || g == .scalar '\t' || g == .scalar '\r') a = false := by
    have h₁ := ne_of_opensTerm ha (c := ' ') (by decide)
    have h₂ := ne_of_opensTerm ha (c := '\t') (by decide)
    have h₃ := ne_of_opensTerm ha (c := '\r') (by decide)
    simp [h₁, h₂, h₃]
  -- an extent beyond `p` holds the first glyph of the term, which is not taken off its end
  have hle : directiveExtent [] (p ++ u) ≤ p.length := by
    refine Nat.le_of_not_lt fun hlt => ?_
    obtain ⟨k, hk⟩ : ∃ k, directiveExtent [] (p ++ u) = p.length + (k + 1) :=
      ⟨directiveExtent [] (p ++ u) - p.length - 1, by omega⟩
    have := length_lt_of_trimmed (fun g => g == .scalar ' ' || g == .scalar '\t' || g == .scalar '\r') p
      (us.take k) (g := a) hblank
    unfold directiveTail at hn
    rw [hk, hua, List.take_length_add_append, List.take_succ_cons] at hn
    omega
  unfold directiveTail
  rw [directiveExtent_before hu hv hle, List.take_append_of_le_length hle,
    List.take_append_of_le_length hle]

/-! ## Words and symbols -/

/-- A word does not end right in front of a word. -/
theorem takeWhile_ne_before_word (p : Text) {u : Text} (hu : StartsWord u) :
    ((p ++ u).takeWhile continuesWord).length ≠ p.length := by
  obtain ⟨a, us, rfl, ha⟩ := hu
  rw [List.takeWhile_append]
  split
  · rw [List.takeWhile_cons, if_pos (continuesWord_of_opensWord ha)]
    simp
  · assumption

/-- A word that ends before `p` does is the same whatever follows. -/
theorem takeWhile_before {p u : Text} (hn : ((p ++ u).takeWhile continuesWord).length < p.length) :
    ∃ name g more, p = name ++ g :: more ∧ ∀ t, (p ++ t).takeWhile continuesWord = name ∧
      (p ++ t).dropWhile continuesWord = g :: (more ++ t) := by
  induction p with
  | nil => exact absurd hn (Nat.not_lt_zero _)
  | cons g p ih =>
    by_cases hg : continuesWord g = true
    · rw [List.cons_append, List.takeWhile_cons, if_pos hg, List.length_cons, List.length_cons] at hn
      obtain ⟨name, h, more, rfl, hcut⟩ := ih (by omega)
      refine ⟨g :: name, h, more, rfl, fun t => ?_⟩
      rw [List.cons_append, List.takeWhile_cons, if_pos hg, List.dropWhile_cons, if_pos hg,
        (hcut t).1, (hcut t).2]
      exact ⟨rfl, rfl⟩
    · refine ⟨[], g, p, rfl, fun t => ?_⟩
      rw [List.cons_append, List.takeWhile_cons, if_neg hg, List.dropWhile_cons, if_neg hg]
      exact ⟨rfl, rfl⟩

theorem length_name_le_length_word (t : Text) : (t.takeWhile continuesWord).length ≤ (word t).2 := by
  unfold word
  dsimp only
  split
  next => exact Nat.le_refl _
  next =>
    split
    next => dsimp only; omega
    next =>
      split
      next => dsimp only; omega
      next => exact Nat.le_refl _

theorem word_before {p u v : Text} (h : SameBreak u v)
    (hname : ((p ++ u).takeWhile continuesWord).length < p.length) (hn : (word (p ++ u)).2 ≤ p.length) :
    word (p ++ v) = word (p ++ u) := by
  obtain ⟨name, g, more, hp, hcut⟩ := takeWhile_before hname
  have hlen := congrArg List.length hp
  rw [List.length_append, List.length_cons] at hlen
  unfold word at hn ⊢
  rw [(hcut u).1, (hcut u).2] at hn
  rw [(hcut u).1, (hcut u).2, (hcut v).1, (hcut v).2]
  dsimp only at hn ⊢
  split at hn
  next hraw =>
    rw [if_pos hraw, if_pos hraw, rawStringTail_before h (by omega)]
  next hraw =>
    rw [if_neg hraw, if_neg hraw]
    split at hn
    next hq =>
      have hquote := ne_of_isQuote (Bool.and_eq_true_iff.mp hq).1 (c := '\n') (by decide)
      rw [if_pos hq, if_pos hq, quotedTail_before hquote h (by omega)]
    next hq => rw [if_neg hq, if_neg hq]

/-- No punctuator has a glyph that starts a term, but for its first one. -/
theorem opensTerm_of_mem_punct (q : Punct) : ∀ g ∈ q.text.tail, opensTerm g = false := by
  cases q <;> decide

/-- A punctuator stands in front of a text or not, whatever term follows. -/
theorem punct_before_term (q : Punct) {p u v : Text} (hp : p ≠ []) (hu : StartsTerm u)
    (h : q.text.isPrefixOf (p ++ u) = true) : q.text.isPrefixOf (p ++ v) = true := by
  have hlen : q.text.length ≤ p.length := by
    refine Nat.le_of_not_lt fun hlt => ?_
    obtain ⟨a, us, rfl, ha⟩ := hu
    obtain ⟨b, p, rfl⟩ := List.exists_cons_of_ne_nil hp
    obtain ⟨k, hk⟩ : ∃ k, q.text.length = (b :: p).length + (k + 1) :=
      ⟨q.text.length - (b :: p).length - 1, by omega⟩
    -- a longer one would hold the first glyph of the term
    have hq := List.prefix_iff_eq_take.mp (List.isPrefixOf_iff_prefix.mp h)
    rw [hk, List.take_length_add_append, List.take_succ_cons] at hq
    have := opensTerm_of_mem_punct q a (by rw [hq]; simp)
    rw [ha] at this
    exact absurd this (by decide)
  rw [isPrefixOf_append_iff hlen] at h ⊢
  exact h

theorem symbol_before_term {p u v : Text} (hp : p ≠ []) (hu : StartsTerm u) (hv : StartsTerm v) :
    symbol (p ++ v) = symbol (p ++ u) := by
  have hsame : ∀ q : Punct, q.text.isPrefixOf (p ++ v) = q.text.isPrefixOf (p ++ u) := fun q =>
    Bool.eq_iff_iff.mpr ⟨punct_before_term q hp hv, punct_before_term q hp hu⟩
  unfold symbol Punct.leading?
  simp only [hsame]

/-! ## Any token -/

theorem leading_directive (rest : Text) :
    leading true (.scalar '#' :: rest) = (.directive, 1 + directiveTail rest) := by
  rw [leading, if_pos (by decide)] <;> simp

theorem leading_lineComment (lineStart : Bool) (rest : Text) :
    leading lineStart (.scalar '/' :: .scalar '/' :: rest) = (.comment, 2 + lineCommentTail rest) := by
  rw [leading, if_neg (by simp)]

theorem leading_blockComment (lineStart : Bool) (rest : Text) :
    leading lineStart (.scalar '/' :: .scalar '*' :: rest) = (.comment, 2 + blockCommentTail rest) := by
  rw [leading, if_neg (by simp)]

theorem leading_plain {lineStart : Bool} {g : Glyph} {rest : Text}
    (hd : ¬(g = .scalar '#' ∧ lineStart = true)) (hc : OpensNoComment g rest) :
    leading lineStart (g :: rest) =
      if isDigit g || (g == .scalar '.' && (rest.head?.map isDigit).getD false) then
        (.literal, 1 + numberTail g rest)
      else if startsWord g then word (g :: rest)
      else if isQuote g then (.literal, 1 + quotedTail g rest)
      else symbol (g :: rest) := by
  rw [leading, if_neg (by simpa using hd)]
  · intro more hg hrest
    exact (hc hg _ more hrest).1 rfl
  · intro more hg hrest
    exact (hc hg _ more hrest).2 rfl

/-- No term starts with a digit. -/
theorem isDigit_of_opensTerm {g : Glyph} (h : opensTerm g = true) : isDigit g = false := by
  rcases Bool.or_eq_true_iff.mp h with h | h
  · exact isDigit_of_opensWord h
  · rw [eq_of_beq h]
    decide

/-- Whether a glyph opens a number does not depend on the term behind what follows it. -/
theorem opensNumber_before_term {g : Glyph} {p u v : Text} (hu : StartsTerm u) (hv : StartsTerm v) :
    (isDigit g || (g == .scalar '.' && ((p ++ v).head?.map isDigit).getD false)) =
      (isDigit g || (g == .scalar '.' && ((p ++ u).head?.map isDigit).getD false)) := by
  cases p with
  | nil =>
    obtain ⟨a, us, rfl, ha⟩ := hu
    obtain ⟨b, vs, rfl, hb⟩ := hv
    simp [isDigit_of_opensTerm ha, isDigit_of_opensTerm hb]
  | cons c p => rfl

/-- Identifiers, keywords and literals, of which a word right behind may become a part. -/
def isWordOrLiteral : TokenKind → Bool
  | .identifier | .keyword _ | .literal => true
  | _ => false

theorem isWordOrLiteral_word (t : Text) : isWordOrLiteral (word t).1 = true := by
  unfold word
  dsimp only
  cases Keyword.ofText? (t.takeWhile continuesWord) <;>
  · split
    · rfl
    split
    · rfl
    split <;> rfl

/-- A token that ends within `p` does not depend on the term behind `p`, unless a word right behind might
become a part of it. -/
theorem leading_before_term {lineStart : Bool} {p u v : Text} (hp : p ≠ []) (hu : StartsTerm u)
    (hv : StartsTerm v) (hn : (leading lineStart (p ++ u)).2 ≤ p.length)
    (hend : isWordOrLiteral (leading lineStart (p ++ u)).1 = true →
      (leading lineStart (p ++ u)).2 < p.length ∨ StartsWord u)
    (hq : p.drop (leading lineStart (p ++ u)).2 ≠ [.scalar '\'']) :
    leading lineStart (p ++ v) = leading lineStart (p ++ u) := by
  cases p with
  | nil => exact absurd rfl hp
  | cons g p =>
    simp only [List.cons_append, List.length_cons] at hn hend hq ⊢
    -- what is tried in turn: directives, comments, numbers, words, quoted literals, symbols
    by_cases hd : g = .scalar '#' ∧ lineStart = true
    · obtain ⟨rfl, rfl⟩ := hd
      rw [leading_directive] at hn ⊢
      rw [leading_directive, directiveTail_before hu hv (by dsimp only at hn; omega)]
    rcases comment_cases g (p ++ u) with ⟨rest, rfl, hrest⟩ | ⟨rest, rfl, hrest⟩ | hplain
    · obtain ⟨more, rfl⟩ := exists_cons_before_term hu (by decide) hrest
      simp only [List.cons_append, List.length_cons, leading_lineComment] at hn ⊢
      rw [lineCommentTail_before hu (by omega)]
    · obtain ⟨more, rfl⟩ := exists_cons_before_term hu (by decide) hrest
      simp only [List.cons_append, List.length_cons, leading_blockComment] at hn ⊢
      rw [blockCommentTail_before hu.ne_nil (by omega)]
    rw [leading_plain hd hplain] at hn hend hq ⊢
    rw [leading_plain hd (opensNoComment_before_term hv hplain), opensNumber_before_term hu hv]
    split at hn
    next h =>
      rw [if_pos h] at hend hq
      have hlt : numberTail g (p ++ u) < p.length := by
        rcases hend rfl with hlt | hword
        · dsimp only at hlt
          omega
        · have := numberTail_ne_before_word g p hword
          dsimp only at hn
          omega
      rw [if_pos h, if_pos h, numberTail_before hlt]
      rwa [QuoteFree, ← List.drop_succ_cons (a := g), Nat.add_comm]
    next h =>
      rw [if_neg h] at hend
      rw [if_neg h, if_neg h]
      split at hn
      next hw =>
        rw [if_pos hw] at hend
        rw [if_pos hw, if_pos hw]
        have hle := length_name_le_length_word (g :: (p ++ u))
        have hname : ((g :: p ++ u).takeWhile continuesWord).length < (g :: p).length := by
          rw [List.cons_append, List.length_cons]
          rcases hend (isWordOrLiteral_word _) with hlt | hword
          · omega
          · have := takeWhile_ne_before_word (g :: p) hword
            rw [List.cons_append, List.length_cons] at this
            omega
        exact word_before (p := g :: p) (hu.sameBreak hv) hname hn
      next hw =>
        rw [if_neg hw, if_neg hw]
        split at hn
        next hquote =>
          rw [if_pos hquote, if_pos hquote, quotedTail_before (ne_of_isQuote hquote (by decide))
            (hu.sameBreak hv) (by dsimp only at hn; omega)]
        next hquote =>
          rw [if_neg hquote, if_neg hquote]
          exact symbol_before_term (p := g :: p) (List.cons_ne_nil g p) hu hv

end HouseStyle.Lexeme
