import HouseStyle.Proofs.TokenEnds

/-!
# Tokens of a text that is cut short

Where a text ends, every shape of a token ends. If the text is cut off right behind a line feed, this changes no token
that was over by then: what was looked for behind it was not needed.

> `leading_cut`: a token that ends within `p` is the same at the front of `p` and of `p ++ u`, if `p` ends in a
> line feed.

Most shapes are measured alike in front of any cut. A directive is not: where `//` is cut in two, what is left of it
belongs to the directive, and so no text is cut behind a slash here (`NoSlash`). Quoted literals, block comments and
directives that go on over the cut end at it, so they are told as the lesser of two lengths (`quotedTail_cut`,
`blockCommentTail_cut`, `directiveExtent_cut`).
-/

namespace HouseStyle.Lexeme

/-! ## What ends with a mark of its own -/

theorem quotedTail_cut {quote : Glyph} (hquote : quote ≠ .scalar '\n') (p u : Text) :
    quotedTail quote p = min (quotedTail quote (p ++ u)) p.length := by
  fun_induction quotedTail quote p with
  | case1 => simp
  | case2 => rw [List.singleton_append, quotedTail_newline_eq_zero hquote, Nat.zero_min]
  | case3 g hg =>
    have hpos := quotedTail_pos quote (u := u) hg
    rw [List.singleton_append, List.length_singleton]
    omega
  | case4 h t ih =>
    rw [List.cons_append, List.cons_append, quotedTail_cons, if_pos rfl, ih]
    simp only [List.length_cons]
    omega
  | case5 h t hback =>
    rw [List.cons_append, List.cons_append, quotedTail_cons, if_neg hback, if_pos rfl]
    simp
  | case6 h t hback hq =>
    rw [List.cons_append, List.cons_append, quotedTail_cons, if_neg hback, if_neg hq, if_pos rfl, Nat.zero_min]
  | case7 g h t hback hq hn ih =>
    rw [List.cons_append, List.cons_append, quotedTail_cons, if_neg hback, if_neg hq, if_neg hn, ih]
    simp only [List.cons_append, List.length_cons]
    omega

theorem lengthThrough_eq_none_of_append {mark p u : Text} (hmark : mark ≠ [])
    (h : ∀ n, lengthThrough? mark (p ++ u) = some n → p.length < n) : lengthThrough? mark p = none := by
  cases hp : lengthThrough? mark p with
  | none => rfl
  | some n =>
    have hle := lengthThrough_le hp
    rw [← List.append_nil p] at hp
    exact absurd (h n (lengthThrough_append hmark hp hle)) (Nat.not_lt.mpr hle)

theorem blockCommentTail_cut (p u : Text) : blockCommentTail p = min (blockCommentTail (p ++ u)) p.length := by
  unfold blockCommentTail
  cases h : lengthThrough? (Text.ofString "*/") (p ++ u) with
  | none =>
    rw [lengthThrough_eq_none_of_append (u := u) (by decide) (by simp [h])]
    simp
  | some n =>
    by_cases hn : n ≤ p.length
    · have hp := lengthThrough_append (v := []) (by decide) h hn
      rw [List.append_nil] at hp
      rw [hp]
      exact (Nat.min_eq_left hn).symm
    · rw [lengthThrough_eq_none_of_append (u := u) (by decide) fun m hm => ?_]
      · simp only [Option.getD_none, Option.getD_some]
        omega
      · rw [h] at hm
        obtain rfl := Option.some.inj hm
        exact Nat.lt_of_not_le hn

theorem rawDelimiter_cut {room : Nat} {p delimiter body : Text}
    (h : rawDelimiter? room p = some (delimiter, body)) (u : Text) :
    rawDelimiter? room (p ++ u) = some (delimiter, body ++ u) := by
  have hp := append_of_rawDelimiter h
  have hlen := congrArg List.length hp
  rw [List.length_append, List.length_cons] at hlen
  rw [← List.append_nil p] at h
  obtain ⟨more, hmore, -, hcut⟩ := rawDelimiter_before (v := u) h (by omega)
  obtain rfl : more = body := by
    rw [hp] at hmore
    exact (List.cons.inj (List.append_cancel_left hmore)).2.symm
  exact hcut

theorem rawStringTail_cut {p u : Text} (h : rawStringTail (p ++ u) ≤ p.length) :
    rawStringTail p = rawStringTail (p ++ u) := by
  unfold rawStringTail at h ⊢
  cases hd : rawDelimiter? (maxDelimiter + 1) (p ++ u) with
  | none =>
    have hp : rawDelimiter? (maxDelimiter + 1) p = none := by
      refine Option.eq_none_iff_forall_ne_some.mpr fun found hfound => ?_
      rw [rawDelimiter_cut hfound u] at hd
      exact absurd hd (by simp)
    rw [hd] at h
    rw [hp]
    dsimp only at h ⊢
    rw [quotedTail_cut (by decide) p u]
    exact Nat.min_eq_left h
  | some found =>
    obtain ⟨delimiter, body⟩ := found
    rw [hd] at h
    dsimp only at h ⊢
    have hsplit := congrArg List.length (append_of_rawDelimiter hd)
    simp only [List.length_append, List.length_cons] at hsplit
    cases hl : lengthThrough? (.scalar ')' :: delimiter ++ [.scalar '"']) body with
    | none =>
      -- the raw string runs to the end of the text, so nothing is cut off
      rw [hl] at h
      obtain rfl : u = [] := by
        rw [← List.length_eq_zero_iff]
        simp only [List.length_append] at h
        omega
      rw [List.append_nil] at hd ⊢
      rw [hd]
      dsimp only
      rw [hl]
    | some n =>
      rw [hl] at h
      dsimp only at h
      obtain ⟨more, hp, rfl, hcut⟩ := rawDelimiter_before (v := []) hd (by omega)
      rw [List.append_nil, List.append_nil] at hcut
      have hmore : n ≤ more.length := by
        have := congrArg List.length hp
        simp only [List.length_append, List.length_cons] at this
        omega
      have hfound := lengthThrough_append (v := []) (by simp) hl hmore
      rw [List.append_nil] at hfound
      rw [hcut]
      dsimp only
      rw [hfound]

/-! ## Numbers -/

theorem numberTail_cut {last : Glyph} {p u : Text} (h : numberTail last (p ++ u) ≤ p.length) :
    numberTail last p = numberTail last (p ++ u) := by
  induction p generalizing last with
  | nil => exact (Nat.le_zero.mp h).symm
  | cons g p ih =>
    -- the glyph `g` belongs to the number in both texts or in neither
    have step : ∀ last', 1 + numberTail last' (p ++ u) ≤ (g :: p).length →
        1 + numberTail last' p = 1 + numberTail last' (p ++ u) := by
      intro last' h
      rw [List.length_cons] at h
      rw [ih (by omega)]
    simp only [List.cons_append, numberTail] at h ⊢
    split at h
    next h₁ =>
      rw [if_pos h₁, if_pos h₁]
      exact step g h
    next h₁ =>
      rw [if_neg h₁, if_neg h₁]
      cases p with
      | cons a p =>
        have hhead : ((a :: p) ++ u).head? = (a :: p).head? := rfl
        simp only [hhead] at h ⊢
        split at h
        next h₂ =>
          rw [if_pos h₂, if_pos h₂]
          exact step g h
        next h₂ =>
          rw [if_neg h₂, if_neg h₂]
          split at h
          next h₃ =>
            rw [if_pos h₃, if_pos h₃]
            exact step g h
          next h₃ => rw [if_neg h₃, if_neg h₃]
      | nil =>
        rw [if_neg (by simp)]
        split at h
        next h₂ =>
          -- the quote goes on with the number only if a letter or a digit follows, which would be cut off
          obtain ⟨a, us, rfl, ha⟩ : ∃ a us, u = a :: us ∧ isAlphanumeric a = true := by
            cases u with
            | nil => simp at h₂
            | cons a us => exact ⟨a, us, rfl, by simpa using (Bool.and_eq_true_iff.mp h₂).2⟩
          rw [List.nil_append, numberTail, if_pos (by simp [ha]), List.length_singleton] at h
          omega
        next h₂ =>
          rw [if_neg h₂]
          split at h
          next h₃ =>
            rw [if_pos h₃, if_pos h₃]
            exact step g h
          next h₃ => rw [if_neg h₃, if_neg h₃]

/-! ## What is taken off the end -/

/-- If a text with more behind it, trimmed, is no longer than the text, then it is the text, trimmed. -/
theorem length_trimmed_append {drop : Glyph → Bool} {p w : Text}
    (h : (((p ++ w).reverse).dropWhile drop).length ≤ p.length) :
    ((p ++ w).reverse).dropWhile drop = (p.reverse).dropWhile drop := by
  have hall : ∀ g ∈ w, drop g = true := by
    intro g hg
    refine Bool.not_eq_false _ ▸ fun hkeep => ?_
    obtain ⟨before, after, rfl⟩ := List.append_of_mem hg
    have := length_lt_of_trimmed drop (p ++ before) after hkeep
    simp only [List.length_append, List.append_assoc] at this h
    omega
  rw [List.reverse_append, List.dropWhile_append_of_pos]
  exact fun g hg => hall g (List.mem_reverse.mp hg)

theorem lineCommentTail_cut {p u : Text} (h : lineCommentTail (p ++ u) ≤ p.length) :
    lineCommentTail p = lineCommentTail (p ++ u) := by
  unfold lineCommentTail at h ⊢
  rw [List.takeWhile_append] at h ⊢
  split
  next hall =>
    have hp : p.takeWhile (· != Glyph.scalar '\n') = p := (List.takeWhile_prefix _).eq_of_length hall
    rw [if_pos hall] at h
    rw [length_trimmed_append h, hp]
  next => rfl

/-! ## Directives -/

/-- A text that does not end in a slash. -/
def NoSlash (p : Text) : Prop := p.getLast? ≠ some (.scalar '/')

theorem NoSlash.suffix {p q : Text} (h : NoSlash p) (hq : q <:+ p) : NoSlash q := by
  obtain ⟨front, rfl⟩ := hq
  intro hlast
  exact h (by rw [List.getLast?_append, hlast, Option.some_or])

/-- If a slash that is not the last glyph opens a comment, the comment is opened in front of any cut. -/
theorem exists_cons_of_noSlash {p u rest : Text} {c : Glyph} (h : NoSlash (.scalar '/' :: p))
    (hrest : p ++ u = c :: rest) : ∃ more, p = c :: more ∧ rest = more ++ u := by
  cases p with
  | nil => exact absurd rfl h
  | cons d p =>
    obtain ⟨rfl, rfl⟩ := List.cons.inj hrest
    exact ⟨p, rfl, rfl⟩

theorem opensNoComment_of_append {g : Glyph} {p u : Text} (h : OpensNoComment g (p ++ u)) :
    OpensNoComment g p := by
  rintro hg k more rfl
  exact h hg k (more ++ u) rfl

/-- A comment or a literal within a directive, of length `n`, and what follows it: if it goes on over the cut, it ends
there, and so does the directive. -/
theorem directiveExtent_cut_behind {p u : Text} {n : Nat} (behind : Text)
    (h : ∀ behind, directiveExtent behind (p.drop n) =
      min (directiveExtent behind (p.drop n ++ u)) (p.drop n).length) :
    min n p.length + directiveExtent ((p.take (min n p.length)).reverse ++ behind) (p.drop (min n p.length)) =
      min (n + directiveExtent (((p ++ u).take n).reverse ++ behind) ((p ++ u).drop n)) p.length := by
  by_cases hn : n ≤ p.length
  · rw [Nat.min_eq_left hn, List.take_append_of_le_length hn, List.drop_append_of_le_length hn, h, List.length_drop]
    omega
  · rw [Nat.min_eq_right (by omega), List.drop_length, directiveExtent]
    omega

theorem directiveExtent_cut {p : Text} (h : NoSlash p) (behind u : Text) :
    directiveExtent behind p = min (directiveExtent behind (p ++ u)) p.length := by
  induction hl : p.length using Nat.strongRecOn generalizing behind p with
  | _ n ih =>
    subst hl
    cases p with
    | nil => simp [directiveExtent]
    | cons g p =>
      -- the induction is on the length: a comment or a literal is passed at once
      have hlater : ∀ q : Text, q <:+ p → ∀ behind, directiveExtent behind q =
          min (directiveExtent behind (q ++ u)) q.length := by
        intro q hq behind
        have hlt := Nat.lt_succ_of_le hq.length_le
        exact ih q.length hlt (h.suffix (hq.trans (List.suffix_cons g p))) behind rfl
      rw [List.cons_append]
      by_cases hline : g = .scalar '\n'
      · subst hline
        rw [directiveExtent_newline, directiveExtent_newline, hlater p (List.suffix_refl p)]
        split
        · rw [List.length_cons]
          omega
        · exact (Nat.zero_min _).symm
      rcases comment_cases g (p ++ u) with ⟨rest, rfl, hrest⟩ | ⟨rest, rfl, hrest⟩ | hplain
      · obtain ⟨more, rfl, rfl⟩ := exists_cons_of_noSlash h hrest
        rw [List.cons_append, directiveExtent_lineComment, directiveExtent_lineComment, Nat.zero_min]
      · obtain ⟨more, rfl, rfl⟩ := exists_cons_of_noSlash h hrest
        have hpart := directiveExtent_cut_behind (u := u) (n := blockCommentTail (more ++ u))
          (.scalar '*' :: .scalar '/' :: behind)
          (hlater _ ((List.drop_suffix _ _).trans (List.suffix_cons _ more)))
        rw [← blockCommentTail_cut] at hpart
        rw [List.cons_append, directiveExtent_blockComment, directiveExtent_blockComment, List.length_cons,
          List.length_cons]
        omega
      · rw [directiveExtent_plain hline hplain, directiveExtent_plain hline (opensNoComment_of_append hplain)]
        split
        next hq =>
          have hpart := directiveExtent_cut_behind (u := u) (n := quotedTail g (p ++ u)) (g :: behind)
            (hlater _ (List.drop_suffix _ _))
          rw [← quotedTail_cut (ne_of_isQuote hq (by decide))] at hpart
          rw [List.length_cons]
          omega
        next hq =>
          rw [hlater p (List.suffix_refl p), List.length_cons]
          omega

theorem directiveTail_cut {p u : Text} (hp : NoSlash p) (h : directiveTail (p ++ u) ≤ p.length) :
    directiveTail p = directiveTail (p ++ u) := by
  unfold directiveTail at h ⊢
  rw [directiveExtent_cut hp [] u]
  by_cases hn : directiveExtent [] (p ++ u) ≤ p.length
  · rw [Nat.min_eq_left hn, List.take_append_of_le_length hn]
  · obtain ⟨k, hk⟩ := Nat.exists_eq_add_of_le (Nat.le_of_not_le hn)
    rw [hk, List.take_length_add_append] at h ⊢
    rw [Nat.min_eq_right (by omega), List.take_length, length_trimmed_append h]

/-! ## Words and symbols -/

/-- A text that ends in a line feed. -/
def EndsLine (p : Text) : Prop := p.getLast? = some (.scalar '\n')

theorem EndsLine.ne_nil {p : Text} (h : EndsLine p) : p ≠ [] := by
  rintro rfl
  exact absurd h (by simp [EndsLine])

theorem EndsLine.noSlash {p : Text} (h : EndsLine p) : NoSlash p := by
  rw [NoSlash, h]
  decide

/-- The last line feed is left if something else is taken away. -/
theorem EndsLine.of_cons {g : Glyph} {p : Text} (h : EndsLine (g :: p)) (hg : g ≠ .scalar '\n') : EndsLine p := by
  cases p with
  | nil => exact absurd (Option.some.inj h) hg
  | cons a p => rwa [EndsLine, List.getLast?_cons_cons] at h

/-- A word is over at a line feed. -/
theorem exists_name_of_endsLine {p : Text} (h : EndsLine p) :
    ∃ name g more, p = name ++ g :: more ∧ ∀ u, (p ++ u).takeWhile continuesWord = name ∧
      (p ++ u).dropWhile continuesWord = g :: (more ++ u) := by
  refine takeWhile_before (u := []) ?_
  rw [List.append_nil]
  refine Nat.lt_of_le_of_ne (List.takeWhile_prefix _).length_le fun hlen => ?_
  have hall := List.all_takeWhile (p := continuesWord) (l := p)
  rw [(List.takeWhile_prefix _).eq_of_length hlen] at hall
  exact absurd (List.all_eq_true.mp hall _ (List.mem_of_getLast? h)) (by decide)

theorem word_cut {p u : Text} (hp : EndsLine p) (h : (word (p ++ u)).2 ≤ p.length) : word p = word (p ++ u) := by
  obtain ⟨name, g, more, hsplit, hcut⟩ := exists_name_of_endsLine hp
  have hlen := congrArg List.length hsplit
  rw [List.length_append, List.length_cons] at hlen
  have hname := hcut []
  rw [List.append_nil, List.append_nil] at hname
  unfold word at h ⊢
  rw [(hcut u).1, (hcut u).2] at h ⊢
  rw [hname.1, hname.2]
  dsimp only at h ⊢
  split at h
  next hraw => rw [if_pos hraw, if_pos hraw, rawStringTail_cut (u := u) (by dsimp only at h; omega)]
  next hraw =>
    rw [if_neg hraw, if_neg hraw]
    split at h
    next hq =>
      have hquote := ne_of_isQuote (Bool.and_eq_true_iff.mp hq).1 (c := '\n') (by decide)
      rw [if_pos hq, if_pos hq, quotedTail_cut hquote more u, Nat.min_eq_left (by dsimp only at h; omega)]
    next hq => rw [if_neg hq, if_neg hq]

theorem symbol_cut {p u : Text} (h : (symbol (p ++ u)).2 ≤ p.length) : symbol p = symbol (p ++ u) := by
  have hfront : ∀ q : Punct, q.text <+: p → q.text <+: p ++ u := fun q hq => hq.trans (List.prefix_append p u)
  unfold symbol at h ⊢
  cases hu : Punct.leading? (p ++ u) with
  | none =>
    have hp : Punct.leading? p = none := by
      refine Option.eq_none_iff_forall_ne_some.mpr fun q hq => ?_
      have hstands := List.find?_eq_none.mp hu q (Punct.mem_all q)
      exact hstands (List.isPrefixOf_iff_prefix.mpr (hfront q (Punct.leading_eq_some_iff.mp hq).1))
    rw [hp]
  | some q =>
    obtain ⟨hq, hlongest⟩ := Punct.leading_eq_some_iff.mp hu
    rw [hu] at h
    have hp : Punct.leading? p = some q :=
      Punct.leading_eq_some_iff.mpr ⟨List.prefix_of_prefix_length_le hq (List.prefix_append p u) h,
        fun r hr => hlongest r (hfront r hr)⟩
    rw [hp]

/-! ## Any token -/

/-- A token that ends within a text that ends in a line feed does not depend on what stands behind it. -/
theorem leading_cut {lineStart : Bool} {p u : Text} (hp : EndsLine p)
    (h : (leading lineStart (p ++ u)).2 ≤ p.length) : leading lineStart p = leading lineStart (p ++ u) := by
  obtain ⟨g, p, rfl⟩ := List.exists_cons_of_ne_nil hp.ne_nil
  simp only [List.cons_append, List.length_cons] at h ⊢
  -- directives, comments, numbers, words, quoted literals and symbols, as they are tried
  by_cases hd : g = .scalar '#' ∧ lineStart = true
  · obtain ⟨rfl, rfl⟩ := hd
    rw [leading_directive] at h ⊢
    rw [leading_directive,
      directiveTail_cut (u := u) (hp.of_cons (by decide)).noSlash (by dsimp only at h; omega)]
  rcases comment_cases g (p ++ u) with ⟨rest, rfl, hrest⟩ | ⟨rest, rfl, hrest⟩ | hplain
  · obtain ⟨more, rfl, rfl⟩ := exists_cons_of_noSlash hp.noSlash hrest
    simp only [List.cons_append, List.length_cons, leading_lineComment] at h ⊢
    rw [lineCommentTail_cut (u := u) (by omega)]
  · obtain ⟨more, rfl, rfl⟩ := exists_cons_of_noSlash hp.noSlash hrest
    simp only [List.cons_append, List.length_cons, leading_blockComment] at h ⊢
    rw [blockCommentTail_cut more u, Nat.min_eq_left (by omega)]
  rw [leading_plain hd hplain] at h ⊢
  rw [leading_plain hd (opensNoComment_of_append hplain)]
  -- whether a point opens a number is to be seen from the glyph behind it, which is in `p`
  have hnumber : (isDigit g || (g == .scalar '.' && (p.head?.map isDigit).getD false)) =
      (isDigit g || (g == .scalar '.' && ((p ++ u).head?.map isDigit).getD false)) := by
    by_cases hg : g = .scalar '.'
    · subst hg
      rw [List.head?_append_of_ne_nil _ (hp.of_cons (by decide)).ne_nil]
    · rw [beq_false_of_ne hg]
      rfl
  rw [hnumber]
  split at h
  next hn => rw [if_pos hn, if_pos hn, numberTail_cut (u := u) (by dsimp only at h; omega)]
  next hn =>
    rw [if_neg hn, if_neg hn]
    split at h
    next hw =>
      rw [if_pos hw, if_pos hw]
      exact word_cut hp h
    next hw =>
      rw [if_neg hw, if_neg hw]
      split at h
      next hq =>
        rw [if_pos hq, if_pos hq, quotedTail_cut (ne_of_isQuote hq (by decide)) p u,
          Nat.min_eq_left (by dsimp only at h; omega)]
      next hq =>
        rw [if_neg hq, if_neg hq]
        exact symbol_cut (p := g :: p) h

/-- Nor does a spliced line end. -/
theorem spliceLength_cut {p : Text} (hp : EndsLine p) (u : Text) : spliceLength p = spliceLength (p ++ u) := by
  unfold EndsLine at hp
  match p with
  | [] => simp at hp
  | [g] =>
    obtain rfl := Option.some.inj hp
    rfl
  | [g, h] =>
    obtain rfl := Option.some.inj hp
    simp only [List.cons_append, List.nil_append, spliceLength]
    grind
  | g :: h :: i :: p =>
    simp only [List.cons_append, spliceLength]
    grind

end HouseStyle.Lexeme
