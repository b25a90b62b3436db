import HouseStyle.Proofs.Steps

/-!
# Brackets that match, and readers that keep them

`closers` gives the closing brackets of some tokens that no bracket among them opens. So the partner of an
opening bracket is the first of the closers behind it, and where all brackets are properly nested (`IsNested`)
this is what every reader finds that looks for the end of a group. Of the code that is left over only the
braces count for the scopes (`braces`), and most readers leave them as they were: what a reader passes over
either has no brace or has both of a pair.

- `enclosed_of_closers`: the end of a group is the closer that stands at the depth of reading.
- `braces_readFrom`: a head leaves the braces alone, but for the one of a body.
- `braces_typeHead`: the head of a class or an enumeration leaves them alone.
-/

namespace HouseStyle

/-! ## Partners -/

/-- The closing brackets of some tokens that are not opened among them. -/
def closers : List Token → List Token
  | [] => []
  | t :: ts =>
    match t.kind with
    | .punct p => if p.opens then (closers ts).tail else if p.closes then t :: closers ts else closers ts
    | _ => closers ts

/-- Every opening bracket has a partner of its kind. -/
def paired : List Token → Bool
  | [] => true
  | t :: ts =>
    (match t.kind with
      | .punct p => p.closer?.all fun q => (closers ts).head?.any (·.isPunct q)
      | _ => true) && paired ts

/-- All brackets of some tokens are properly nested. -/
def IsNested (ts : List Token) : Prop := paired ts = true ∧ closers ts = []

instance (ts : List Token) : Decidable (IsNested ts) := inferInstanceAs (Decidable (_ ∧ _))

/-- The closing braces of some tokens that are not opened among them. -/
def braces (ts : List Token) : List Token := (closers ts).filter (·.isPunct .rbrace)

variable {t : Token} {ts us : List Token}

theorem paired_tail (h : paired (t :: ts) = true) : paired ts = true := (Bool.and_eq_true _ _ ▸ h).2

theorem paired_of_suffix (h : paired ts = true) (hus : us <:+ ts) : paired us = true := by
  obtain ⟨front, rfl⟩ := hus
  induction front with
  | nil => exact h
  | cons t front ih => exact ih (paired_tail h)

/-- The partner of an opening bracket. -/
theorem exists_partner (h : paired (t :: ts) = true) {p q : Punct} (hp : t.isPunct p = true)
    (hq : p.closer? = some q) : ∃ c cs, closers ts = c :: cs ∧ c.isPunct q = true := by
  have hkind : t.kind = .punct p := by simpa [Token.isPunct] using hp
  unfold paired at h
  simp only [hkind, hq, Option.all_some, Bool.and_eq_true] at h
  obtain ⟨c, hc, hcq⟩ := Option.any_eq_true _ _ |>.mp h.1
  obtain ⟨cs, hcs⟩ := List.head?_eq_some_iff.mp hc
  exact ⟨c, cs, hcs, hcq⟩

theorem Token.exists_of_isOneOf {ps : List Punct} (h : t.isOneOf ps = true) :
    ∃ p ∈ ps, t.isPunct p = true := by
  unfold Token.isOneOf at h
  split at h
  · next p hp => exact ⟨p, by simpa using h, by simp [Token.isPunct, hp]⟩
  · exact absurd h (by simp)

theorem Token.isOneOf_two {p q : Punct} (h : t.isOneOf [p, q] = true) :
    t.isPunct p = true ∨ t.isPunct q = true := by
  obtain ⟨r, hr, ht⟩ := exists_of_isOneOf h
  simp only [List.mem_cons, List.not_mem_nil, or_false] at hr
  rcases hr with rfl | rfl
  · exact Or.inl ht
  · exact Or.inr ht

/-- What is none of several punctuators is none of some of them. -/
theorem Token.isOneOf_subset {ps qs : List Punct} (hsub : ∀ p ∈ ps, p ∈ qs) (h : t.isOneOf qs = false) :
    t.isOneOf ps = false := by
  unfold Token.isOneOf at h ⊢
  split
  · next p hp =>
    simp only [hp, List.contains_eq_mem, decide_eq_false_iff_not] at h ⊢
    exact fun hmem => h (hsub p hmem)
  · rfl

theorem Token.isAnyPunct_of_isKeyword {k : Keyword} (h : t.isKeyword k = true) : t.isAnyPunct = false := by
  have hkind : t.kind = .keyword k := by simpa [Token.isKeyword] using h
  rw [Token.isAnyPunct, hkind]

theorem Token.isAnyPunct_of_isWord {word : String} (h : t.isWord word = true) : t.isAnyPunct = false := by
  have hkind : t.kind = .identifier := by
    simp only [Token.isWord, Bool.and_eq_true, beq_iff_eq] at h
    exact h.1
  rw [Token.isAnyPunct, hkind]

theorem exists_punct (h : t.isAnyPunct = true) : ∃ p, t.isPunct p = true := by
  unfold Token.isAnyPunct at h
  split at h
  · next p hp => exact ⟨p, by simp [Token.isPunct, hp]⟩
  · exact absurd h (by simp)

theorem closers_of_punct {p : Punct} (hp : t.isPunct p = true) :
    closers (t :: ts) =
      if p.opens then (closers ts).tail else if p.closes then t :: closers ts else closers ts := by
  have hkind : t.kind = .punct p := by simpa [Token.isPunct] using hp
  rw [closers, hkind]

/-- A token that is no punctuator is no bracket. -/
theorem closers_of_not_punct (h : t.isAnyPunct = false) : closers (t :: ts) = closers ts := by
  rw [closers]
  unfold Token.isAnyPunct at h
  split
  · next p hp => simp [hp] at h
  · rfl

/-- A token that is no bracket leaves the closers as they are. -/
theorem closers_of_plain (h : t.isOneOf [.lparen, .lbracket, .lbrace, .rparen, .rbracket, .rbrace] = false) :
    closers (t :: ts) = closers ts := by
  rw [closers]
  split
  · next p hp =>
    simp only [Token.isOneOf, hp] at h
    cases p <;> first | rfl | exact absurd h (by decide)
  · rfl

/-- An opening bracket takes its partner away. -/
theorem closers_of_partner (h : paired (t :: ts) = true) {p q : Punct} (hp : t.isPunct p = true)
    (hq : p.closer? = some q) : ∃ c, c.isPunct q = true ∧ closers ts = c :: closers (t :: ts) := by
  obtain ⟨c, cs, hcs, hc⟩ := exists_partner h hp hq
  have hopens : p.opens = true := by cases p <;> first | rfl | exact absurd hq (by simp [Punct.closer?])
  refine ⟨c, hc, ?_⟩
  rw [closers_of_punct hp, if_pos hopens, hcs]
  rfl

/-! ## Groups -/

/-- The end of a group is the closer that stands at the depth of reading. -/
theorem enclosed_of_closers {q : Punct} (depth : Nat) {c : Token} (h : (closers ts)[depth]? = some c)
    (hc : c.isPunct q = true) :
    ∃ e, enclosed? q depth ts = some e ∧ e.closer = c ∧ closers e.after = (closers ts).drop (depth + 1) := by
  induction ts generalizing depth with
  | nil => exact absurd h (by simp [closers])
  | cons t ts ih =>
    -- what is found behind the token is found with it
    have later : ∀ {depth' : Nat}, (closers ts)[depth']? = some c →
        (closers ts).drop (depth' + 1) = (closers (t :: ts)).drop (depth + 1) →
        ∃ e : Enclosed, (enclosed? q depth' ts).map (.cons t) = some e ∧ e.closer = c ∧
          closers e.after = (closers (t :: ts)).drop (depth + 1) := by
      intro depth' hat hdrop
      obtain ⟨e, he, hcloser, hafter⟩ := ih _ hat
      exact ⟨e.cons t, by rw [he]; rfl, hcloser, hafter.trans hdrop⟩
    by_cases hpunct : t.isAnyPunct = true
    · obtain ⟨p, hp⟩ := exists_punct hpunct
      have hkind : t.kind = .punct p := by simpa [Token.isPunct] using hp
      have hclosers : closers (t :: ts) = _ := closers_of_punct hp
      unfold enclosed?
      simp only [hkind]
      by_cases hopens : p.opens = true
      · rw [if_pos hopens] at hclosers ⊢
        rw [hclosers, List.getElem?_tail] at h
        exact later h (by rw [hclosers, List.drop_tail])
      rw [if_neg hopens] at hclosers ⊢
      by_cases hcloses : p.closes = true
      · rw [if_pos hcloses] at hclosers ⊢
        rw [hclosers] at h
        cases depth with
        | zero =>
          obtain rfl := Option.some.inj h
          have hpq : p = q := by simpa [Token.isPunct, hkind] using hc
          exact ⟨⟨[], t, ts⟩, if_pos hpq, rfl, by rw [hclosers]; rfl⟩
        | succ depth => exact later h (by rw [hclosers]; rfl)
      · rw [if_neg hcloses] at hclosers ⊢
        rw [hclosers] at h
        exact later h (by rw [hclosers])
    · rw [Bool.not_eq_true] at hpunct
      have hclosers : closers (t :: ts) = _ := closers_of_not_punct hpunct
      rw [hclosers] at h
      unfold enclosed?
      unfold Token.isAnyPunct at hpunct
      split
      · next p hp => simp [hp] at hpunct
      · exact later h (by rw [hclosers])

/-- The group that a bracket opens. -/
theorem enclosed_of_paired (h : paired (t :: ts) = true) {p q : Punct} (hp : t.isPunct p = true)
    (hq : p.closer? = some q) :
    ∃ e, enclosed? q 0 ts = some e ∧ closers e.after = closers (t :: ts) ∧
      closers ts = e.closer :: closers (t :: ts) := by
  obtain ⟨c, hc, hclosers⟩ := closers_of_partner h hp hq
  obtain ⟨e, he, rfl, hafter⟩ := enclosed_of_closers 0 (by rw [hclosers]; rfl) hc
  exact ⟨e, he, by rw [hafter, hclosers]; rfl, hclosers⟩

/-- What follows a group that has been found has the closers of what follows its opening bracket. -/
theorem closers_after (h : paired (t :: ts) = true) {p q : Punct} (hp : t.isPunct p = true)
    (hq : p.closer? = some q) {e : Enclosed} (he : enclosed? q 0 ts = some e) :
    closers e.after = closers (t :: ts) := by
  obtain ⟨e', he', hafter, -⟩ := enclosed_of_paired h hp hq
  obtain rfl := Option.some.inj (he.symm.trans he')
  exact hafter

/-- A template argument list has whole groups only. -/
theorem closers_angled {depth : Nat} {a : Angled} (hpaired : paired ts = true)
    (h : angled? depth ts = some a) : closers a.after = closers ts := by
  fun_induction angled? depth ts generalizing a with
  | case1 => exact absurd h (by simp)
  | case2 depth t rest hkind ih =>
    obtain ⟨b, hb, hafter⟩ := after_of_map_prepend h
    rw [← hafter, ih (paired_tail hpaired) hb]
    exact (closers_of_plain (by simp [Token.isOneOf, hkind])).symm
  | case3 t rest hkind =>
    obtain rfl := Option.some.inj h
    exact (closers_of_plain (by simp [Token.isOneOf, hkind])).symm
  | case4 t rest hkind depth ih =>
    obtain ⟨b, hb, hafter⟩ := after_of_map_prepend h
    rw [← hafter, ih (paired_tail hpaired) hb]
    exact (closers_of_plain (by simp [Token.isOneOf, hkind])).symm
  | case5 => exact absurd h (by simp)
  | case6 depth t rest hkind e he ih =>
    obtain ⟨b, hb, hafter⟩ := after_of_map_prepend h
    -- a group in brackets is passed at once
    have hgroup := closers_after hpaired (p := .lparen) (by simp [Token.isPunct, hkind]) rfl he
    rw [← hafter, ih (paired_of_suffix (paired_tail hpaired) (suffix_enclosed he)) hb, hgroup]
  | case7 => exact absurd h (by simp)
  | case8 depth t rest hkind e he ih =>
    obtain ⟨b, hb, hafter⟩ := after_of_map_prepend h
    have hgroup := closers_after hpaired (p := .lbracket) (by simp [Token.isPunct, hkind]) rfl he
    rw [← hafter, ih (paired_of_suffix (paired_tail hpaired) (suffix_enclosed he)) hb, hgroup]
  | case9 => exact absurd h (by simp)
  | case10 depth t rest p _ _ hlparen hlbracket hkind hother ih =>
    obtain ⟨b, hb, hafter⟩ := after_of_map_prepend h
    rw [← hafter, ih (paired_tail hpaired) hb]
    refine (closers_of_plain ?_).symm
    simp only [Token.isOneOf, hkind]
    cases p <;> first | rfl | exact absurd rfl hlparen | exact absurd rfl hlbracket | exact absurd (by decide) hother
  | case11 depth t rest _ _ _ _ hpunct ih =>
    obtain ⟨b, hb, hafter⟩ := after_of_map_prepend h
    rw [← hafter, ih (paired_tail hpaired) hb]
    refine (closers_of_plain ?_).symm
    unfold Token.isOneOf
    split
    · next p hp => exact absurd hp (hpunct p)
    · rfl

/-! ## Braces that are passed over -/

theorem braces_of_closers_eq (h : closers us = closers ts) : braces us = braces ts := by
  unfold braces
  rw [h]

/-- Only braces make a difference to the braces. -/
theorem braces_cons (hpaired : paired (t :: ts) = true) (h : t.isOneOf [.lbrace, .rbrace] = false) :
    braces (t :: ts) = braces ts := by
  by_cases hpunct : t.isAnyPunct = true
  · obtain ⟨p, hp⟩ := exists_punct hpunct
    have hkind : t.kind = .punct p := by simpa [Token.isPunct] using hp
    by_cases hopens : p.opens = true
    · -- the partner goes too, and it is no brace either
      obtain ⟨q, hq, hqbrace⟩ : ∃ q, p.closer? = some q ∧ q ≠ .rbrace := by
        simp only [Token.isOneOf, hkind] at h
        cases p <;> first | exact ⟨_, rfl, by decide⟩ | exact absurd h (by decide) | exact absurd hopens (by decide)
      obtain ⟨c, hc, hclosers⟩ := closers_of_partner hpaired hp hq
      have hcbrace : c.isPunct .rbrace = false := by
        have hckind : c.kind = .punct q := by simpa [Token.isPunct] using hc
        simpa [Token.isPunct, hckind] using hqbrace
      unfold braces
      rw [hclosers, List.filter_cons_of_neg (by simp [hcbrace])]
    · unfold braces
      rw [closers_of_punct hp, if_neg hopens]
      split
      · have hnot : t.isPunct .rbrace = false := by
          simp only [Token.isOneOf, hkind] at h
          simp only [Token.isPunct, hkind]
          cases p <;> first | rfl | exact absurd h (by decide)
        rw [List.filter_cons_of_neg (by simp [hnot])]
      · rfl
  · exact braces_of_closers_eq (closers_of_not_punct (by simpa using hpunct))

theorem braces_closing (h : t.isPunct .rbrace = true) : braces (t :: ts) = t :: braces ts := by
  unfold braces
  rw [closers_of_punct h]
  exact List.filter_cons_of_pos h

/-- An opening brace takes the first of the braces behind it away. -/
theorem braces_opening (hpaired : paired (t :: ts) = true) (h : t.isPunct .lbrace = true) :
    ∃ c, (closers ts).head? = some c ∧ braces ts = c :: braces (t :: ts) := by
  obtain ⟨c, hc, hclosers⟩ := closers_of_partner hpaired h rfl
  refine ⟨c, by rw [hclosers]; rfl, ?_⟩
  unfold braces
  rw [hclosers]
  exact List.filter_cons_of_pos hc

theorem braces_dropWhile {p : Token → Bool} (hpaired : paired ts = true)
    (h : ∀ t, p t = true → t.isOneOf [.lbrace, .rbrace] = false) : braces (ts.dropWhile p) = braces ts := by
  induction ts with
  | nil => rfl
  | cons t ts ih =>
    rw [List.dropWhile_cons]
    split
    · next hp => rw [ih (paired_tail hpaired), braces_cons hpaired (h t hp)]
    · rfl

/-! ## Heads of statements -/

/-- The brackets that are open inside a head, of which `depth` are round or square: the closers that will
close them, all of them if the outermost has been closed. -/
structure OpenInside (depth : Nat) (inner : List Token) : Prop where
  depth : inner.countP (!·.isPunct .rbrace) = depth
  last : ∀ c, inner.getLast? = some c → c.isPunct .rbrace = false

theorem OpenInside.nil : OpenInside 0 [] := ⟨rfl, by simp⟩

theorem OpenInside.eq_nil {inner : List Token} (h : OpenInside 0 inner) : inner = [] := by
  cases hlast : inner.getLast? with
  | none => exact List.getLast?_eq_none_iff.mp hlast
  | some c =>
    have hbrace := List.countP_eq_zero.mp h.depth c (List.mem_of_getLast? hlast)
    rw [h.last c hlast] at hbrace
    exact absurd rfl hbrace

/-- Another bracket is opened. Where no bracket is open it is not a brace. -/
theorem OpenInside.open {depth : Nat} {inner : List Token} (h : OpenInside depth inner) {c : Token}
    (hc : c.isPunct .rbrace = true → 0 < depth) :
    OpenInside (if c.isPunct .rbrace then depth else depth + 1) (c :: inner) := by
  constructor
  · rw [List.countP_cons, h.depth]
    cases c.isPunct .rbrace <;> rfl
  · intro last hlast
    cases inner with
    | nil =>
      obtain rfl := Option.some.inj hlast
      by_cases hbrace : c.isPunct .rbrace = true
      · have hpos := hc hbrace
        rw [← h.depth] at hpos
        exact absurd hpos (by simp)
      · simpa using hbrace
    | cons c' inner =>
      rw [List.getLast?_cons_cons] at hlast
      exact h.last last hlast

/-- The innermost bracket is closed. -/
theorem OpenInside.close {depth : Nat} {c : Token} {inner : List Token} (h : OpenInside depth (c :: inner)) :
    OpenInside (if c.isPunct .rbrace then depth else depth - 1) inner := by
  constructor
  · have hdepth := h.depth
    rw [List.countP_cons] at hdepth
    cases hc : c.isPunct .rbrace
    · simp only [hc] at hdepth ⊢
      simp at hdepth
      simp
      omega
    · simp only [hc] at hdepth ⊢
      simpa using hdepth
  · intro last hlast
    refine h.last last ?_
    cases inner with
    | nil => exact absurd hlast (by simp)
    | cons c' inner =>
      rw [List.getLast?_cons_cons]
      exact hlast

namespace Head

variable {seen seen' : Seen} {last : Option Token} {depth depth' : Nat}

/-- What a token that belongs to a head does to the brackets that are counted. -/
theorem step_keep (h : step seen last depth t = .keep seen' depth') :
    (t.isOneOf [.lparen, .lbracket] = true ∧ depth' = depth + 1) ∨
      (t.isOneOf [.rparen, .rbracket] = true ∧ depth' = depth - 1) ∨
      (t.isOneOf [.lbrace, .rbrace] = true ∧ 0 < depth ∧ depth' = depth) ∨
      (t.isOneOf [.lparen, .lbracket, .lbrace, .rparen, .rbracket, .rbrace] = false ∧ depth' = depth) := by
  unfold step at h
  unfold Token.isOneOf
  split at h
  · next hkind => simp_all
  · next hkind => simp_all
  · next hkind => simp_all
  · next hkind => simp_all
  · next p _ _ _ _ hkind =>
    simp only [hkind]
    split at h
    · next hzero =>
      subst hzero
      cases p <;> simp_all
      split at h <;> simp at h
    · next hpos =>
      obtain ⟨-, rfl⟩ := Step.keep.inj h
      cases p <;> simp_all <;> omega
  · next hkind =>
    obtain ⟨-, rfl⟩ := Step.keep.inj h
    split
    · next p hp => exact absurd hp (hkind p)
    · simp

/-- What ends a head, or opens an initializer in it, stands outside its brackets. -/
theorem step_eq_initializer (h : step seen last depth t = .initializer) :
    t.isPunct .lbrace = true ∧ depth = 0 := by
  unfold step at h
  split at h
  case h_5 p _ _ _ _ hkind =>
    split at h
    · next hzero =>
      split at h
      case h_5 => exact ⟨by simp [Token.isPunct, hkind], hzero⟩
      all_goals exact absurd h (by simp)
    · exact absurd h (by simp)
  all_goals exact absurd h (by simp)

theorem step_eq_finish {ending : Ending} (h : step seen last depth t = .finish ending) :
    depth = 0 ∧ (ending = .semicolon ∧ t.isPunct .semicolon = true ∨
      ending = .scopeEnd ∧ t.isPunct .rbrace = true ∨ ending = .body t ∧ t.isPunct .lbrace = true) := by
  unfold step at h
  split at h
  case h_5 p _ _ _ _ hkind =>
    split at h
    · next hzero =>
      refine ⟨hzero, ?_⟩
      simp only [Token.isPunct, hkind]
      split at h
      case h_1 => exact Or.inl ⟨(Step.finish.inj h).symm, by simp⟩
      case h_2 => exact Or.inr (Or.inl ⟨(Step.finish.inj h).symm, by simp⟩)
      case h_5 =>
        split at h
        · exact absurd h (by simp)
        · exact Or.inr (Or.inr ⟨(Step.finish.inj h).symm, by simp⟩)
      all_goals exact absurd h (by simp)
    · exact absurd h (by simp)
  all_goals exact absurd h (by simp)

end Head

/-- A token that belongs to a head leaves the braces outside the brackets of the head as they are. -/
theorem closers_of_keep {seen seen' : Head.Seen} {last : Option Token} {depth depth' : Nat}
    {inner outer : List Token} (h : Head.step seen last depth t = .keep seen' depth')
    (hpaired : paired (t :: ts) = true) (hclosers : closers (t :: ts) = inner ++ outer)
    (hinner : OpenInside depth inner) :
    ∃ inner' outer', closers ts = inner' ++ outer' ∧ OpenInside depth' inner' ∧
      outer'.filter (·.isPunct .rbrace) = outer.filter (·.isPunct .rbrace) := by
  have opening : ∀ p q, t.isPunct p = true → p.closer? = some q →
      (q = .rbrace → 0 < depth) → depth' = (if q = .rbrace then depth else depth + 1) →
      ∃ inner' outer', closers ts = inner' ++ outer' ∧ OpenInside depth' inner' ∧
        outer'.filter (·.isPunct .rbrace) = outer.filter (·.isPunct .rbrace) := by
    intro p q hp hq hpos hdepth
    obtain ⟨c, hc, hpartner⟩ := closers_of_partner hpaired hp hq
    have hkind : c.kind = .punct q := by simpa [Token.isPunct] using hc
    have hbrace : c.isPunct .rbrace = decide (q = .rbrace) := by
      rw [Bool.eq_iff_iff]
      simp [Token.isPunct, hkind]
    refine ⟨c :: inner, outer, by rw [hpartner, hclosers]; rfl, ?_, rfl⟩
    have hopen := hinner.open (c := c) fun h => hpos (by simpa [hbrace] using h)
    simpa [hbrace, hdepth] using hopen
  have closing : ∀ p, t.isPunct p = true → p.opens = false → p.closes = true →
      (p = .rbrace → 0 < depth) → depth' = (if p = .rbrace then depth else depth - 1) →
      ∃ inner' outer', closers ts = inner' ++ outer' ∧ OpenInside depth' inner' ∧
        outer'.filter (·.isPunct .rbrace) = outer.filter (·.isPunct .rbrace) := by
    intro p hp hopens hcloses hpos hdepth
    have hkind : t.kind = .punct p := by simpa [Token.isPunct] using hp
    have hbrace : t.isPunct .rbrace = decide (p = .rbrace) := by
      rw [Bool.eq_iff_iff]
      simp [Token.isPunct, hkind]
    rw [closers_of_punct hp, hopens, if_neg Bool.false_ne_true, if_pos hcloses] at hclosers
    cases inner with
    | nil =>
      -- a bracket from in front of the head is closed
      have hzero : depth = 0 := hinner.depth.symm
      have hne : p ≠ .rbrace := fun heq => absurd (hpos heq) (by omega)
      rw [List.nil_append] at hclosers
      refine ⟨[], closers ts, rfl, ?_, ?_⟩
      · rw [hdepth, if_neg hne, hzero]
        exact .nil
      · rw [← hclosers, List.filter_cons_of_neg (by simp [hbrace, hne])]
    | cons c inner =>
      obtain ⟨rfl, hrest⟩ := List.cons.inj hclosers
      have hclose := hinner.close
      exact ⟨inner, outer, hrest, by simpa [hbrace, hdepth] using hclose, rfl⟩
  rcases Head.step_keep h with ⟨ht, rfl⟩ | ⟨ht, rfl⟩ | ⟨ht, hpos, rfl⟩ | ⟨ht, rfl⟩
  · rcases Token.isOneOf_two ht with ht | ht
    · exact opening .lparen .rparen ht rfl (by simp) rfl
    · exact opening .lbracket .rbracket ht rfl (by simp) rfl
  · rcases Token.isOneOf_two ht with ht | ht
    · exact closing .rparen ht rfl rfl (by simp) rfl
    · exact closing .rbracket ht rfl rfl (by simp) rfl
  · rcases Token.isOneOf_two ht with ht | ht
    · exact opening .lbrace .rbrace ht rfl (fun _ => hpos) rfl
    · exact closing .rbrace ht rfl rfl (fun _ => hpos) rfl
  · rw [closers_of_plain ht] at hclosers
    exact ⟨inner, outer, hclosers, hinner, rfl⟩

/-- How a head that has been read leaves the braces of the tokens, of which `outer` are those that no bracket
inside the head has opened: they are the braces that are left over, without the one of a body. -/
def Head.Leaves (h : Head) (outer : List Token) : Prop :=
  match h.ending with
  | .body _ => ∃ c, (closers h.rest).head? = some c ∧ braces h.rest = c :: outer
  | _ => braces h.rest = outer

theorem Head.Leaves.prepend {h : Head} {outer : List Token} (hleaves : h.Leaves outer) (ts : List Token) :
    (h.prepend ts).Leaves outer := hleaves

/-- A head leaves the braces alone, but for the one of a body. -/
theorem leaves_readFrom (seen : Head.Seen) (last : Option Token) (depth : Nat) (ts : List Token)
    {inner outer : List Token} (hpaired : paired ts = true) (hclosers : closers ts = inner ++ outer)
    (hinner : OpenInside depth inner) :
    (Head.readFrom seen last depth ts).Leaves (outer.filter (·.isPunct .rbrace)) := by
  fun_induction Head.readFrom seen last depth ts generalizing inner outer with
  | case1 =>
    obtain ⟨-, rfl⟩ := List.append_eq_nil_iff.mp hclosers.symm
    rfl
  | case2 seen last depth t rest seen' depth' hstep ih =>
    obtain ⟨inner', outer', hrest, hopen, hsame⟩ := closers_of_keep hstep hpaired hclosers hinner
    rw [← hsame]
    exact (ih (paired_tail hpaired) hrest hopen).prepend [t]
  | case3 seen last depth t rest hstep =>
    obtain ⟨rfl, -⟩ := Head.step_eq_finish hstep
    rw [hinner.eq_nil, List.nil_append] at hclosers
    rw [← hclosers]
    rfl
  | case4 seen last depth t rest ending hnot hstep =>
    obtain ⟨rfl, hend⟩ := Head.step_eq_finish hstep
    rw [hinner.eq_nil, List.nil_append] at hclosers
    rw [← hclosers]
    rcases hend with ⟨rfl, ht⟩ | ⟨rfl, -⟩ | ⟨rfl, ht⟩
    · exact (braces_of_closers_eq (closers_of_punct ht)).symm
    · exact absurd rfl hnot
    · exact braces_opening hpaired ht
  | case5 seen last depth t rest hstep hnone =>
    obtain ⟨ht, -⟩ := Head.step_eq_initializer hstep
    obtain ⟨e, he, -⟩ := enclosed_of_paired hpaired ht rfl
    exact absurd (hnone.symm.trans he) (by simp)
  | case6 seen last depth t rest hstep e he ih =>
    obtain ⟨ht, rfl⟩ := Head.step_eq_initializer hstep
    have hafter := closers_after hpaired ht rfl he
    refine (ih (paired_of_suffix (paired_tail hpaired) (suffix_enclosed he)) ?_ hinner).prepend _
    rw [hafter, hclosers]

theorem leaves_read (h : paired ts = true) : (Head.read ts).Leaves (braces ts) :=
  leaves_readFrom {} none 0 ts h (List.nil_append _).symm .nil

/-- A statement that is passed over leaves the braces alone. -/
theorem braces_afterStatement (h : paired ts = true) : braces (afterStatement ts) = braces ts := by
  have hleaves := leaves_read h
  unfold Head.Leaves at hleaves
  unfold afterStatement Head.afterStatement
  cases hending : (Head.read ts).ending with
  | body brace =>
    rw [hending] at hleaves
    obtain ⟨c, hc, hbraces⟩ := hleaves
    have hbrace : c.isPunct .rbrace = true := by
      have hmem : c ∈ braces (Head.read ts).rest := by
        rw [hbraces]
        exact List.mem_cons_self
      exact (List.mem_filter.mp hmem).2
    obtain ⟨cs, hcs⟩ := List.head?_eq_some_iff.mp hc
    obtain ⟨e, he, -, hafter⟩ := enclosed_of_closers 0 (by rw [hcs]; rfl) hbrace
    have hbraced : braced? (Head.read ts).rest = some e := he
    dsimp only
    rw [hbraced]
    unfold braces at hbraces ⊢
    rw [hcs, List.filter_cons, if_pos hbrace] at hbraces
    show (closers e.after).filter _ = _
    rw [hafter, hcs]
    exact (List.cons.inj hbraces).2
  | semicolon | scopeEnd | fileEnd =>
    rw [hending] at hleaves
    exact hleaves

/-! ## Attributes, bases and labels -/

theorem closers_afterAttribute {after : List Token} (hpaired : paired ts = true)
    (h : afterAttribute? ts = some after) : closers after = closers ts := by
  unfold afterAttribute? at h
  split at h
  · next t u rest =>
    split at h
    · next hbrackets =>
      rw [Bool.and_eq_true] at hbrackets
      obtain ⟨e, he, rfl⟩ := Option.map_eq_some_iff.mp h
      exact closers_after hpaired hbrackets.1 rfl he
    · split at h
      · next hword =>
        rw [Bool.and_eq_true] at hword
        obtain ⟨e, he, rfl⟩ := Option.map_eq_some_iff.mp h
        rw [closers_after (paired_tail hpaired) hword.2 rfl he]
        refine (closers_of_not_punct ?_).symm
        rcases (Bool.or_eq_true _ _).mp hword.1 with hkeyword | hword
        · exact Token.isAnyPunct_of_isKeyword hkeyword
        · obtain ⟨word, -, ht⟩ := List.any_eq_true.mp hword
          exact Token.isAnyPunct_of_isWord ht
      · exact absurd h (by simp)
  · exact absurd h (by simp)

theorem closers_specifiersFrom (s : Specifiers) (hpaired : paired ts = true) :
    closers (specifiersFrom s ts).2 = closers ts := by
  fun_induction specifiersFrom s ts with
  | case1 => rfl
  | case2 s t rest k hk ih =>
    rw [ih (paired_tail hpaired)]
    refine (closers_of_not_punct ?_).symm
    unfold Token.specifier? at hk
    split at hk
    · next k' hkind => simp [Token.isAnyPunct, hkind]
    · exact absurd hk (by simp)
  | case3 s t rest hk after hafter ih =>
    rw [ih (paired_of_suffix hpaired (suffix_afterAttribute hafter)), closers_afterAttribute hpaired hafter]
  | case4 => rfl

theorem closers_afterSpecifiers (hpaired : paired ts = true) : closers (afterSpecifiers ts) = closers ts :=
  closers_specifiersFrom {} hpaired

namespace Extraction

theorem closers_of_isIdentifier (h : t.isIdentifier = true) : closers (t :: ts) = closers ts :=
  closers_of_not_punct (isAnyPunct_of_isIdentifier h)

theorem closers_afterExportMacros (ts : List Token) : closers (afterExportMacros ts) = closers ts := by
  fun_induction afterExportMacros ts with
  | case1 t u rest h ih =>
    rw [Bool.and_eq_true, Bool.and_eq_true] at h
    rw [ih, closers_of_isIdentifier h.1.1]
  | case2 => rfl
  | case3 => rfl

theorem closers_lastSegment (name : Token) (ts : List Token) : closers (lastSegment name ts).2 = closers ts := by
  fun_induction lastSegment name ts with
  | case1 name c u rest h ih =>
    rw [Bool.and_eq_true] at h
    rw [ih, closers_of_punct h.1, closers_of_isIdentifier h.2]
    rfl
  | case2 => rfl
  | case3 => rfl

theorem braces_afterBases (hpaired : paired ts = true) : braces (afterBases ts) = braces ts := by
  unfold afterBases
  split
  · refine braces_dropWhile hpaired fun t ht => ?_
    rw [Bool.not_eq_true'] at ht
    exact Token.isOneOf_subset (by decide) ht
  · rfl

theorem closers_afterFinal (ts : List Token) : closers (afterFinal ts) = closers ts := by
  unfold afterFinal
  split
  · next h =>
    cases ts with
    | nil => rfl
    | cons t ts => exact (closers_of_not_punct (Token.isAnyPunct_of_isWord h)).symm
  · rfl

theorem braces_finish {name : Option Token} {isSpecialization isScopedEnum : Bool} {head : TypeHead}
    (hpaired : paired ts = true) (h : TypeHead.finish? name isSpecialization isScopedEnum ts = some head) :
    braces (head.terminator :: head.rest) = braces ts ∧ head.terminator :: head.rest <:+ ts := by
  unfold TypeHead.finish? at h
  have hbases := braces_afterBases hpaired
  have hsuffix := suffix_afterBases ts
  split at h
  · exact absurd h (by simp)
  · next terminator rest hafter =>
    obtain rfl := Option.some.inj h
    rw [hafter] at hbases hsuffix
    exact ⟨hbases, hsuffix⟩

theorem braces_classHead {head : TypeHead} (hpaired : paired ts = true) (h : classHead? ts = some head) :
    braces (head.terminator :: head.rest) = braces ts ∧ head.terminator :: head.rest <:+ ts := by
  have hstart : closers (afterExportMacros (afterSpecifiers ts)) = closers ts := by
    rw [closers_afterExportMacros, closers_afterSpecifiers hpaired]
  have hsuffix := (suffix_afterExportMacros (afterSpecifiers ts)).trans (suffix_specifiersFrom {} ts)
  -- whatever has been passed over, the rest is an end of the tokens with the same closers
  have finish : ∀ {name : Option Token} {isSpecialization : Bool} {us : List Token}, us <:+ ts →
      closers us = closers ts → TypeHead.finish? name isSpecialization false (afterFinal us) = some head →
      braces (head.terminator :: head.rest) = braces ts ∧ head.terminator :: head.rest <:+ ts := by
    intro name isSpecialization us hus hsame h
    have hfinal := (suffix_afterFinal us).trans hus
    obtain ⟨hbraces, hrest⟩ := braces_finish (paired_of_suffix hpaired hfinal) h
    exact ⟨hbraces.trans (braces_of_closers_eq ((closers_afterFinal us).trans hsame)), hrest.trans hfinal⟩
  unfold classHead? at h
  split at h
  · exact absurd h (by simp)
  · next t rest hrest =>
    rw [hrest] at hstart hsuffix
    split at h
    · next hid =>
      dsimp only at h
      have hname : closers (lastSegment t rest).2 = closers ts := by
        rw [closers_lastSegment, ← hstart, closers_of_isIdentifier hid]
      have hnameSuffix := (suffix_lastSegment t rest).trans ((List.suffix_cons t rest).trans hsuffix)
      split at h
      · next hless =>
        split at h
        · exact absurd h (by simp)
        · next a ha =>
          generalize (lastSegment t rest).2 = after at *
          cases after with
          | nil => exact absurd hless (by simp)
          | cons u after =>
            have hafter := (List.suffix_cons u after).trans hnameSuffix
            rw [closers_of_punct hless] at hname
            refine finish ((suffix_angled ha).trans hafter) ?_ h
            rw [closers_angled (paired_of_suffix hpaired hafter) ha]
            exact hname
      · exact finish hnameSuffix hname h
    · exact finish hsuffix hstart h

theorem braces_enumHeadFrom {isScoped : Bool} {head : TypeHead} (hpaired : paired ts = true)
    (h : enumHeadFrom? isScoped ts = some head) :
    braces (head.terminator :: head.rest) = braces ts ∧ head.terminator :: head.rest <:+ ts := by
  have hstart := closers_afterSpecifiers hpaired
  have hsuffix : afterSpecifiers ts <:+ ts := suffix_specifiersFrom {} ts
  unfold enumHeadFrom? at h
  split at h
  · exact absurd h (by simp)
  · next t rest hrest =>
    rw [hrest] at hstart hsuffix
    split at h
    · next hid =>
      have hbehind := (List.suffix_cons t rest).trans hsuffix
      obtain ⟨hbraces, hfinish⟩ := braces_finish (paired_of_suffix hpaired hbehind) h
      rw [closers_of_isIdentifier hid] at hstart
      exact ⟨hbraces.trans (braces_of_closers_eq hstart), hfinish.trans hbehind⟩
    · obtain ⟨hbraces, hfinish⟩ := braces_finish (paired_of_suffix hpaired hsuffix) h
      exact ⟨hbraces.trans (braces_of_closers_eq hstart), hfinish.trans hsuffix⟩

/-- The head of a class or an enumeration leaves the braces alone. -/
theorem braces_typeHead {keyword : Token} {head : TypeHead} (hpaired : paired ts = true)
    (h : typeHead? keyword ts = some head) :
    braces (head.terminator :: head.rest) = braces ts ∧ head.terminator :: head.rest <:+ ts := by
  unfold typeHead? at h
  split at h
  · unfold enumHead? at h
    split at h
    · next hscoped =>
      cases ts with
      | nil => exact absurd hscoped (by simp)
      | cons t ts =>
        have hword : t.isAnyPunct = false :=
          ((Bool.or_eq_true _ _).mp hscoped).elim Token.isAnyPunct_of_isKeyword Token.isAnyPunct_of_isKeyword
        obtain ⟨hbraces, hsuffix⟩ := braces_enumHeadFrom (paired_tail hpaired) h
        exact ⟨hbraces.trans (braces_of_closers_eq (closers_of_not_punct hword).symm),
          hsuffix.trans (List.suffix_cons t ts)⟩
    · exact braces_enumHeadFrom hpaired h
  · exact braces_classHead hpaired h

theorem closers_afterNamespaceSign {after : List Token} (h : afterNamespaceSign? ts = some after) :
    closers after = closers ts := by
  unfold afterNamespaceSign? at h
  split at h
  · exact absurd h (by simp)
  · next c rest =>
    split at h
    · next hsign =>
      obtain rfl := Option.some.inj h
      rw [closers_of_punct hsign]
      split
      · next hinline =>
        cases rest with
        | nil => exact absurd hinline (by simp)
        | cons u rest => exact (closers_of_not_punct (Token.isAnyPunct_of_isKeyword hinline)).symm
      · rfl
    · exact absurd h (by simp)

theorem closers_namespaceNamesAt (ts : List Token) : closers (namespaceNamesAt ts).2 = closers ts := by
  fun_induction namespaceNamesAt ts with
  | case1 => rfl
  | case2 t rest hid next hnext ih => rw [ih, closers_afterNamespaceSign hnext, closers_of_isIdentifier hid]
  | case3 t rest hid hnext => exact (closers_of_isIdentifier hid).symm
  | case4 => rfl

theorem braces_afterLabel (hpaired : paired ts = true) : braces (afterLabel ts) = braces ts := by
  have hdrop := braces_dropWhile (p := fun t => !t.isOneOf [.colon, .semicolon, .lbrace, .rbrace]) hpaired
    fun t ht => by
      rw [Bool.not_eq_true'] at ht
      exact Token.isOneOf_subset (by decide) ht
  unfold afterLabel
  split
  · next hnil => rw [← hdrop, hnil]
  · next t rest hrest =>
    rw [hrest] at hdrop
    split
    · next hcolon => rw [← hdrop, braces_of_closers_eq (closers_of_punct hcolon)]
    · exact hdrop

/-- An enumerator leaves the braces alone: inside it each closing bracket closes an opening one. -/
theorem braces_afterEnumerator {depth : Nat} {inner outer : List Token} (hpaired : paired ts = true)
    (hclosers : closers ts = inner ++ outer) (hdepth : inner.length = depth) :
    braces (afterEnumerator depth ts) = outer.filter (·.isPunct .rbrace) := by
  induction ts generalizing depth inner outer with
  | nil =>
    obtain ⟨-, rfl⟩ := List.append_eq_nil_iff.mp hclosers.symm
    rfl
  | cons t ts ih =>
    unfold afterEnumerator
    split
    · next hopens =>
      -- what closes the bracket comes first from here on
      obtain ⟨p, hp, hpt⟩ := Token.exists_of_isOneOf hopens
      obtain ⟨q, hq⟩ : ∃ q, p.closer? = some q := by
        simp only [List.mem_cons, List.not_mem_nil, or_false] at hp
        rcases hp with rfl | rfl | rfl <;> exact ⟨_, rfl⟩
      obtain ⟨c, -, hpartner⟩ := closers_of_partner hpaired hpt hq
      have hinner : closers ts = (c :: inner) ++ outer := by rw [hpartner, hclosers, List.cons_append]
      refine ih (paired_tail hpaired) hinner ?_
      rw [List.length_cons, hdepth]
    split
    · next hcloses =>
      -- a closing bracket that is no brace goes with the innermost opening one
      have hnot : t.isPunct .rbrace = false := by
        simp only [Token.isOneOf, Token.isPunct] at hcloses ⊢
        split at hcloses
        · next p hp =>
          rw [hp]
          cases p <;> first | rfl | exact absurd hcloses (by decide)
        · exact absurd hcloses (by simp)
      have hfront : closers (t :: ts) = t :: closers ts := by
        rcases Token.isOneOf_two hcloses with ht | ht <;> exact closers_of_punct ht
      rw [hfront] at hclosers
      cases inner with
      | nil =>
        rw [List.nil_append] at hclosers
        rw [← hclosers, List.filter_cons_of_neg (by simp [hnot])]
        refine ih (paired_tail hpaired) (List.nil_append _).symm ?_
        rw [← hdepth]
        rfl
      | cons c inner =>
        obtain ⟨-, hrest⟩ := List.cons.inj hclosers
        refine ih (paired_tail hpaired) hrest ?_
        rw [← hdepth]
        rfl
    split
    · next hbrace =>
      -- a brace that closes nothing inside is the end
      cases depth with
      | zero =>
        rw [List.length_eq_zero_iff.mp hdepth, List.nil_append] at hclosers
        rw [← hclosers]
        rfl
      | succ depth =>
        rw [closers_of_punct hbrace] at hclosers
        cases inner with
        | nil => exact absurd hdepth (by simp)
        | cons c inner =>
          obtain ⟨-, hrest⟩ := List.cons.inj hclosers
          exact ih (paired_tail hpaired) hrest (Nat.succ.inj hdepth)
    · next hopens hcloses hbrace =>
      -- no other token is a closing one
      have hplain : closers (t :: ts) = closers ts := by
        refine closers_of_plain ?_
        simp only [Bool.not_eq_true, Token.isOneOf, Token.isPunct] at hopens hcloses hbrace ⊢
        split
        · next p hp =>
          simp only [hp] at hopens hcloses hbrace
          cases p <;> first | rfl | exact absurd hopens (by decide) | exact absurd hcloses (by decide) |
            exact absurd hbrace (by decide)
        · rfl
      rw [hplain] at hclosers
      split
      · next hcomma =>
        rw [Bool.and_eq_true, beq_iff_eq] at hcomma
        rw [hcomma.2] at hdepth
        rw [List.length_eq_zero_iff.mp hdepth, List.nil_append] at hclosers
        rw [← hclosers]
        rfl
      · exact ih (paired_tail hpaired) hclosers hdepth

end Extraction

end HouseStyle
