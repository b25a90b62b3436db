import HouseStyle.Proofs.InOrder
import HouseStyle.Proofs.PlacedReports

/-!
# What is released by `delete`

A raw pointer that is reported as released with `delete` should be deleted itself: the name of the pointer, as
it is or behind `this->`, is the whole operand of a `delete` or `delete[]` in the code where the pointer can be
seen. The rule reads backwards from a use of the name and finds the `delete`, but it does not look at what comes
behind the name. In `delete p->next` the name is the start of a longer operand, and what is deleted is not `p`.

A `Deletion` is a `delete` with the use of a name behind it, and it is whole (`Deletion.IsWhole`) if nothing
reads on from the name.

- `release_eq_some_iff`: the tokens in front of a use that make it deleted.
- `evidenceFrom_eq_some_iff`: what is reported is shown by the first use that shows anything.
- `reported_of_deletion`: no deletion is missed.
- `deleted_itself_iff`: behind each report there is a deletion; the pointer itself is deleted if that deletion
  is whole or a whole one follows.
-/

namespace HouseStyle.OwnershipRule

/-! ## Tokens in front of a use -/

/-- The brackets of `delete[]`, or nothing. -/
def AreBounds (ts : List Token) : Prop :=
  ts = [] ∨ ∃ p q, ts = [p, q] ∧ p.isPunct .lbracket = true ∧ q.isPunct .rbracket = true

/-- The tokens of `this->`, or nothing. -/
def AreThis (ts : List Token) : Prop :=
  ts = [] ∨ ∃ p q, ts = [p, q] ∧ p.isKeyword .thisKw = true ∧ q.isPunct .arrow = true

theorem exists_this (before : List Token) :
    ∃ object, AreThis object ∧ before.reverse = (withoutThis before).reverse ++ object := by
  unfold withoutThis
  split
  · next p q before =>
    split
    · next h =>
      rw [Bool.and_eq_true] at h
      exact ⟨[q, p], Or.inr ⟨q, p, rfl, h.2, h.1⟩, by simp⟩
    · exact ⟨[], Or.inl rfl, (List.append_nil _).symm⟩
  · exact ⟨[], Or.inl rfl, (List.append_nil _).symm⟩

theorem exists_bounds (before : List Token) :
    ∃ bounds, AreBounds bounds ∧ before.reverse = (withoutBounds before).reverse ++ bounds := by
  unfold withoutBounds
  split
  · next p q before =>
    split
    · next h =>
      rw [Bool.and_eq_true] at h
      exact ⟨[q, p], Or.inr ⟨q, p, rfl, h.2, h.1⟩, by simp⟩
    · exact ⟨[], Or.inl rfl, (List.append_nil _).symm⟩
  · exact ⟨[], Or.inl rfl, (List.append_nil _).symm⟩

/-- A token of one kind is of no other kind. -/
theorem isPunct_of_isKeyword {t : Token} {k : Keyword} (h : t.isKeyword k = true) (p : Punct) :
    t.isPunct p = false := by
  unfold Token.isKeyword at h
  unfold Token.isPunct
  rw [eq_of_beq h]
  rfl

theorem isPunct_of_isPunct {t : Token} {p q : Punct} (h : t.isPunct p = true) (hne : p ≠ q) :
    t.isPunct q = false := by
  unfold Token.isPunct at h ⊢
  rw [eq_of_beq h]
  exact beq_eq_false_iff_ne.mpr fun heq => hne (TokenKind.punct.inj heq)

variable {f : SourceFile} {e : Entity} {isMember : Bool} {before after ts : List Token} {d use : Token}
  {found : Evidence}

theorem withoutThis_of_head {p : Token} (h : p.isPunct .arrow = false) (rest : List Token) :
    withoutThis (p :: rest) = p :: rest := by
  cases rest with
  | nil => rfl
  | cons q rest => simp [withoutThis, h]

theorem withoutBounds_of_head {p : Token} (h : p.isPunct .rbracket = false) (rest : List Token) :
    withoutBounds (p :: rest) = p :: rest := by
  cases rest with
  | nil => rfl
  | cons q rest => simp [withoutBounds, h]

/-- The tokens between a `delete` and a use behind it are passed over, read backwards. -/
theorem without_of_deletion {front bounds object : List Token} (hd : d.isKeyword .deleteKw = true)
    (hbounds : AreBounds bounds) (hobject : AreThis object) :
    withoutBounds (withoutThis (front ++ d :: (bounds ++ object)).reverse) = d :: front.reverse := by
  have hthis : withoutThis (front ++ d :: (bounds ++ object)).reverse = (front ++ d :: bounds).reverse := by
    rcases hobject with rfl | ⟨p, q, rfl, hp, hq⟩
    · rw [List.append_nil]
      rcases hbounds with rfl | ⟨p, q, rfl, -, hq⟩
      · simpa using withoutThis_of_head (isPunct_of_isKeyword hd _) _
      · simpa using withoutThis_of_head (isPunct_of_isPunct hq (by decide)) _
    · simp [withoutThis, hp, hq]
  rw [hthis]
  rcases hbounds with rfl | ⟨p, q, rfl, hp, hq⟩
  · simpa using withoutBounds_of_head (isPunct_of_isKeyword hd _) _
  · simp [withoutBounds, hp, hq]

/-- A use is released by a `delete` if that stands in front of it, with the brackets and `this->` that may be in
between. -/
theorem release_eq_some_iff (hd : d.isKeyword .deleteKw = true) :
    release? before after = some d ↔
      ∃ front bounds object, AreBounds bounds ∧ AreThis object ∧
        before.reverse = front ++ d :: (bounds ++ object) := by
  constructor
  · intro h
    obtain ⟨object, hobject, hbefore⟩ := exists_this before
    obtain ⟨bounds, hbounds, hwithout⟩ := exists_bounds (withoutThis before)
    unfold release? at h
    split at h
    next => exact absurd h (by simp)
    next p rest heq =>
      have hp : p = d := by
        split at h
        · exact Option.some.inj h
        · split at h
          next => exact absurd h (by simp)
          next q more =>
            split at h
            · next hfree =>
              -- a word is no keyword
              obtain rfl := Option.some.inj h
              simp only [Bool.and_eq_true, Token.isWord, Token.isKeyword, beq_iff_eq] at hfree hd
              exact absurd (hfree.1.2.1.symm.trans hd) (by simp)
            · exact absurd h (by simp)
      rw [heq, hp] at hwithout
      exact ⟨rest.reverse, bounds, object, hbounds, hobject, by rw [hbefore, hwithout]; simp⟩
  · rintro ⟨front, bounds, object, hbounds, hobject, hbefore⟩
    rw [← List.reverse_reverse before, hbefore]
    unfold release?
    rw [without_of_deletion hd hbounds hobject]
    dsimp only
    rw [if_pos hd]

/-- A use that is deleted is one of the pointer itself and no member of something else. -/
theorem isOwnUse_of_deletion {front bounds object : List Token} (hd : d.isKeyword .deleteKw = true)
    (hbounds : AreBounds bounds) (hobject : AreThis object) :
    isOwnUse (front ++ d :: (bounds ++ object)).reverse = true := by
  rcases hobject with rfl | ⟨p, q, rfl, hp, hq⟩
  · rcases hbounds with rfl | ⟨p, q, rfl, -, hq⟩
    · simp [isOwnUse, isPunct_of_isKeyword hd]
    · have hdot : q.isPunct .dot = false := isPunct_of_isPunct hq (by decide)
      have harrow : q.isPunct .arrow = false := isPunct_of_isPunct hq (by decide)
      simp [isOwnUse, hdot, harrow]
  · have hdot : q.isPunct .dot = false := isPunct_of_isPunct hq (by decide)
    simp [isOwnUse, hp, hdot]

/-! ## The first use that shows something -/

/-- What a token of the code shows of a pointer; only its own uses show anything. -/
def sign? (e : Entity) (isMember : Bool) (before : List Token) (t : Token) (after : List Token) :
    Option Evidence :=
  if t.isIdentifier && t.text == e.name && isOwnUse before then evidenceAt? e isMember before t after else none

theorem evidenceFrom_cons (e : Entity) (isMember : Bool) (before : List Token) (t : Token) (ts : List Token) :
    evidenceFrom? e isMember before (t :: ts) =
      (sign? e isMember before t ts).or (evidenceFrom? e isMember (t :: before) ts) := rfl

/-- The evidence is what the first token shows that shows anything. -/
theorem evidenceFrom_eq_some_iff :
    evidenceFrom? e isMember before ts = some found ↔
      ∃ pre t post, ts = pre ++ t :: post ∧ sign? e isMember (pre.reverse ++ before) t post = some found ∧
        ∀ pre' t' post', pre = pre' ++ t' :: post' →
          sign? e isMember (pre'.reverse ++ before) t' (post' ++ t :: post) = none := by
  induction ts generalizing before with
  | nil => simp [evidenceFrom?]
  | cons u us ih =>
    rw [evidenceFrom_cons, Option.or_eq_some_iff]
    constructor
    · rintro (h | ⟨hnone, h⟩)
      · exact ⟨[], u, us, rfl, h, fun pre' t' post' heq => absurd heq (by simp)⟩
      · obtain ⟨pre, t, post, rfl, hsign, hfirst⟩ := ih.mp h
        refine ⟨u :: pre, t, post, rfl, by simpa using hsign, fun pre' t' post' heq => ?_⟩
        cases pre' with
        | nil =>
          obtain ⟨rfl, rfl⟩ := List.cons.inj heq
          exact hnone
        | cons v pre' =>
          obtain ⟨rfl, rfl⟩ := List.cons.inj heq
          simpa using hfirst pre' t' post' rfl
    · rintro ⟨pre, t, post, heq, hsign, hfirst⟩
      cases pre with
      | nil =>
        obtain ⟨rfl, rfl⟩ := List.cons.inj heq
        exact Or.inl hsign
      | cons v pre =>
        obtain ⟨rfl, rfl⟩ := List.cons.inj heq
        refine Or.inr ⟨hfirst [] u pre rfl, ih.mpr ⟨pre, t, post, rfl, by simpa using hsign, ?_⟩⟩
        intro pre' t' post' hpre
        simpa using hfirst (u :: pre') t' post' (by rw [hpre]; rfl)

/-- No token that shows something is missed. -/
theorem isSome_evidenceFrom_of_sign (pre : List Token) {t : Token} {post : List Token}
    (h : (sign? e isMember (pre.reverse ++ before) t post).isSome = true) :
    (evidenceFrom? e isMember before (pre ++ t :: post)).isSome = true := by
  induction pre generalizing before with
  | nil =>
    rw [List.nil_append, evidenceFrom_cons, Option.isSome_or]
    exact Bool.or_eq_true_iff.mpr (Or.inl h)
  | cons u pre ih =>
    rw [List.cons_append, evidenceFrom_cons, Option.isSome_or]
    exact Bool.or_eq_true_iff.mpr (Or.inr (ih (by simpa using h)))

/-! ## The code where a pointer can be seen -/

/-- Whether an entity can be seen at a token of the code. -/
def isVisible (f : SourceFile) (e : Entity) (t : Token) : Bool :=
  f.model.isDataMember e ||
    (f.model.scope? e.scope).any fun s => decide (s.start ≤ t.start) && decide (t.start < s.stop)

theorem visibleCode_eq (f : SourceFile) (e : Entity) : visibleCode f e = f.code.filter (isVisible f e) := by
  unfold visibleCode isVisible
  split
  · next h => simp [h]
  · next h =>
    rw [Bool.not_eq_true] at h
    rw [h]
    cases f.model.scope? e.scope with
    | none => simp
    | some s => rfl

/-- What passes a test that nothing passes any more once something has failed it is a front of the list. -/
theorem filter_append_filter_of_pairwise {p : Token → Bool} {ts : List Token}
    (h : ts.Pairwise fun t u => p u = true → p t = true) : ts.filter p ++ ts.filter (fun t => !p t) = ts := by
  induction ts with
  | nil => rfl
  | cons t ts ih =>
    obtain ⟨hhead, htail⟩ := List.pairwise_cons.mp h
    cases hp : p t with
    | true => simp [hp, ih htail]
    | false =>
      have hfail : ∀ u ∈ ts, p u = false := fun u hu =>
        Bool.eq_false_iff.mpr fun hpu => absurd (hhead u hu hpu) (by simp [hp])
      have hnone : ts.filter p = [] := List.filter_eq_nil_iff.mpr fun u hu => by simp [hfail u hu]
      have hall : ts.filter (fun u => !p u) = ts := List.filter_eq_self.mpr fun u hu => by simp [hfail u hu]
      simp [hp, hnone, hall]

/-- The code where an entity can be seen is one stretch of the code. -/
theorem exists_append_visibleCode (hcode : f.code.Pairwise fun t u => t.start ≤ u.start) (e : Entity) :
    ∃ l r, f.code = l ++ visibleCode f e ++ r ∧ l.filter (isVisible f e) = [] := by
  by_cases hmember : f.model.isDataMember e = true
  · exact ⟨[], [], by simp [visibleCode, hmember], rfl⟩
  rw [Bool.not_eq_true] at hmember
  cases hscope : f.model.scope? e.scope with
  | none => exact ⟨f.code, [], by simp [visibleCode, hmember, hscope], by simp [isVisible, hmember, hscope]⟩
  | some s =>
    have hbefore : ∀ offset : Nat, ∀ {ts : List Token}, List.Sublist ts f.code →
        ts.filter (fun t => decide (t.start < offset)) ++ ts.filter (fun t => !decide (t.start < offset)) = ts :=
      fun offset ts hts => filter_append_filter_of_pairwise <| (hcode.sublist hts).imp fun hle hlt => by
        rw [decide_eq_true_eq] at hlt ⊢
        omega
    have hvisible : visibleCode f e =
        (f.code.filter fun t => decide (t.start < s.stop)).filter fun t => !decide (t.start < s.start) := by
      simp only [visibleCode, hmember, hscope, List.filter_filter, Bool.false_eq_true, if_false]
      refine List.filter_congr fun t _ => ?_
      rw [← decide_not]
      simp only [Nat.not_lt]
    refine ⟨(f.code.filter fun t => decide (t.start < s.stop)).filter fun t => decide (t.start < s.start),
      f.code.filter fun t => !decide (t.start < s.stop), ?_, ?_⟩
    · rw [hvisible, hbefore s.start List.filter_sublist, hbefore s.stop (List.Sublist.refl _)]
    · refine List.filter_eq_nil_iff.mpr fun t ht => ?_
      have hlt := of_decide_eq_true (List.mem_filter.mp ht).2
      simp only [isVisible, hmember, hscope, Option.any_some, Bool.false_or, Bool.and_eq_true, decide_eq_true_eq]
      omega

/-! ## Deletions -/

/-- A `delete` or `delete[]` in the code where an entity can be seen, with the name of the entity behind it as it
is or behind `this->`. -/
structure Deletion (f : SourceFile) (e : Entity) where
  front : List Token
  operator : Token
  bounds : List Token
  object : List Token
  use : Token
  after : List Token
  code : f.code = front ++ operator :: (bounds ++ object) ++ use :: after
  visible : ∀ t ∈ operator :: (bounds ++ object) ++ [use], isVisible f e t = true
  isDelete : operator.isKeyword .deleteKw = true
  areBounds : AreBounds bounds
  areThis : AreThis object
  isIdentifier : use.isIdentifier = true
  named : use.text = e.name

/-- The operand of a deletion ends with the name: nothing reads on from it. -/
def Deletion.IsWhole (x : Deletion f e) : Prop :=
  ∀ t, x.after.head? = some t → t.isOneOf [.dot, .arrow, .lbracket, .lparen, .scope] = false

/-- The rule reports an entity as released with a `delete`, and points to that. -/
structure ReportsDelete (f : SourceFile) (e : Entity) (d : Token) : Prop where
  isDelete : d.isKeyword .deleteKw = true
  evidence : evidence? f e = some ⟨["released with `", d.text, "`"], some d⟩
  reported : ∃ v, checkEntity f e = some v ∧ v.related = [f.tokenLocation d]

/-- Whether a `delete` among the tokens of the code is reported. -/
def reportsSomeDelete (f : SourceFile) : Bool :=
  f.model.entities.any fun e => f.code.any fun d =>
    d.isKeyword .deleteKw && evidence? f e == some ⟨["released with `", d.text, "`"], some d⟩ &&
      (checkEntity f e).any fun v => v.related == [f.tokenLocation d]

theorem exists_report_of_any (h : reportsSomeDelete f = true) :
    ∃ e ∈ f.model.entities, ∃ d, ReportsDelete f e d := by
  obtain ⟨e, he, h⟩ := List.any_eq_true.mp h
  obtain ⟨d, -, h⟩ := List.any_eq_true.mp h
  simp only [Bool.and_eq_true, beq_iff_eq, Option.any_eq_true] at h
  exact ⟨e, he, d, h.1.1, h.1.2, h.2⟩

namespace Deletion

/-- The visible tokens in front of the use. -/
def visibleFront (x : Deletion f e) : List Token :=
  x.front.filter (isVisible f e) ++ x.operator :: (x.bounds ++ x.object)

theorem filter_front (x : Deletion f e) :
    (x.front ++ x.operator :: (x.bounds ++ x.object)).filter (isVisible f e) = x.visibleFront := by
  have hself : (x.operator :: (x.bounds ++ x.object)).filter (isVisible f e) =
      x.operator :: (x.bounds ++ x.object) :=
    List.filter_eq_self.mpr fun t ht => x.visible t (List.mem_append_left _ ht)
  rw [List.filter_append, hself, visibleFront]

theorem use_visible (x : Deletion f e) : isVisible f e x.use = true :=
  x.visible _ (List.mem_append_right _ (List.mem_singleton_self _))

theorem visibleCode_eq (x : Deletion f e) :
    visibleCode f e = x.visibleFront ++ x.use :: x.after.filter (isVisible f e) := by
  rw [OwnershipRule.visibleCode_eq, x.code, List.filter_append, x.filter_front,
    List.filter_cons_of_pos x.use_visible]

/-- The use of a deletion shows that the pointer owns memory. -/
theorem isSome_sign (x : Deletion f e) (isMember : Bool) (post : List Token) :
    (sign? e isMember x.visibleFront.reverse x.use post).isSome = true := by
  have hrelease : release? x.visibleFront.reverse post = some x.operator :=
    (release_eq_some_iff x.isDelete).mpr
      ⟨_, x.bounds, x.object, x.areBounds, x.areThis, by rw [List.reverse_reverse, visibleFront]⟩
  have hown : isOwnUse x.visibleFront.reverse = true := isOwnUse_of_deletion x.isDelete x.areBounds x.areThis
  unfold sign? evidenceAt?
  rw [if_pos (by simp [x.isIdentifier, x.named, hown]), hrelease]
  simp

/-- The place of the use of a deletion in the code. -/
theorem exists_index (x : Deletion f e) : ∃ i < f.code.length,
    (release? (f.code.take i).reverse (f.code.drop (i + 1))).isSome = true ∧
      f.code.drop i = x.use :: x.after ∧ f.code.drop (i + 1) = x.after := by
  have htake : f.code.take (x.front ++ x.operator :: (x.bounds ++ x.object)).length =
      x.front ++ x.operator :: (x.bounds ++ x.object) := by
    rw [x.code, List.take_left]
  have hdrop : f.code.drop (x.front ++ x.operator :: (x.bounds ++ x.object)).length = x.use :: x.after := by
    rw [x.code, List.drop_left]
  refine ⟨(x.front ++ x.operator :: (x.bounds ++ x.object)).length, by rw [x.code]; simp, ?_, hdrop, ?_⟩
  case refine_2 => rw [← List.drop_drop, hdrop, List.drop_one, List.tail_cons]
  rw [htake, (release_eq_some_iff x.isDelete).mpr ⟨_, _, _, x.areBounds, x.areThis, List.reverse_reverse _⟩]
  rfl

/-- Where every operand of a `delete` goes on behind its first name, no deletion is whole. -/
theorem not_isWhole (x : Deletion f e) (h : ∀ i < f.code.length,
      (release? (f.code.take i).reverse (f.code.drop (i + 1))).isSome = true →
        (f.code.drop (i + 1)).head?.any (·.isOneOf [.dot, .arrow, .lbracket, .lparen, .scope]) = true) :
    ¬ x.IsWhole := by
  intro hwhole
  obtain ⟨i, hi, hrelease, -, hafter⟩ := x.exists_index
  have hgoes := h i hi hrelease
  rw [hafter] at hgoes
  obtain ⟨t, ht, hone⟩ := (Option.any_eq_true _ _).mp hgoes
  rw [hwhole t ht] at hone
  exact absurd hone (by decide)

/-- Where no operand of a `delete` goes on behind its first name, every deletion is whole. -/
theorem isWhole (x : Deletion f e) (h : ∀ i < f.code.length,
      (release? (f.code.take i).reverse (f.code.drop (i + 1))).isSome = true →
        (f.code.drop i).head?.any (·.isIdentifier) = true →
          (f.code.drop (i + 1)).head?.all (!·.isOneOf [.dot, .arrow, .lbracket, .lparen, .scope]) = true) :
    x.IsWhole := by
  obtain ⟨i, hi, hrelease, huse, hafter⟩ := x.exists_index
  intro t ht
  have hends := h i hi hrelease (by rw [huse]; exact x.isIdentifier)
  rw [hafter] at hends
  simpa using (Option.all_eq_true _ _).mp hends t ht

end Deletion

/-- A raw pointer with a deletion of its name is reported. -/
theorem reported_of_deletion (hobject : e.isObject = true) (hconfidence : e.confidence ≠ .low)
    (htype : TypeText.isBarePointer e.typeText = true) (x : Deletion f e) :
    (checkEntity f e).isSome = true := by
  unfold checkEntity
  rw [if_neg (by simp [hobject, hconfidence, htype]), Option.isSome_map]
  unfold evidence?
  split
  · rfl
  · rw [x.visibleCode_eq]
    exact isSome_evidenceFrom_of_sign _ (by simpa using x.isSome_sign _ _)

/-- A use that shows a `delete` is released by it. -/
theorem release_of_sign (h : sign? e isMember before use after = some ⟨["released with `", d.text, "`"], some d⟩) :
    use.isIdentifier = true ∧ use.text = e.name ∧ release? before after = some d := by
  unfold sign? at h
  split at h
  · next hown =>
    simp only [Bool.and_eq_true, beq_iff_eq] at hown
    refine ⟨hown.1.1, hown.1.2, ?_⟩
    -- an allocation is told in one part, a release in three
    have hallocation : ∀ {what : Text} {c : Bool}, ¬ (if c = true then
        (source? after).map fun t => Evidence.mk [what] (some t) else none) =
          some ⟨["released with `", d.text, "`"], some d⟩ := by
      intro what c heq
      split at heq
      · obtain ⟨_, -, heq⟩ := Option.map_eq_some_iff.mp heq
        exact absurd (congrArg (fun found => found.what.length) heq) (by simp)
      · exact absurd heq (by simp)
    unfold evidenceAt? at h
    rcases Option.or_eq_some_iff.mp h with h | ⟨-, h⟩
    · exact absurd h hallocation
    rcases Option.or_eq_some_iff.mp h with h | ⟨-, h⟩
    · exact absurd h hallocation
    · obtain ⟨t, ht, heq⟩ := Option.map_eq_some_iff.mp h
      rw [ht]
      exact congrArg Evidence.token heq
  · exact absurd h (by simp)

/-- Two splits of a list: they are the same, or one is behind the other. -/
theorem split_cases {p q : List Token} {t u : Token} {ts us : List Token} (h : p ++ t :: ts = q ++ u :: us) :
    p = q ∧ t = u ∧ ts = us ∨ (∃ c, q = p ++ t :: c ∧ ts = c ++ u :: us) ∨
      ∃ c, p = q ++ u :: c ∧ us = c ++ t :: ts := by
  rcases List.append_eq_append_iff.mp h with ⟨c, rfl, hc⟩ | ⟨c, rfl, hc⟩
  · cases c with
    | nil =>
      obtain ⟨rfl, rfl⟩ := List.cons.inj hc
      exact Or.inl ⟨(List.append_nil p).symm, rfl, rfl⟩
    | cons v c =>
      obtain ⟨rfl, rfl⟩ := List.cons.inj hc
      exact Or.inr (Or.inl ⟨c, rfl, rfl⟩)
  · cases c with
    | nil =>
      obtain ⟨rfl, rfl⟩ := List.cons.inj hc
      exact Or.inl ⟨List.append_nil q, rfl, rfl⟩
    | cons v c =>
      obtain ⟨rfl, rfl⟩ := List.cons.inj hc
      exact Or.inr (Or.inr ⟨c, rfl, rfl⟩)

/-- Behind a report there is the deletion of a use of the name, and no deletion has its use in front of that
one. -/
theorem exists_first_deletion (hcode : f.code.Pairwise fun t u => t.start ≤ u.start)
    (h : ReportsDelete f e d) :
    ∃ x : Deletion f e, x.operator = d ∧
      ∀ y : Deletion f e, y.use = x.use ∧ y.after = x.after ∨ y.use ∈ x.after := by
  have hevidence := h.evidence
  unfold evidence? at hevidence
  split at hevidence
  · exact absurd (congrArg Evidence.token (Option.some.inj hevidence)) (by simp)
  obtain ⟨pre, use, post, hvisible, hsign, hfirst⟩ := evidenceFrom_eq_some_iff.mp hevidence
  simp only [List.append_nil] at hsign hfirst
  obtain ⟨hidentifier, hname, hrelease⟩ := release_of_sign hsign
  obtain ⟨front, bounds, object, hbounds, hobject, hpre⟩ := (release_eq_some_iff h.isDelete).mp hrelease
  rw [List.reverse_reverse] at hpre
  -- the visible part is a run of the code, so that the use can be found again in it
  obtain ⟨l, r, hsplit, hl⟩ := exists_append_visibleCode hcode e
  have hseen : ∀ t ∈ pre ++ use :: post, isVisible f e t = true := fun t ht => by
    rw [← hvisible, visibleCode_eq] at ht
    exact (List.mem_filter.mp ht).2
  have hcut : f.code = l ++ pre ++ use :: (post ++ r) := by
    rw [hsplit, hvisible]
    simp only [List.append_assoc, List.cons_append]
  refine ⟨⟨l ++ front, d, bounds, object, use, post ++ r, ?_, ?_, h.isDelete, hbounds, hobject, hidentifier, hname⟩,
    rfl, fun y => ?_⟩
  · rw [hcut, hpre]
    simp only [List.append_assoc]
  · intro t ht
    refine hseen t ?_
    rw [hpre]
    rcases List.mem_append.mp ht with ht | ht
    · exact List.mem_append_left _ (List.mem_append_right _ ht)
    · rw [List.mem_singleton.mp ht]
      exact List.mem_append_right _ List.mem_cons_self
  · rcases split_cases (hcut.symm.trans y.code) with ⟨-, huse, hafter⟩ | ⟨c, -, hafter⟩ | ⟨c, hearlier, -⟩
    · exact Or.inl ⟨huse.symm, hafter.symm⟩
    · refine Or.inr ?_
      show y.use ∈ post ++ r
      rw [hafter]
      exact List.mem_append_right _ List.mem_cons_self
    · -- an earlier deletion would have been found first
      have hfilter := congrArg (List.filter (isVisible f e)) hearlier
      rw [List.filter_append, hl, List.nil_append,
        List.filter_eq_self.mpr fun t ht => hseen t (List.mem_append_left _ ht), List.filter_append,
        y.filter_front, List.filter_cons_of_pos y.use_visible] at hfilter
      have hnone := hfirst _ _ _ hfilter
      exact absurd (y.isSome_sign _ _) (by rw [hnone]; simp)

/-- A report of a pointer released with `delete` comes from a deletion of its name. The pointer itself is deleted
where it can be seen exactly if that deletion is whole, or a whole one comes behind it. -/
theorem deleted_itself_iff (config : Config) (isOneOfMany : Bool) (path : SourcePath) (text : Text)
    (h : ReportsDelete (.ofText config isOneOfMany path text) e d) :
    ∃ x : Deletion (.ofText config isOneOfMany path text) e, x.operator = d ∧
      ((∃ y : Deletion (.ofText config isOneOfMany path text) e, y.IsWhole) ↔
        x.IsWhole ∨ ∃ y : Deletion (.ofText config isOneOfMany path text) e, y.use ∈ x.after ∧ y.IsWhole) := by
  have hcode : (SourceFile.ofText config isOneOfMany path text).code.Pairwise fun t u => t.start ≤ u.start :=
    ((tokens_ordered text).imp_of_mem fun ht _ hle =>
      Nat.le_trans (Nat.le_of_lt (start_lt_stop ht)) hle).sublist List.filter_sublist
  obtain ⟨x, hx, hfirst⟩ := exists_first_deletion hcode h
  refine ⟨x, hx, ⟨fun ⟨y, hy⟩ => ?_, ?_⟩⟩
  · rcases hfirst y with ⟨-, hafter⟩ | hbehind
    · exact Or.inl fun t ht => hy t (by rw [hafter]; exact ht)
    · exact Or.inr ⟨y, hbehind, hy⟩
  · rintro (h | ⟨y, -, h⟩)
    · exact ⟨x, h⟩
    · exact ⟨y, h⟩

/-- A data member is deleted with `this->` in front of its name. Its deletion is whole, and so it is deleted
itself. -/
theorem deleted_itself_member :
    ∃ e d, ReportsDelete (.ofText {} false (.ofString "a.cpp")
        (Text.ofString "struct A { int* p; void f() { delete[] this->p; } };")) e d ∧
      (∃ x : Deletion (.ofText {} false (.ofString "a.cpp")
          (Text.ofString "struct A { int* p; void f() { delete[] this->p; } };")) e,
        x.operator = d ∧ x.IsWhole) ∧
      ∃ y : Deletion (.ofText {} false (.ofString "a.cpp")
        (Text.ofString "struct A { int* p; void f() { delete[] this->p; } };")) e, y.IsWhole := by
  obtain ⟨hreported, hends⟩ := SourceFile.of_asRead {} false (.ofString "a.cpp")
    (Text.ofString "struct A { int* p; void f() { delete[] this->p; } };")
    (P := fun f => reportsSomeDelete f = true ∧ ∀ i < f.code.length,
      (release? (f.code.take i).reverse (f.code.drop (i + 1))).isSome = true →
        (f.code.drop i).head?.any (·.isIdentifier) = true →
          (f.code.drop (i + 1)).head?.all (!·.isOneOf [.dot, .arrow, .lbracket, .lparen, .scope]) = true) (by
      rw [Text.ofString_ofList]
      decide +kernel)
  obtain ⟨e, -, d, h⟩ := exists_report_of_any hreported
  obtain ⟨x, hoperator, hiff⟩ := deleted_itself_iff _ _ _ _ h
  have hwhole : x.IsWhole := x.isWhole hends
  exact ⟨e, d, h, ⟨x, hoperator, hwhole⟩, hiff.mpr (Or.inl hwhole)⟩

/-- What is deleted is the next node of a list, and the pointer to the first one is reported. -/
theorem exists_report_of_longer_operand :
    ∃ text, ∃ e ∈ (SourceFile.ofText {} false (.ofString "a.cpp") text).model.entities, ∃ d,
      ReportsDelete (.ofText {} false (.ofString "a.cpp") text) e d ∧
        ∀ y : Deletion (.ofText {} false (.ofString "a.cpp") text) e, ¬ y.IsWhole := by
  obtain ⟨hreported, hnone⟩ := SourceFile.of_asRead {} false (.ofString "a.cpp")
    (Text.ofString "void f() { Node* p = q; delete p->next; }")
    (P := fun f => reportsSomeDelete f = true ∧ ∀ i < f.code.length,
      (release? (f.code.take i).reverse (f.code.drop (i + 1))).isSome = true →
        (f.code.drop (i + 1)).head?.any (·.isOneOf [.dot, .arrow, .lbracket, .lparen, .scope]) = true) (by
      rw [Text.ofString_ofList]
      decide +kernel)
  obtain ⟨e, he, d, h⟩ := exists_report_of_any hreported
  exact ⟨_, e, he, d, h, fun y => y.not_isWhole hnone⟩

end HouseStyle.OwnershipRule
