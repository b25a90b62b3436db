import HouseStyle.Proofs.Heads
import Mathlib.Data.List.Infix

/-!
# Names that are compared

Where names are read it hardly matters what they are. They are compared in two places only. A function that
is named like the class around it, or like the segment in front of it, is a constructor; and a function
belongs to a class unless the segment in front of it is known to name a namespace. So one of the two names is
always that of a class with braces, or it goes on with `::` (`comparedNames`).

A name that goes on with `::` in a stretch of tokens does so in all of them (`qualifiers_subset`).
-/

namespace HouseStyle

open List (IsInfix)

/-! ## What is read with more tokens behind it -/

theorem enclosed_append_right {closer : Punct} {depth : Nat} {ts : List Token} {e : Enclosed}
    (h : enclosed? closer depth ts = some e) (more : List Token) :
    enclosed? closer depth (ts ++ more) = some { e with after := e.after ++ more } := by
  induction ts generalizing depth e with
  | nil => exact absurd h (by simp [enclosed?])
  | cons t ts ih =>
    have step : ∀ {d}, (enclosed? closer d ts).map (.cons t) = some e →
        (enclosed? closer d (ts ++ more)).map (.cons t) = some { e with after := e.after ++ more } := by
      intro d hd
      obtain ⟨e', he', rfl⟩ := Option.map_eq_some_iff.mp hd
      rw [ih he']
      rfl
    rw [List.cons_append]
    unfold enclosed? at h ⊢
    split at h
    · split at h
      next hopens => rw [if_pos hopens]; exact step h
      next hopens =>
        rw [if_neg hopens]
        split at h
        next hcloses =>
          rw [if_pos hcloses]
          split at h
          · split at h
            next hc =>
              obtain rfl := Option.some.inj h
              rw [if_pos hc]
            · exact absurd h (by simp)
          · exact step h
        next hcloses => rw [if_neg hcloses]; exact step h
    · exact step h

theorem angled_append_right {depth : Nat} {ts : List Token} {a : Angled} (h : angled? depth ts = some a)
    (more : List Token) : angled? depth (ts ++ more) = some { a with after := a.after ++ more } := by
  -- tokens in front are kept in front
  have prepended : ∀ {depth us front} {a : Angled}, (angled? depth us).map (.prepend front) = some a →
      (∀ {a}, angled? depth us = some a → angled? depth (us ++ more) = some { a with after := a.after ++ more }) →
      (angled? depth (us ++ more)).map (.prepend front) = some { a with after := a.after ++ more } := by
    intro depth us front a h ih
    obtain ⟨b, hb, rfl⟩ := Option.map_eq_some_iff.mp h
    rw [ih hb]
    rfl
  fun_induction angled? depth ts generalizing a with
  | case1 => exact absurd h (by simp)
  | case2 depth t rest hk ih | case4 t rest hk depth ih =>
    rw [List.cons_append, angled?.eq_def]
    simp only [hk]
    exact prepended h ih
  | case3 t rest hk =>
    obtain rfl := Option.some.inj h
    rw [List.cons_append, angled?.eq_def]
    simp only [hk]
  | case5 => exact absurd h (by simp)
  | case6 depth t rest hk e he ih =>
    rw [List.cons_append, angled_bracket depth _ (.inl ⟨hk, rfl⟩), enclosed_append_right he]
    exact prepended h ih
  | case7 => exact absurd h (by simp)
  | case8 depth t rest hk e he ih =>
    rw [List.cons_append, angled_bracket depth _ (.inr ⟨hk, rfl⟩), enclosed_append_right he]
    exact prepended h ih
  | case9 => exact absurd h (by simp)
  | case10 depth t rest p hless hgreater hparen hbracket hk hno ih =>
    rw [List.cons_append, angled?.eq_def]
    simp only [hk]
    rw [if_neg hno]
    exact prepended h ih
  | case11 depth t rest h₁ h₂ h₃ h₄ hnone ih =>
    rw [List.cons_append, angled?.eq_def]
    cases hk : t.kind with
    | punct p => exact absurd hk (hnone p)
    | _ =>
      simp only [hk]
      exact prepended h ih

theorem afterScope_append_right {ts after : List Token} (h : afterScope? ts = some after) (more : List Token) :
    afterScope? (ts ++ more) = some (after ++ more) := by
  unfold afterScope? at h
  split at h
  next c n rest =>
    rw [List.cons_append, List.cons_append, afterScope?]
    split at h
    next hc =>
      rw [if_pos hc]
      split at h
      next hn => rw [if_pos hn, ← Option.some.inj h]
      next hn =>
        rw [if_neg hn]
        split at h
        next hname =>
          rw [if_pos hname, ← Option.some.inj h]
          rfl
        · exact absurd h (by simp)
    · exact absurd h (by simp)
  · exact absurd h (by simp)

/-! ## Names that go on -/

/-- Whether a name in front of some tokens goes on with `::`. -/
def goesOn (ts : List Token) : Bool := ((afterArguments? ts).bind afterScope?).isSome

theorem goesOn_append {ts : List Token} (h : goesOn ts = true) (more : List Token) :
    goesOn (ts ++ more) = true := by
  obtain ⟨next, hnext⟩ := Option.isSome_iff_exists.mp h
  obtain ⟨after, hafter, hscope⟩ := Option.bind_eq_some_iff.mp hnext
  have hmore : afterArguments? (ts ++ more) = some (after ++ more) := by
    cases ts with
    | nil =>
      obtain rfl := Option.some.inj hafter
      exact absurd hscope (by simp [afterScope?])
    | cons t ts =>
      rw [List.cons_append, afterArguments?]
      rw [afterArguments?] at hafter
      split at hafter
      next ht =>
        obtain ⟨a, ha, rfl⟩ := Option.map_eq_some_iff.mp hafter
        rw [if_pos ht, angled_append_right ha]
        rfl
      next ht => rw [if_neg ht, ← Option.some.inj hafter, List.cons_append]
  unfold goesOn
  rw [hmore, Option.bind_some, afterScope_append_right hscope]
  rfl

/-- The name at the front of some tokens, if it goes on. -/
def qualifierAt? : List Token → Option Text
  | [] => none
  | t :: rest => if t.isIdentifier && goesOn rest then some t.text else none

/-- The names in some tokens that go on. -/
def qualifiers (ts : List Token) : List Text := ts.tails.filterMap qualifierAt?

theorem mem_qualifiers_iff {ts : List Token} {s : Text} :
    s ∈ qualifiers ts ↔ ∃ t rest, t :: rest <:+ ts ∧ t.isIdentifier = true ∧ goesOn rest = true ∧ t.text = s := by
  unfold qualifiers
  rw [List.mem_filterMap]
  constructor
  · rintro ⟨us, hus, hs⟩
    cases us with
    | nil => exact absurd hs (by simp [qualifierAt?])
    | cons t rest =>
      rw [qualifierAt?] at hs
      split at hs
      next h =>
        obtain ⟨hid, hon⟩ := Bool.and_eq_true_iff.mp h
        exact ⟨t, rest, (List.mem_tails _ _).mp hus, hid, hon, Option.some.inj hs⟩
      · exact absurd hs (by simp)
  · rintro ⟨t, rest, hsuffix, hid, hon, rfl⟩
    exact ⟨t :: rest, (List.mem_tails _ _).mpr hsuffix, by rw [qualifierAt?, hid, hon]; rfl⟩

/-- A name with `::` and another name behind it goes on. -/
theorem mem_qualifiers_of_scope {front back : List Token} {q p t : Token} (hq : q.isIdentifier = true)
    (hp : p.isPunct .scope = true) (ht : t.isIdentifier = true) :
    q.text ∈ qualifiers (front ++ q :: p :: t :: back) := by
  have hless : p.isPunct .less = false := by simp [Token.isPunct, beq_iff_eq.mp hp]
  have htemplate : t.isKeyword .templateKw = false := by simp [Token.isKeyword, beq_iff_eq.mp ht]
  have hon : goesOn (p :: t :: back) = true := by simp [goesOn, afterArguments?, afterScope?, hless, hp, htemplate, ht]
  exact mem_qualifiers_iff.mpr ⟨q, p :: t :: back, List.suffix_append _ _, hq, hon, rfl⟩

theorem qualifiers_subset {us ts : List Token} (h : us <:+: ts) : qualifiers us ⊆ qualifiers ts := by
  obtain ⟨front, back, rfl⟩ := h
  intro s hs
  obtain ⟨t, rest, ⟨more, hmore⟩, hid, hon, rfl⟩ := mem_qualifiers_iff.mp hs
  refine mem_qualifiers_iff.mpr ⟨t, rest ++ back, ⟨front ++ more, ?_⟩, hid, goesOn_append hon back, rfl⟩
  rw [← hmore]
  simp

/-- All segments of a name but the last one go on. -/
theorem segments_dropLast {ts rest : List Token} {segments : List (Text × Token)}
    (h : segments? ts = some (segments, rest)) : ∀ s ∈ segments.dropLast, s.1 ∈ qualifiers ts := by
  fun_induction segments? ts generalizing segments rest with
  | case1 | case2 | case3 | case4 | case7 | case8 =>
    obtain ⟨rfl, -⟩ := Prod.mk.inj (Option.some.inj h)
    exact fun s hs => absurd hs (by simp)
  | case5 => exact absurd h (by simp)
  | case6 t tail ht hid after hargs next hscope ih =>
    obtain ⟨⟨more, end_⟩, hmore, heq⟩ := Option.map_eq_some_iff.mp h
    obtain ⟨rfl, rfl⟩ := Prod.mk.inj heq
    have hnext : next <:+ t :: tail :=
      ((suffix_afterScope hscope).trans (suffix_afterArguments hargs)).trans (List.suffix_cons _ _)
    have hon : goesOn tail = true := by rw [goesOn, hargs, Option.bind_some, hscope, Option.isSome_some]
    intro s hs
    cases more with
    | nil => exact absurd hs (by simp)
    | cons second more =>
      rcases List.mem_cons.mp hs with rfl | hs
      · exact mem_qualifiers_iff.mpr ⟨t, tail, List.suffix_rfl, hid, hon, rfl⟩
      · exact qualifiers_subset hnext.isInfix (ih hmore s hs)

theorem mem_qualifiers_of_qualifiedName {ts : List Token} {n : QualifiedName} (h : qualifiedName? ts = some n)
    {s : Text} (hs : s ∈ n.qualifier) : s ∈ qualifiers ts := by
  unfold qualifiedName? at h
  split at h
  · exact absurd h (by simp)
  next segments rest hsegments =>
    obtain ⟨last, -, rfl⟩ := Option.map_eq_some_iff.mp h
    change s ∈ (segments.map (·.1)).dropLast at hs
    rw [← List.map_dropLast] at hs
    obtain ⟨segment, hmem, rfl⟩ := List.mem_map.mp hs
    exact qualifiers_subset (suffix_afterGlobal ts).isInfix (segments_dropLast hsegments segment hmem)

/-! ## Names of classes -/

/-- The name of a class, given its keyword and what stands behind it, if its braces open there. -/
def classAt? : List Token → Option Text
  | [] => none
  | t :: rest =>
    if t.isKeywordIn [.classKw, .structKw, .unionKw] then
      (Extraction.classHead? rest).bind fun head =>
        if head.terminator.isPunct .lbrace then head.name.map (·.text) else none
    else none

/-- The names that are compared with others when some code is read. -/
def comparedNames (code : List Token) : List Text := qualifiers code ++ code.tails.filterMap classAt?

theorem qualifiers_subset_comparedNames {ts code : List Token} (h : ts <:+: code) :
    qualifiers ts ⊆ comparedNames code :=
  List.Subset.trans (qualifiers_subset h) (List.subset_append_left _ _)

theorem comparedNames_subset {us ts : List Token} (h : us <:+ ts) : comparedNames us ⊆ comparedNames ts := by
  refine List.append_subset.mpr ⟨qualifiers_subset_comparedNames h.isInfix, fun s hs => ?_⟩
  obtain ⟨vs, hvs, hname⟩ := List.mem_filterMap.mp hs
  refine List.mem_append_right _ (List.mem_filterMap.mpr ⟨vs, ?_, hname⟩)
  exact (List.mem_tails _ _).mpr (((List.mem_tails _ _).mp hvs).trans h)

/-- The name of a class whose braces open is compared. -/
theorem mem_comparedNames_of_head {keyword : Token} {ts : List Token} {head : Extraction.TypeHead} {name : Token}
    (hkeyword : keyword.isKeywordIn [.classKw, .structKw, .unionKw] = true)
    (hhead : Extraction.classHead? ts = some head) (hbrace : head.terminator.isPunct .lbrace = true)
    (hname : head.name = some name) : name.text ∈ comparedNames (keyword :: ts) := by
  refine List.mem_append_right _ (List.mem_filterMap.mpr ⟨keyword :: ts, (List.mem_tails _ _).mpr List.suffix_rfl, ?_⟩)
  rw [classAt?, if_pos hkeyword, hhead, Option.bind_some, if_pos hbrace, hname]
  rfl

/-- Names that are compared stand in the code. -/
theorem exists_identifier_of_mem_comparedNames {code : List Token} {s : Text} (h : s ∈ comparedNames code) :
    ∃ t ∈ code, t.isIdentifier = true ∧ t.text = s := by
  rcases List.mem_append.mp h with h | h
  · obtain ⟨t, rest, hsuffix, hid, -, rfl⟩ := mem_qualifiers_iff.mp h
    exact ⟨t, hsuffix.subset List.mem_cons_self, hid, rfl⟩
  · obtain ⟨us, hus, hname⟩ := List.mem_filterMap.mp h
    have hsuffix := (List.mem_tails _ _).mp hus
    cases us with
    | nil => exact absurd hname (by simp [classAt?])
    | cons t rest =>
      rw [classAt?] at hname
      split at hname
      · obtain ⟨head, hhead, hname⟩ := Option.bind_eq_some_iff.mp hname
        split at hname
        · obtain ⟨name, hn, rfl⟩ := Option.map_eq_some_iff.mp hname
          obtain ⟨⟨front, happend, hfront⟩, hid⟩ := Extraction.takenFrom_classHead hhead
          refine ⟨name, hsuffix.subset (List.mem_cons_of_mem _ ?_), hid name hn, rfl⟩
          rw [happend]
          exact List.mem_append_left _ (hfront.subset (by simp [hn]))
        · exact absurd hname (by simp)
      · exact absurd hname (by simp)

end HouseStyle
