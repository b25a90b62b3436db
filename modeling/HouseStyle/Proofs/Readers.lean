import HouseStyle.Declaration.Progress

/-!
# Where the names that are read stand

The functions that read a declaration take tokens from the front of a list and hand back the rest.
For each of them this file says where the names it has found stand: in the tokens it has taken, and in
the order in which they were found. A name is always an identifier, but for the word `operator`.

The statements are equations between lists where one name is read, such as `qualifiedName_append`,
and sublists where several are, such as `names_readAll_sublist`.
-/

namespace HouseStyle

open List (Sublist)
open scoped List

/-! ## Brackets and parts -/

/-- The tokens inside a template argument list, the `>` and the tokens after it are the tokens
given. -/
theorem angled_append {depth : Nat} {ts : List Token} {a : Angled} (h : angled? depth ts = some a) :
    ∃ closer, ts = a.inside ++ closer :: a.after := by
  fun_induction angled? depth ts generalizing a with
  | case1 => exact absurd h (by simp)
  | case2 _ _ _ _ ih | case4 _ _ _ _ ih | case10 _ _ _ _ _ _ _ _ _ _ ih | case11 _ _ _ _ _ _ _ _ ih =>
    obtain ⟨b, hb, rfl⟩ := Option.map_eq_some_iff.mp h
    obtain ⟨closer, hts⟩ := ih hb
    exact ⟨closer, by rw [hts]; rfl⟩
  | case3 =>
    rw [Option.some.injEq] at h
    subst h
    exact ⟨_, rfl⟩
  | case5 => exact absurd h (by simp)
  | case6 _ _ _ _ _ he ih | case8 _ _ _ _ _ he ih =>
    obtain ⟨b, hb, rfl⟩ := Option.map_eq_some_iff.mp h
    obtain ⟨closer, hts⟩ := ih hb
    exact ⟨closer, by rw [enclosed?_append he, hts]; simp [Angled.prepend]⟩
  | case7 => exact absurd h (by simp)
  | case9 => exact absurd h (by simp)

/-- The parts between separators hold the tokens in order. -/
theorem partsFrom_sublist (separator : Punct) (angles : Bool) (depth angle : Nat) (ts : List Token) :
    (partsFrom separator angles depth angle ts).1 ++
      (partsFrom separator angles depth angle ts).2.flatten <+ ts := by
  induction ts generalizing depth angle with
  | nil => exact Sublist.refl []
  | cons t ts ih =>
    unfold partsFrom
    dsimp only
    split
    · split
      · exact (ih ..).cons_cons t
      · split
        · exact (ih ..).cons_cons t
        · split
          · exact (ih ..).cons_cons t
          · split
            · exact (ih ..).cons_cons t
            · split
              · exact (ih ..).cons t
              · exact (ih ..).cons_cons t
    · exact (ih ..).cons_cons t

theorem allCommaParts_sublist (ts : List Token) : (allCommaParts ts).flatten <+ ts :=
  partsFrom_sublist .comma true 0 0 ts

theorem fst_partsFrom_isPrefix (separator : Punct) (angles : Bool) (depth angle : Nat)
    (ts : List Token) : (partsFrom separator angles depth angle ts).1 <+: ts := by
  induction ts generalizing depth angle with
  | nil => exact List.prefix_rfl
  | cons t ts ih =>
    have keep : ∀ depth angle, t :: (partsFrom separator angles depth angle ts).1 <+: t :: ts :=
      fun depth angle => List.cons_prefix_cons.mpr ⟨rfl, ih depth angle⟩
    unfold partsFrom
    dsimp only
    repeat' split
    all_goals first
      | exact keep ..
      | exact List.nil_prefix

/-- One token from each of several parts. -/
theorem filterMap_sublist_flatten {pick : List Token → Option Token}
    (hpick : ∀ part t, pick part = some t → t ∈ part) (parts : List (List Token)) :
    parts.filterMap pick <+ parts.flatten := by
  induction parts with
  | nil => exact Sublist.refl []
  | cons part parts ih =>
    rw [List.flatten_cons, List.filterMap_cons]
    split
    · exact ih.trans (List.sublist_append_right _ _)
    · next t ht => exact (List.singleton_sublist.mpr (hpick part t ht)).append ih

/-! ## Heads -/

theorem opens_of_step_eq_body {seen : Head.Seen} {last : Option Token} {depth : Nat} {t brace : Token}
    (h : Head.step seen last depth t = .finish (.body brace)) :
    brace = t ∧ t.isPunct .lbrace = true := by
  unfold Head.step at h
  split at h
  case h_5 p _ _ _ _ hp =>
    split at h
    · split at h
      case h_5 =>
        split at h
        · exact absurd h (by simp)
        · simp only [Head.Step.finish.injEq, Ending.body.injEq] at h
          exact ⟨h.symm, by simp [Token.isPunct, hp]⟩
      all_goals exact absurd h (by simp)
    · exact absurd h (by simp)
  all_goals exact absurd h (by simp)

/-- The tokens of a head, the token that ends it and the tokens after it are the tokens given. -/
theorem readFrom_append (seen : Head.Seen) (last : Option Token) (depth : Nat) (ts : List Token) :
    ∃ ender, ts = (Head.readFrom seen last depth ts).tokens ++ ender ++
        (Head.readFrom seen last depth ts).rest ∧
      ∀ brace, (Head.readFrom seen last depth ts).ending = .body brace →
        ender = [brace] ∧ brace.isPunct .lbrace = true := by
  fun_induction Head.readFrom seen last depth ts with
  | case1 => exact ⟨[], rfl, fun _ h => absurd h (by simp)⟩
  | case2 _ _ _ t _ _ _ _ ih =>
    obtain ⟨ender, hts, hbody⟩ := ih
    exact ⟨ender, congrArg (t :: ·) hts, hbody⟩
  | case3 => exact ⟨[], rfl, fun _ h => absurd h (by simp)⟩
  | case4 _ _ _ t rest ending _ hstep =>
    refine ⟨[t], rfl, fun brace h => ?_⟩
    dsimp only at h
    subst h
    obtain ⟨rfl, hbrace⟩ := opens_of_step_eq_body hstep
    exact ⟨rfl, hbrace⟩
  | case5 => exact ⟨[], by simp, fun _ h => absurd h (by simp)⟩
  | case6 _ _ _ t rest _ e he ih =>
    obtain ⟨ender, hts, hbody⟩ := ih
    refine ⟨ender, ?_, hbody⟩
    rw [enclosed?_append he]
    simp only [Head.prepend, List.cons_append, List.append_assoc, List.cons.injEq, true_and,
      List.append_cancel_left_eq, List.nil_append]
    rw [← List.append_assoc]
    exact hts

theorem read_append (ts : List Token) :
    ∃ ender, ts = (Head.read ts).tokens ++ ender ++ (Head.read ts).rest ∧
      ∀ brace, (Head.read ts).ending = .body brace → ender = [brace] ∧ brace.isPunct .lbrace = true :=
  readFrom_append ..

/-! ## Qualified names -/

theorem suffix_afterArguments {ts after : List Token} (h : afterArguments? ts = some after) :
    after <:+ ts := by
  unfold afterArguments? at h
  split at h
  · obtain rfl := Option.some.inj h
    exact List.suffix_rfl
  · split at h
    · obtain ⟨a, ha, rfl⟩ := Option.map_eq_some_iff.mp h
      exact (suffix_angled ha).trans (List.suffix_cons _ _)
    · obtain rfl := Option.some.inj h
      exact List.suffix_rfl

theorem suffix_afterScope {ts after : List Token} (h : afterScope? ts = some after) :
    after <:+ ts := by
  unfold afterScope? at h
  split at h
  · split at h
    · split at h
      · rw [Option.some.injEq] at h
        rw [← h]
        exact (List.suffix_cons _ _).trans (List.suffix_cons _ _)
      · split at h
        · rw [Option.some.injEq] at h
          rw [← h]
          exact List.suffix_cons _ _
        · exact absurd h (by simp)
    · exact absurd h (by simp)
  · exact absurd h (by simp)

/-- The last segment that is read is an identifier of the tokens, written as it is or with the tilde
of a destructor, and the rest comes after it. -/
def EndsIn (ts : List Token) (written : Text) (last : Token) (rest : List Token) : Prop :=
  (∃ front mid, ts = front ++ last :: (mid ++ rest)) ∧ last.isIdentifier = true ∧
    (written = last.text ∨ written = .scalar '~' :: last.text)

theorem EndsIn.of_suffix {ts us rest : List Token} {written : Text} {last : Token}
    (h : EndsIn us written last rest) (hus : us <:+ ts) : EndsIn ts written last rest := by
  obtain ⟨⟨front, mid, rfl⟩, hlast⟩ := h
  obtain ⟨pre, rfl⟩ := hus
  exact ⟨⟨pre ++ front, mid, by rw [List.append_assoc]⟩, hlast⟩

theorem EndsIn.of_suffix_cons {t : Token} {ts rest : List Token} (ht : t.isIdentifier = true)
    (hrest : rest <:+ ts) : EndsIn (t :: ts) t.text t rest := by
  obtain ⟨mid, rfl⟩ := hrest
  exact ⟨⟨[], mid, rfl⟩, ht, Or.inl rfl⟩

/-- A name without segments takes no token; otherwise the rest comes after its last segment. -/
theorem segments_append {ts rest : List Token} {segments : List (Text × Token)}
    (h : segments? ts = some (segments, rest)) :
    (segments = [] ∧ rest = ts) ∨
      ∃ written last, segments.getLast? = some (written, last) ∧ EndsIn ts written last rest := by
  fun_induction segments? ts generalizing segments rest with
  | case1 | case3 | case4 | case8 =>
    obtain ⟨rfl, rfl⟩ := Prod.mk.inj (Option.some.inj h)
    exact Or.inl ⟨rfl, rfl⟩
  | case2 t ht u after hu =>
    obtain ⟨rfl, rfl⟩ := Prod.mk.inj (Option.some.inj h)
    exact Or.inr ⟨_, u, rfl, ⟨[t], [], rfl⟩, hu, Or.inr rfl⟩
  | case5 => exact absurd h (by simp)
  | case6 t rest' ht hid after hargs next hscope ih =>
    obtain ⟨⟨more, end_⟩, hmore, heq⟩ := Option.map_eq_some_iff.mp h
    obtain ⟨rfl, rfl⟩ := Prod.mk.inj heq
    have hnext : next <:+ rest' := (suffix_afterScope hscope).trans (suffix_afterArguments hargs)
    right
    rcases ih hmore with ⟨rfl, rfl⟩ | ⟨written, last, hlast, hends⟩
    · exact ⟨_, t, rfl, .of_suffix_cons hid hnext⟩
    · refine ⟨written, last, ?_, hends.of_suffix (hnext.trans (List.suffix_cons _ _))⟩
      rw [List.getLast?_cons, hlast]
      rfl
  | case7 t rest' ht hid after hargs hscope =>
    obtain ⟨rfl, rfl⟩ := Prod.mk.inj (Option.some.inj h)
    exact Or.inr ⟨_, t, rfl, .of_suffix_cons hid (suffix_afterArguments hargs)⟩

theorem suffix_afterGlobal (ts : List Token) : afterGlobal ts <:+ ts := by
  unfold afterGlobal
  split
  · exact List.suffix_rfl
  · split
    · exact List.suffix_cons _ _
    · exact List.suffix_rfl

theorem qualifiedName_append {ts : List Token} {n : QualifiedName} (h : qualifiedName? ts = some n) :
    EndsIn ts n.base n.last n.rest := by
  unfold qualifiedName? at h
  split at h
  · exact absurd h (by simp)
  · next segments rest hsegments =>
    obtain ⟨⟨written, last⟩, hlast, rfl⟩ := Option.map_eq_some_iff.mp h
    rcases segments_append hsegments with ⟨rfl, -⟩ | ⟨written', last', hlast', hends⟩
    · exact absurd hlast (by simp)
    · rw [hlast, Option.some.injEq, Prod.mk.injEq] at hlast'
      obtain ⟨rfl, rfl⟩ := hlast'
      have hbase : QualifiedName.base ⟨segments.map (·.1), last, rest⟩ = written := by
        rw [QualifiedName.base, List.getLast?_map, hlast]
        rfl
      rw [hbase]
      exact hends.of_suffix (suffix_afterGlobal ts)

theorem suffix_qualifiedName {ts : List Token} {n : QualifiedName} (h : qualifiedName? ts = some n) :
    n.rest <:+ ts := by
  obtain ⟨⟨front, mid, hts⟩, -⟩ := qualifiedName_append h
  rw [hts]
  exact (List.suffix_append mid n.rest).trans ((List.suffix_cons _ _).trans (List.suffix_append front _))

/-! ## Types -/

theorem suffix_afterDecltype {ts after : List Token} (h : afterDecltype? ts = some (some after)) :
    after <:+ ts := by
  unfold afterDecltype? at h
  split at h
  · split at h
    · rw [Option.some.injEq] at h
      obtain ⟨e, he, rfl⟩ := Option.map_eq_some_iff.mp h
      exact (suffix_enclosed he).trans (List.suffix_cons _ _)
    · exact absurd h (by simp)
  · exact absurd h (by simp)

theorem suffix_afterTypeWords {seen named : Bool} {ts rest : List Token}
    (h : afterTypeWords? seen ts = some (named, rest)) : rest <:+ ts := by
  fun_induction afterTypeWords? seen ts generalizing named rest with
  | case1 | case8 =>
    obtain ⟨-, rfl⟩ := Prod.mk.inj (Option.some.inj h)
    exact List.suffix_rfl
  | case2 _ _ _ _ ih | case3 _ _ _ _ _ ih => exact (ih h).trans (List.suffix_cons _ _)
  | case4 | case6 => exact absurd h (by simp)
  | case5 _ t rest' _ _ after hd ih =>
    split at hd
    · exact ((ih h).trans (suffix_afterDecltype hd)).trans (List.suffix_cons _ _)
    · exact absurd hd (by simp)
  | case7 _ _ _ _ _ _ _ _ hn ih => exact (ih h).trans (suffix_qualifiedName hn)

theorem suffix_afterType {ts rest : List Token} (h : afterType? ts = some rest) : rest <:+ ts := by
  unfold afterType? at h
  split at h
  · next hwords =>
    rw [Option.some.injEq] at h
    rw [← h]
    exact (List.dropWhile_suffix _).trans (suffix_afterTypeWords hwords)
  · exact absurd h (by simp)

theorem suffix_specifiers (ts : List Token) : (specifiers ts).2 <:+ ts := suffix_specifiersFrom {} ts

theorem tokensBefore_append (ts rest : List Token) : tokensBefore (ts ++ rest) rest = ts := by
  unfold tokensBefore
  rw [List.length_append, Nat.add_sub_cancel, List.take_left]

/-! ## Declarators and parameters -/

namespace Declarator

/-- The name of a declarator is an identifier, and what follows comes after it. -/
theorem name_append {ts rest : List Token} {t : Token} {q : List Text} {c : Confidence}
    (h : name? ts = some (t, q, c, rest)) :
    (∃ front mid, ts = front ++ t :: (mid ++ rest)) ∧ t.isIdentifier = true := by
  unfold name? at h
  split at h
  · exact absurd h (by simp)
  · next u us =>
    split at h
    · -- in round brackets
      split at h
      · exact absurd h (by simp)
      · next e he =>
        split at h
        · exact absurd h (by simp)
        · next name hname =>
          have hmem := List.mem_filter.mp (List.mem_of_getLast? hname)
          obtain ⟨front, mid, hinside⟩ := List.append_of_mem hmem.1
          have after : ∀ rest, rest <:+ e.after →
              ∃ front mid, u :: us = front ++ name :: (mid ++ rest) := by
            rintro rest ⟨skipped, hrest⟩
            refine ⟨u :: front, mid ++ e.closer :: skipped, ?_⟩
            rw [enclosed?_append he, hinside, ← hrest]
            simp
          split at h
          · next v more hafter =>
            rw [hafter] at after
            split at h <;> simp only [Option.some.injEq, Prod.mk.injEq] at h <;>
              obtain ⟨rfl, -, -, rfl⟩ := h
            · exact ⟨after _ ((suffix_enclosed_getD _ _).trans (List.suffix_cons _ _)), hmem.2⟩
            · exact ⟨after _ List.suffix_rfl, hmem.2⟩
          · simp only [Option.some.injEq, Prod.mk.injEq] at h
            obtain ⟨rfl, -, -, rfl⟩ := h
            exact ⟨after _ List.nil_suffix, hmem.2⟩
    · split at h
      · obtain ⟨n, hn, heq⟩ := Option.map_eq_some_iff.mp h
        simp only [Prod.mk.injEq] at heq
        obtain ⟨rfl, -, -, rfl⟩ := heq
        obtain ⟨hts, hlast, -⟩ := qualifiedName_append hn
        exact ⟨hts, hlast⟩
      · exact absurd h (by simp)

theorem suffix_afterBounds (ts : List Token) : afterBounds ts <:+ ts := by
  fun_induction afterBounds ts with
  | case1 | case4 => exact List.suffix_rfl
  | case2 => exact List.nil_suffix
  | case3 _ _ _ _ he ih => exact (ih.trans (suffix_enclosed he)).trans (List.suffix_cons _ _)

/-- The tokens up to a comma and those from it on are the tokens given. -/
theorem upToComma_append (depth : Nat) (ts : List Token) : (upToComma depth ts).1 ++ (upToComma depth ts).2 = ts := by
  induction ts generalizing depth with
  | nil => rfl
  | cons t ts ih =>
    unfold upToComma
    dsimp only
    split
    · rfl
    · exact congrArg (t :: ·) (ih _)

theorem suffix_upToComma (depth : Nat) (ts : List Token) : (upToComma depth ts).2 <:+ ts :=
  ⟨_, upToComma_append depth ts⟩

/-- What is left over starts with the comma. -/
theorem isPunct_comma_of_upToComma {depth : Nat} {ts rest : List Token} {u : Token}
    (h : (upToComma depth ts).2 = u :: rest) : u.isPunct .comma = true := by
  induction ts generalizing depth with
  | nil => exact absurd h (by simp [upToComma])
  | cons t ts ih =>
    unfold upToComma at h
    dsimp only at h
    split at h
    next hcomma =>
      obtain ⟨rfl, -⟩ := List.cons.inj h
      exact (Bool.and_eq_true_iff.mp hcomma).1
    next => exact ih h

/-- The names of the variables of a declaration are identifiers, in the order of the tokens. -/
theorem names_readAll_sublist (ts : List Token) :
    (readAll ts).map (·.name) <+ ts ∧ ∀ d ∈ readAll ts, d.name.isIdentifier = true := by
  fun_induction readAll ts with
  | case1 => exact ⟨List.nil_sublist _, by simp⟩
  | case2 => exact ⟨List.nil_sublist _, by simp⟩
  | case3 ts isOperator name qualifier confidence afterName hname initializer hfits ih =>
    obtain ⟨⟨front, mid, hts⟩, hid⟩ := name_append hname
    have hdrop := hts ▸ List.dropWhile_suffix (l := ts) isOperator
    split
    · refine ⟨(List.singleton_sublist.mpr ?_).trans hdrop.sublist, by simpa using hid⟩
      simp
    · next comma others hr =>
      obtain ⟨hnames, hids⟩ := ih comma others hr
      have hothers : others <:+ afterName :=
        (List.suffix_cons _ _).trans
          (hr ▸ (suffix_upToComma 0 (afterBounds afterName)).trans (suffix_afterBounds afterName))
      refine ⟨Sublist.trans ?_ hdrop.sublist, by simpa using ⟨hid, hids⟩⟩
      refine Sublist.trans ?_ (List.sublist_append_right front _)
      exact ((hnames.trans hothers.sublist).trans (List.sublist_append_right mid _)).cons_cons name

theorem fst_upToComma_sublist (depth : Nat) (ts : List Token) : (upToComma depth ts).1 <+ ts := by
  have happend := List.sublist_append_left (upToComma depth ts).1 (upToComma depth ts).2
  rwa [upToComma_append] at happend

theorem withoutSign_suffix (ts : List Token) : withoutSign ts <:+ ts := by
  unfold withoutSign
  split
  · exact List.suffix_rfl
  · split
    · exact List.suffix_cons _ _
    · exact List.suffix_rfl

/-- The signs in front of the names of the variables and their initializers are tokens given. -/
theorem parts_readAll_subset (ts : List Token) :
    ∀ d ∈ readAll ts, d.operators ⊆ ts ∧ d.initializer ⊆ ts := by
  fun_induction readAll ts with
  | case1 => simp
  | case2 => simp
  | case3 ts isOperator name qualifier confidence afterName hname initializer hfits ih =>
    obtain ⟨⟨front, mid, hts⟩, -⟩ := name_append hname
    have hafter : afterName ⊆ ts := by
      refine List.Subset.trans ?_ (List.dropWhile_suffix (l := ts) isOperator).subset
      rw [hts]
      exact ((List.suffix_append mid afterName).trans
        ((List.suffix_cons name _).trans (List.suffix_append front _))).subset
    have hbounds := List.Subset.trans (suffix_afterBounds afterName).subset hafter
    have hfirst : ts.takeWhile isOperator ⊆ ts ∧ withoutSign initializer ⊆ ts :=
      ⟨(List.takeWhile_sublist _).subset, List.Subset.trans (withoutSign_suffix _).subset
        (List.Subset.trans (fst_upToComma_sublist 0 (afterBounds afterName)).subset hbounds)⟩
    refine List.forall_mem_cons.mpr ⟨hfirst, ?_⟩
    split
    · simp
    · next comma others hr =>
      have hothers : others ⊆ ts :=
        List.Subset.trans (List.suffix_cons _ _).subset
          (List.Subset.trans (hr ▸ (suffix_upToComma 0 (afterBounds afterName)).subset) hbounds)
      exact fun d hd => (ih comma others hr d hd).imp (List.Subset.trans · hothers) (List.Subset.trans · hothers)

end Declarator

namespace Parameter

/-- The name of a parameter is an identifier of its part. -/
theorem name_mem_ofPart {part : List Token} {p : Parameter} {t : Token} (h : ofPart? part = some p)
    (ht : p.name = some t) : t ∈ part ∧ t.isIdentifier = true := by
  have hdecl : part.takeWhile (!·.isPunct .eq) <+ part := List.takeWhile_sublist _
  unfold ofPart? at h
  dsimp only at h
  split at h
  · exact absurd h (by simp)
  · split at h
    · exact absurd h (by simp)
    · split at h
      · rw [Option.some.injEq] at h
        subst h
        exact absurd ht (by simp)
      · next rest hrest =>
        -- what is read behind the type is a part of the part
        have hmem : ∀ u ∈ rest, u ∈ part := fun u hu =>
          hdecl.subset (((suffix_afterType hrest).trans (suffix_specifiers _)).subset hu)
        split at h
        · rw [Option.some.injEq] at h
          subst h
          exact absurd ht (by simp)
        · next u more =>
          split at h
          · next hid =>
            rw [Option.some.injEq] at h
            subst h
            obtain rfl := Option.some.inj ht
            exact ⟨hmem _ (by simp), hid⟩
          · split at h
            · split at h
              · rw [Option.some.injEq] at h
                subst h
                exact absurd ht (by simp)
              · next name hname =>
                rw [Option.some.injEq] at h
                subst h
                obtain rfl := Option.some.inj ht
                exact ⟨hmem _ (List.mem_of_find?_eq_some hname), List.find?_some hname⟩
            · rw [Option.some.injEq] at h
              subst h
              exact absurd ht (by simp)

/-- The names of the parameters of a list are identifiers, in the order of the tokens. -/
theorem names_readAll_sublist (inside : List Token) :
    (readAll inside).filterMap (·.name) <+ inside ∧
      ∀ p ∈ readAll inside, ∀ t, p.name = some t → t.isIdentifier = true := by
  unfold readAll
  split
  · exact ⟨List.nil_sublist _, by simp⟩
  · refine ⟨?_, fun p hp t ht => ?_⟩
    · rw [List.filterMap_filterMap]
      refine (filterMap_sublist_flatten (fun part t h => ?_) _).trans (allCommaParts_sublist inside)
      obtain ⟨p, hp, ht⟩ := Option.bind_eq_some_iff.mp h
      exact (name_mem_ofPart hp ht).1
    · obtain ⟨part, -, hpart⟩ := List.mem_filterMap.mp hp
      exact (name_mem_ofPart hpart ht).2

end Parameter

/-- The name of a template parameter is an identifier of its part. -/
theorem mem_of_templateParameter {part : List Token} {t : Token} (h : templateParameter? part = some t) :
    t ∈ part ∧ t.isIdentifier = true := by
  unfold templateParameter? at h
  dsimp only at h
  split at h
  · next last _ hlast =>
    split at h
    · next hcond =>
      obtain rfl := Option.some.inj h
      rw [Bool.and_eq_true] at hcond
      exact ⟨(List.takeWhile_sublist _).subset (List.mem_of_getLast? hlast), hcond.1⟩
    · exact absurd h (by simp)
  · exact absurd h (by simp)

end HouseStyle
