import HouseStyle.Proofs.ScopedEnums

/-!
# Uses of names in rewritten code

Whether a rename is safe and whether an enumeration can become scoped is judged by the uses of names, each by the
tokens in front of it. In rewritten code the uses are those of before, with what these tokens have become in front
of them (`Rewriting.exists_split`). So they are judged as before.

- `Rewriting.usesMayMean_code`: whether every use of a name can mean an entity.
- `Rewrites.mem_declaringNames_iff`: the names that may stand in front of a `::`.
- `Rewrites.isRenameable_iff`: whether a rename is safe, but for the names that are in use.
- `Rewrites.leak_eq_none`: whether an enumerator is used without qualification.
-/

namespace HouseStyle

/-! ## Tokens and what stands in front of them -/

namespace Rewriting

variable {w : Rewriting}

/-- A name in rewritten code stands for one in the code, and what is in front of it is rewritten. -/
theorem exists_split {ts front' back' : List Token} {t' : Token} (h : w.code ts = front' ++ t' :: back')
    (ht : t'.isIdentifier = true) :
    ∃ front t back, ts = front ++ t :: back ∧ front' = w.code front ∧ t' = w.token t := by
  induction ts generalizing front' with
  | nil => exact absurd h (by simp)
  | cons u ts ih =>
    rw [code_cons] at h
    cases front' with
    | nil =>
      obtain ⟨rfl, -⟩ := List.cons.inj h
      exact ⟨[], u, ts, rfl, rfl, rfl⟩
    | cons a more =>
      obtain ⟨rfl, hrest⟩ := List.cons.inj h
      unfold behind at hrest
      split at hrest
      next hs =>
        cases more with
        | nil =>
          -- `class` is no name
          obtain ⟨rfl, -⟩ := List.cons.inj hrest
          exact absurd ht (by simp [Token.isIdentifier, w.kind_inserted])
        | cons b more =>
          obtain ⟨rfl, hmore⟩ := List.cons.inj hrest
          obtain ⟨front, t, back, rfl, rfl, rfl⟩ := ih hmore
          exact ⟨u :: front, t, back, rfl, by rw [code_cons, behind, if_pos hs], rfl⟩
      next hs =>
        obtain ⟨front, t, back, rfl, rfl, rfl⟩ := ih hrest
        exact ⟨u :: front, t, back, rfl, by rw [code_cons, behind, if_neg hs], rfl⟩

theorem token_mem_code {t : Token} {ts : List Token} (h : t ∈ ts) : w.token t ∈ w.code ts := by
  obtain ⟨front, back, rfl⟩ := List.append_of_mem h
  rw [code_append, code_cons]
  exact List.mem_append_right _ List.mem_cons_self

theorem isOneOf_last (t : Token) (ps : List Punct) : (w.last t).isOneOf ps = t.isOneOf ps := by
  unfold last
  split
  next hs => simp [Token.isOneOf, w.kind_inserted, w.kind_of_scopes t hs]
  next => exact isOneOf_token t ps

/-- What stands in front of rewritten tokens, read backwards. -/
theorem reverse_code_concat (front : List Token) (p : Token) :
    (w.code (front ++ [p])).reverse =
      if w.scopes p then w.inserted p :: w.token p :: (w.code front).reverse
      else w.token p :: (w.code front).reverse := by
  rw [code_append, code_cons, code_nil, behind]
  split <;> simp

end Rewriting

namespace NamingRule

/-- Every use of a name can mean an entity if that can be told of each by what stands in front of it. -/
theorem usesMayMean_iff {name : Text} {isMember : Bool} {names : List Text} {before ts : List Token} :
    usesMayMean name isMember names before ts = true ↔
      ∀ front t back, ts = front ++ t :: back → t.isIdentifier = true → t.text = name →
        mayMean isMember names (front.reverse ++ before) = true := by
  induction ts generalizing before with
  | nil => simp [usesMayMean]
  | cons u ts ih =>
    rw [usesMayMean, Bool.and_eq_true, ih]
    constructor
    · rintro ⟨hfirst, hrest⟩ front t back heq hid hname
      cases front with
      | nil =>
        obtain ⟨rfl, rfl⟩ := List.cons.inj heq
        simpa [hid, hname] using hfirst
      | cons v front =>
        obtain ⟨rfl, rfl⟩ := List.cons.inj heq
        rw [List.reverse_cons, List.append_assoc]
        exact hrest front t back rfl hid hname
    · intro hall
      constructor
      · by_cases huse : u.isIdentifier = true ∧ u.text = name
        · have := hall [] u ts rfl huse.1 huse.2
          simpa [huse.1, huse.2] using this
        · rw [Bool.or_eq_true, Bool.not_eq_true', Bool.and_eq_false_iff, beq_eq_false_iff_ne]
          exact Or.inl (not_and_or.mp huse |>.imp (by simp) id)
      · intro front t back heq hid hname
        have := hall (u :: front) t back (by rw [heq]; rfl) hid hname
        rwa [List.reverse_cons, List.append_assoc] at this

end NamingRule

namespace Rewriting

open NamingRule

variable {w : Rewriting}

/-- What a use can mean is told by what the tokens in front of it have become. -/
theorem mayMean_code {isMember : Bool} {names names' : List Text} {front : List Token}
    (hnames : ∀ more q p, front = more ++ [q, p] → q.isIdentifier = true → p.isPunct .scope = true →
      (w.name q.text ∈ names' ↔ q.text ∈ names)) :
    mayMean isMember names' (w.code front).reverse = mayMean isMember names front.reverse := by
  have enum_kind : ∀ t, w.scopes t = true → t.kind = .keyword .enumKw := w.kind_of_scopes
  rcases List.eq_nil_or_concat front with rfl | ⟨before, p, rfl⟩
  · rfl
  rw [List.concat_eq_append] at hnames ⊢
  rw [reverse_code_concat, List.reverse_concat]
  split
  next hs =>
    -- neither `class` nor the `enum` in front of it says anything
    simp [mayMean, Token.isOneOf, Token.isPunct, w.kind_inserted, enum_kind p hs]
  next hs =>
    unfold mayMean
    dsimp only
    rw [isOneOf_token, isPunct_token]
    split
    · rfl
    split
    next hscope =>
      rcases List.eq_nil_or_concat before with rfl | ⟨more, q, rfl⟩
      · rfl
      rw [List.concat_eq_append] at hnames ⊢
      rw [reverse_code_concat, List.reverse_concat]
      by_cases hq : w.scopes q = true
      · simp [hq, Token.isIdentifier, Token.isPunct, w.kind_inserted, enum_kind q hq]
      · rw [if_neg hq]
        dsimp only
        rw [isIdentifier_token, isPunct_token]
        by_cases hid : q.isIdentifier = true
        · rw [if_pos hid, if_pos hid, w.text_name q (beq_iff_eq.mp hid), Bool.eq_iff_iff, List.contains_iff_mem,
            List.contains_iff_mem]
          exact hnames more q p (by simp) hid hscope
        · rw [if_neg hid, if_neg hid]
    · rfl

/-- Every use of a name can mean an entity just if every use of what the name becomes can. -/
theorem usesMayMean_code {n : Text} (hn : w.Apart n) {isMember : Bool} {names names' : List Text} {ts : List Token}
    (hnames : ∀ more q p t back, ts = more ++ q :: p :: t :: back → q.isIdentifier = true →
      p.isPunct .scope = true → t.isIdentifier = true → (w.name q.text ∈ names' ↔ q.text ∈ names)) :
    usesMayMean (w.name n) isMember names' [] (w.code ts) = usesMayMean n isMember names [] ts := by
  have judged : ∀ front t back, ts = front ++ t :: back → t.isIdentifier = true →
      mayMean isMember names' (w.code front).reverse = mayMean isMember names front.reverse := by
    rintro front t back rfl hid
    refine mayMean_code fun more q p heq hq hp => hnames more q p t back ?_ hq hp hid
    rw [heq, List.append_assoc]
    rfl
  rw [Bool.eq_iff_iff, usesMayMean_iff, usesMayMean_iff]
  simp only [List.append_nil]
  constructor
  · intro h front t back heq hid hname
    rw [← judged front t back heq hid]
    refine h (w.code front) (w.token t) (w.behind t (w.code back)) ?_ (by rw [isIdentifier_token, hid]) ?_
    · rw [heq, code_append, code_cons]
    · rw [w.text_name t (beq_iff_eq.mp hid), hname]
  · intro h front' t' back' heq hid hname
    obtain ⟨front, t, back, hts, rfl, rfl⟩ := exists_split heq hid
    rw [isIdentifier_token] at hid
    rw [w.text_name t (beq_iff_eq.mp hid)] at hname
    rw [judged front t back hts hid]
    exact h front t back hts hid (hn t.text hname.symm).symm

/-! ## Names -/

/-- A name that starts as that of an operator does. -/
def LooksLikeOperator (name : Text) : Prop := Text.ofString "operator" <+: name

instance (name : Text) : Decidable (LooksLikeOperator name) := inferInstanceAs (Decidable (_ <+: _))

/-- Whatever is shown under a name that stays apart is shown under what the name becomes. -/
theorem DisplayMatches.eq_iff {code : List Token} {t : Token} {a b n : Text} (h : DisplayMatches w code t a b)
    (hn : w.Apart n) (hold : ¬LooksLikeOperator n) (hnew : ¬LooksLikeOperator (w.name n)) :
    b = w.name n ↔ a = n := by
  cases h with
  | name hid => exact ⟨fun heq => (hn a heq.symm).symm, congrArg w.name⟩
  | operator hkeyword hus =>
    refine iff_of_false (fun heq => hnew ?_) fun heq => hold ?_
    · rw [← heq]
      exact List.prefix_append _ _
    · rw [← heq]
      exact List.prefix_append _ _

end Rewriting

/-! ## What is looked up in a model -/

namespace NamingRule

theorem hasOneKind_iff {m : Model} {n : Text} :
    hasOneKind m n = true ↔
      ∃ k, (∃ e ∈ m.entities, e.name = n ∧ e.kind = k) ∧ ∀ e ∈ m.entities, e.name = n → e.kind = k := by
  unfold hasOneKind
  have hmem : ∀ e, e ∈ m.entitiesNamed n ↔ e ∈ m.entities ∧ e.name = n := by
    simp [Model.entitiesNamed, List.mem_filter]
  generalize m.entitiesNamed n = named at hmem
  cases named with
  | nil =>
    refine iff_of_false (by simp) ?_
    rintro ⟨k, ⟨e, he, hn, -⟩, -⟩
    exact absurd ((hmem e).mpr ⟨he, hn⟩) (by simp)
  | cons a others =>
    rw [List.all_eq_true]
    constructor
    · intro hall
      obtain ⟨ha, hn⟩ := (hmem a).mp List.mem_cons_self
      refine ⟨a.kind, ⟨a, ha, hn, rfl⟩, fun e he hname => ?_⟩
      rcases List.mem_cons.mp ((hmem e).mpr ⟨he, hname⟩) with rfl | he
      · rfl
      · exact beq_iff_eq.mp (hall e he)
    · rintro ⟨k, -, hall⟩ e he
      obtain ⟨ha, hn⟩ := (hmem a).mp List.mem_cons_self
      obtain ⟨he, hname⟩ := (hmem e).mp (List.mem_cons_of_mem a he)
      rw [hall e he hname, hall a ha hn, beq_self_eq_true]

theorem mem_declaringNames_iff {m : Model} {n : Text} :
    n ∈ declaringNames m ↔
      (∃ e ∈ m.entities, (e.kind = .class_ ∨ e.kind = .struct_ ∨ e.kind = .enum ∨ e.kind = .namespace_) ∧
          e.name = n) ∨
        (∃ (i : Nat) (s : Scope), m.scopes[i]? = some s ∧ s.name = some n) ∨ ∃ e ∈ m.entities, n ∈ e.qualifier := by
  unfold declaringNames
  rw [List.append_assoc, List.mem_append, List.mem_append]
  refine or_congr ?_ (or_congr ?_ ?_)
  · simp [List.mem_map, List.mem_filter, or_assoc, and_assoc]
  · rw [List.mem_filterMap, exists_comm]
    refine exists_congr fun s => ?_
    rw [Array.mem_toList_iff, Array.mem_iff_getElem?, exists_and_right]
  · exact List.mem_flatMap

theorem mem_identifiers_iff {f : SourceFile} {n : Text} :
    n ∈ (Uses.ofFile f).identifiers ↔ ∃ t ∈ f.code, t.isIdentifier = true ∧ t.text = n := by
  simp [Uses.ofFile, and_assoc]

theorem mem_directiveWords_iff {f : SourceFile} {n : Text} :
    n ∈ (Uses.ofFile f).directiveWords ↔ ∃ s ∈ f.directives.map (·.text), n ∈ wordsFrom [] s := by
  rw [Uses.ofFile, List.mem_flatMap]
  simp only [List.mem_map, exists_exists_and_eq_and]

/-- A declared name is one of the code or of a directive, unless it is that of a destructor or of an operator. -/
theorem mem_of_entity {config : Config} {isOneOfMany : Bool} {path : SourcePath} {text : Text} {e : Entity}
    (he : e ∈ (extract (tokens text)).entities) (htilde : e.name.head? ≠ some (.scalar '~'))
    (hplain : ¬Rewriting.LooksLikeOperator e.name) :
    e.name ∈ (Uses.ofFile (.ofText config isOneOfMany path text)).identifiers ∨
      e.name ∈ (Uses.ofFile (.ofText config isOneOfMany path text)).directiveWords := by
  rcases entity_cases he with ⟨hcode, hof⟩ | ⟨directive, hmem, hdirective, hdefine⟩
  · left
    rcases hof.named with ⟨hid, hname | ⟨-, hname⟩⟩ | ⟨-, -, symbol, hname⟩
    · exact mem_identifiers_iff.mpr ⟨e.token, hcode, hid, hname.symm⟩
    · exact absurd (by rw [hname]; rfl) htilde
    · exact absurd (by rw [hname]; exact List.prefix_append _ _) hplain
  · right
    obtain ⟨lead, hdefined, -⟩ := hdefine.defined
    refine mem_directiveWords_iff.mpr ⟨directive.text, ?_, (mem_wordsFrom_of_definedName hdefined).1⟩
    exact List.mem_map_of_mem (List.mem_filter.mpr ⟨hmem, hdirective⟩)

/-- What makes a rename safe but for the names that are in use. -/
structure IsRenameable (f : SourceFile) (e : Entity) : Prop where
  oneKind : hasOneKind f.model e.name = true
  isLocal : f.isOneOfMany = true → f.model.isLocal e = true
  uses : usesMayMean e.name (e.kind == .method || f.model.isDataMember e) (Uses.ofFile f).scopeNames [] f.code = true

/-- A rename to the name of no destructor or operator is safe if neither name is in use where it must not be. -/
theorem isSafe_iff_unused {config : Config} {isOneOfMany : Bool} {path : SourcePath} {text : Text} {e : Entity}
    {new : Text} (htilde : new.head? ≠ some (.scalar '~')) (hplain : ¬Rewriting.LooksLikeOperator new) :
    isSafe (.ofText config isOneOfMany path text) (.ofFile (.ofText config isOneOfMany path text)) e new = true ↔
      new ∉ (Uses.ofFile (.ofText config isOneOfMany path text)).identifiers ∧
        new ∉ (Uses.ofFile (.ofText config isOneOfMany path text)).directiveWords ∧
        e.name ∉ (Uses.ofFile (.ofText config isOneOfMany path text)).directiveWords ∧
        IsRenameable (.ofText config isOneOfMany path text) e := by
  rw [isSafe_iff]
  constructor
  · rintro ⟨-, hcode, hwords, hold, hkind, hlocal, huses⟩
    exact ⟨hcode, hwords, hold, hkind, hlocal, huses⟩
  · rintro ⟨hcode, hwords, hold, hkind, hlocal, huses⟩
    refine ⟨fun a ha => ?_, hcode, hwords, hold, hkind, hlocal, huses⟩
    rintro rfl
    exact (mem_of_entity (List.mem_filter.mp ha).1 htilde hplain).elim hcode hwords

end NamingRule

theorem Model.chainFrom_congr {scopes scopes' : Array Scope}
    (h : ∀ i : Nat, scopes'[i]?.bind (·.parent) = scopes[i]?.bind (·.parent)) (room i : Nat) :
    chainFrom scopes' room i = chainFrom scopes room i := by
  induction room generalizing i with
  | zero => rfl
  | succ room ih =>
    rw [chainFrom, chainFrom, h i]
    cases scopes[i]?.bind (·.parent) with
    | none => rfl
    | some p =>
      dsimp only
      rw [ih p]

/-! ## The model of the new file -/

namespace Rewrites

open Extraction Rewriting

section

variable {text updated : Text} {rs : List RewrittenToken} {name : Text → Text} {hname : IsRespelling name}
  {hrs : ∀ r ∈ rs, r.Respects name}

/-- A property of some entity of the new file is one of the entity in its place. -/
theorem exists_entity_iff (h : Rewrites text updated rs)
    (hfits : (Rewriting.ofList hname hrs).Fits (Token.code (tokens text))) {P P' : Entity → Prop}
    (hP : ∀ e e', Corresponds (.ofList hname hrs) rs e e' → (P' e' ↔ P e)) :
    (∃ e' ∈ (extract (tokens updated)).entities, P' e') ↔ ∃ e ∈ (extract (tokens text)).entities, P e := by
  obtain ⟨pairs, hold, hnew, hpairs⟩ := h.exists_pairs hfits
  rw [← hold, ← hnew]
  simp only [List.mem_map, exists_exists_and_eq_and]
  exact exists_congr fun z => and_congr_right fun hz => hP z.1 z.2 (hpairs z hz)

theorem forall_entity_iff (h : Rewrites text updated rs)
    (hfits : (Rewriting.ofList hname hrs).Fits (Token.code (tokens text))) {P P' : Entity → Prop}
    (hP : ∀ e e', Corresponds (.ofList hname hrs) rs e e' → (P' e' ↔ P e)) :
    (∀ e' ∈ (extract (tokens updated)).entities, P' e') ↔ ∀ e ∈ (extract (tokens text)).entities, P e := by
  have hnot := h.exists_entity_iff hfits fun e e' he => not_congr (hP e e' he)
  simpa only [exists_prop, not_exists, not_and, not_not] using not_congr hnot

/-- A macro keeps its name. -/
theorem name_eq_of_isMacroOf (hrs : ∀ r ∈ rs, r.Respects name) {r : RewrittenToken} (hr : r ∈ rs)
    (hkind : r.old.kind = .directive) {e e' : Entity} (he : IsMacroOf e r.old) (he' : IsMacroOf e' r.new) :
    e'.name = e.name := by
  obtain ⟨lead, hdefined, -⟩ := he.defined
  obtain ⟨lead', hdefined', -⟩ := he'.defined
  rw [(hrs r hr).text_other (by simp [hkind]), hdefined] at hdefined'
  exact (Prod.mk.inj (Option.some.inj hdefined')).2.symm

/-- Whether a name that is kept stands for one kind of entity does not change. -/
theorem hasOneKind_eq (h : Rewrites text updated rs)
    (hfits : (Rewriting.ofList hname hrs).Fits (Token.code (tokens text))) {n : Text} (hkept : name n = n)
    (hapart : (Rewriting.ofList hname hrs).Apart n) (hplain : ¬LooksLikeOperator n) :
    NamingRule.hasOneKind (extract (tokens updated)) n = NamingRule.hasOneKind (extract (tokens text)) n := by
  have hnamed : ∀ e e', Corresponds (.ofList hname hrs) rs e e' → (e'.name = n ↔ e.name = n) := by
    intro e e' he
    rcases he.eq with hfollows | ⟨r, hr, hkind, hold, hnew⟩
    · have hiff := hfollows.display.eq_iff hapart hplain (show ¬LooksLikeOperator (name n) by rwa [hkept])
      rwa [show (Rewriting.ofList hname hrs).name n = n from hkept] at hiff
    · rw [name_eq_of_isMacroOf hrs hr hkind hold hnew]
  rw [Bool.eq_iff_iff, NamingRule.hasOneKind_iff, NamingRule.hasOneKind_iff]
  refine exists_congr fun k => and_congr ?_ ?_
  · exact h.exists_entity_iff hfits fun e e' he => by rw [hnamed e e' he, he.kind_eq]
  · exact h.forall_entity_iff hfits fun e e' he => by rw [hnamed e e' he, he.kind_eq]

/-- The scopes at an index. -/
theorem scope_cases (h : Rewrites text updated rs)
    (hfits : (Rewriting.ofList hname hrs).Fits (Token.code (tokens text))) (i : Nat) :
    (extract (tokens text)).scopes[i]? = none ∧ (extract (tokens updated)).scopes[i]? = none ∨
      ∃ s s', (extract (tokens text)).scopes[i]? = some s ∧ (extract (tokens updated)).scopes[i]? = some s' ∧
        (Rewriting.ofList hname hrs).ScopeFollows (Token.code (tokens text)) False s s' := by
  obtain ⟨x, y, hfollows, hopened, hx, hy⟩ := h.exists_follows hfits
  rw [← hx, ← hy]
  refine (hfollows.scope_cases i).imp_right fun ⟨s, s', hs, hs', hscope⟩ => ⟨s, s', hs, hs', hscope.mono ?_⟩
  simp [hopened]

/-- A name that stays apart declares others just if what it becomes does. -/
theorem mem_declaringNames_iff (h : Rewrites text updated rs)
    (hfits : (Rewriting.ofList hname hrs).Fits (Token.code (tokens text))) {n : Text}
    (hapart : (Rewriting.ofList hname hrs).Apart n) (hold : ¬LooksLikeOperator n)
    (hnew : ¬LooksLikeOperator (name n)) :
    name n ∈ NamingRule.declaringNames (extract (tokens updated)) ↔
      n ∈ NamingRule.declaringNames (extract (tokens text)) := by
  rw [NamingRule.mem_declaringNames_iff, NamingRule.mem_declaringNames_iff]
  refine or_congr ?_ (or_congr ?_ ?_)
  · refine h.exists_entity_iff hfits fun e e' he => ?_
    rw [he.kind_eq]
    refine and_congr_right fun hkind => ?_
    rcases he.eq with hfollows | ⟨r, -, -, hdefine, -⟩
    · exact hfollows.display.eq_iff hapart hold hnew
    · exact absurd hkind (by simp [hdefine.kind])
  · refine exists_congr fun i => ?_
    rcases h.scope_cases hfits i with ⟨hs, hs'⟩ | ⟨s, s', hs, hs', hscope⟩
    · simp [hs, hs']
    · rw [hs, hs']
      simp only [Option.some.injEq, exists_eq_left']
      have hdisplay := hscope.display
      generalize s.name = a at hdisplay ⊢
      generalize s'.name = b at hdisplay ⊢
      cases hdisplay with
      | none => simp
      | some hdisplay =>
        obtain ⟨t, ht⟩ := hdisplay
        rw [Option.some.injEq, Option.some.injEq]
        exact ht.eq_iff hapart hold hnew
  · refine h.exists_entity_iff hfits fun e e' he => ?_
    rcases he.eq with hfollows | ⟨r, -, -, hdefine, hdefine'⟩
    · rw [hfollows.eq]
      dsimp only
      rw [List.mem_map]
      exact ⟨fun ⟨s, hs, heq⟩ => hapart s heq.symm ▸ hs, fun hn => ⟨n, hn, rfl⟩⟩
    · rw [hdefine.qualifier, hdefine'.qualifier]
      simp

/-- What is local stays local. -/
theorem isLocal_eq (h : Rewrites text updated rs)
    (hfits : (Rewriting.ofList hname hrs).Fits (Token.code (tokens text))) {e e' : Entity}
    (hkind : e'.kind = e.kind) (hscope : e'.scope = e.scope) :
    (extract (tokens updated)).isLocal e' = (extract (tokens text)).isLocal e := by
  have hat : ∀ {β : Type} (f : Scope → β), (∀ s, f s.bare = f s) →
      (∀ s, f ((Rewriting.ofList hname hrs).scope s) = f s) → ∀ i : Nat,
        ((extract (tokens updated)).scopes[i]?).map f = ((extract (tokens text)).scopes[i]?).map f := by
    intro β f hbare hscope i
    have := congrArg (fun scopes : Array Scope => scopes[i]?.map f) (h.scopes_eq hfits)
    simp only [Array.getElem?_map, Option.map_map] at this
    rwa [show f ∘ Scope.bare = f from funext hbare, show f ∘ (Rewriting.ofList hname hrs).scope = f from
      funext hscope] at this
  have hsize : (extract (tokens updated)).scopes.size = (extract (tokens text)).scopes.size := by
    have := congrArg Array.size (h.scopes_eq hfits)
    rwa [Array.size_map, Array.size_map] at this
  have hchain : (extract (tokens updated)).chain e.scope = (extract (tokens text)).chain e.scope := by
    unfold Model.chain
    rw [hsize]
    refine Model.chainFrom_congr (fun i => ?_) _ _
    have := congrArg (·.bind id) (hat Scope.parent (fun _ => rfl) (fun _ => rfl) i)
    simpa only [Option.bind_map, Function.id_comp] using this
  unfold Model.isLocal
  rw [hkind, hscope, hchain]
  congr 2
  funext i
  have := congrArg (·.any id) (hat (·.kind.isLocal) (fun _ => rfl) (fun _ => rfl) i)
  simpa only [Option.any_map, id, Model.scope?] using this

/-! ## Uses of enumerators -/

/-- A token that ends in front of another one does so as before, with what is put in behind it. -/
theorem last_stop_le (h : Rewrites text updated rs) {v t : Token} (hv : v ∈ Token.code (tokens text))
    (ht : t ∈ Token.code (tokens text)) (hle : v.stop ≤ t.start) :
    ((Rewriting.ofList hname hrs).last v).stop ≤ ((Rewriting.ofList hname hrs).token t).start := by
  obtain ⟨front, back, hcode⟩ := List.append_of_mem hv
  have hold : (Token.code (tokens text)).Pairwise _ := (tokens_ordered text).sublist List.filter_sublist
  have hnew : (Token.code (tokens updated)).Pairwise _ := (tokens_ordered updated).sublist List.filter_sublist
  have hback : t ∈ back := by
    have hvlt := start_lt_stop (List.mem_filter.mp hv).1
    have htlt := start_lt_stop (List.mem_filter.mp ht).1
    rw [hcode, List.pairwise_append] at hold
    rw [hcode] at ht
    rcases List.mem_append.mp ht with hfront | hrest
    · have := hold.2.2 t hfront v List.mem_cons_self
      omega
    · refine (List.mem_cons.mp hrest).resolve_left ?_
      rintro rfl
      omega
  rw [h.code_eq_code hname hrs, hcode, List.append_cons, Rewriting.code_append, Rewriting.code_append,
    List.pairwise_append] at hnew
  refine hnew.2.2 _ (List.mem_append_right _ (List.mem_of_getLast? ?_)) _ (Rewriting.token_mem_code hback)
  rw [Rewriting.getLast_code]
  rfl

/-- What stands outside a scope stands outside it as before. -/
theorem outside_of_outside (h : Rewrites text updated rs) {s s' : Scope}
    (hscope : (Rewriting.ofList hname hrs).ScopeFollows (Token.code (tokens text)) False s s') {t : Token}
    (ht : t ∈ Token.code (tokens text)) (hout : ¬(s.start ≤ t.start ∧ t.start < s.stop)) :
    ¬(s'.start ≤ ((Rewriting.ofList hname hrs).token t).start ∧
      ((Rewriting.ofList hname hrs).token t).start < s'.stop) := by
  obtain ⟨r, hr, rfl⟩ := h.exists_old (List.mem_filter.mp ht).1
  have hroom := start_lt_stop (h.old_mem hr)
  have hroom' := start_lt_stop (h.new_mem hr)
  rintro ⟨hstart, hstop⟩
  refine hout ⟨?_, ?_⟩
  · cases hscope.start with
    | file hold hnew =>
      rw [hold.2]
      exact Nat.zero_le _
    | token hu hold hnew =>
      obtain ⟨a, ha, rfl⟩ := h.exists_old (List.mem_filter.mp hu).1
      have hroom := start_lt_stop (h.old_mem ha)
      rw [hnew, Rewriting.token_old h.nodup hr, Rewriting.token_old h.nodup ha] at hstart
      rw [hold]
      rcases h.inOrder.apart hr ha with rfl | ⟨-, hlt⟩ | ⟨hlt, -⟩ <;> omega
  · rcases hscope.stop.resolve_left id with hnone | @⟨v, hv, hold, hnew⟩
    · rw [hnone] at ht
      exact absurd ht (by simp)
    · rw [hold]
      refine Nat.lt_of_not_le fun hle => ?_
      exact Nat.not_lt.mpr (h.last_stop_le hv ht hle) (hnew ▸ hstop)

/-- The enumerators in a scope are those of before. -/
theorem mem_enumerators (h : Rewrites text updated rs)
    (hfits : (Rewriting.ofList hname hrs).Fits (Token.code (tokens text))) {b : Nat} {n : Text}
    (hn : n ∈ (((extract (tokens text)).entitiesIn b).filter (·.kind == .enumVariant)).map (·.name)) :
    name n ∈ (((extract (tokens updated)).entitiesIn b).filter (·.kind == .enumVariant)).map (·.name) := by
  simp only [Model.entitiesIn, List.mem_map, List.mem_filter, beq_iff_eq, and_assoc] at hn ⊢
  obtain ⟨e, he, hscope, hkind, rfl⟩ := hn
  have hspecial := isSpecial_of_kind he (by simp [hkind]) (by simp [hkind])
  obtain ⟨pairs, hold, hnew, hpairs⟩ := h.exists_pairs hfits
  rw [← hold] at he
  obtain ⟨z, hz, rfl⟩ := List.mem_map.mp he
  rcases (hpairs z hz).eq with hfollows | ⟨r, -, -, hdefine, -⟩
  · refine ⟨z.2, hnew ▸ List.mem_map_of_mem hz, ?_, (hpairs z hz).kind_eq.trans hkind, hfollows.name_eq hspecial⟩
    rw [hfollows.eq]
    exact hscope
  · exact absurd (hkind.symm.trans hdefine.kind) (by decide)

/-- A use of a name without qualification is one of what the name becomes. -/
theorem unqualifiedUse_eq_none (h : Rewrites text updated rs) {names names' : List Text}
    (hnames : ∀ n ∈ names, name n ∈ names') {s s' : Scope}
    (hscope : (Rewriting.ofList hname hrs).ScopeFollows (Token.code (tokens text)) False s s')
    (hnone : UnscopedEnumRule.unqualifiedUse? names' s' none (Token.code (tokens updated)) = none) :
    UnscopedEnumRule.unqualifiedUse? names s none (Token.code (tokens text)) = none := by
  rw [UnscopedEnumRule.unqualifiedUse_eq_none_iff] at hnone ⊢
  intro front t back hcode hid hmem hout
  have ht : t ∈ Token.code (tokens text) := by simp [hcode]
  simp only [Bool.not_eq_true', Bool.and_eq_false_iff, decide_eq_false_iff_not, ← not_and_or] at hnone hout
  have hsign := hnone _ ((Rewriting.ofList hname hrs).token t) _
    (by rw [h.code_eq_code hname hrs, hcode, Rewriting.code_append, Rewriting.code_cons])
    (by rwa [Rewriting.isIdentifier_token])
    (by rw [Rewriting.text_name _ _ (beq_iff_eq.mp hid)]; exact hnames _ hmem)
    (h.outside_of_outside hscope ht hout)
  rw [Option.or_none] at hsign ⊢
  rw [Rewriting.getLast_code, Option.any_map] at hsign
  obtain ⟨sign, hlast, hsign⟩ := (Option.any_eq_true _ _).mp hsign
  rw [hlast]
  exact (Rewriting.isOneOf_last sign _).symm.trans hsign

/-- An enumerator that was used without qualification still is. -/
theorem leak_eq_none (h : Rewrites text updated rs)
    (hfits : (Rewriting.ofList hname hrs).Fits (Token.code (tokens text))) {config : Config} {isOneOfMany : Bool}
    {path : SourcePath} {b : Nat}
    (hnone : UnscopedEnumRule.leak? (.ofText config isOneOfMany path updated) b = none) :
    UnscopedEnumRule.leak? (.ofText config isOneOfMany path text) b = none := by
  rcases h.scope_cases hfits b with ⟨hs, -⟩ | ⟨s, s', hs, hs', hscope⟩
  · unfold UnscopedEnumRule.leak?
    rw [show (SourceFile.ofText config isOneOfMany path text).model.scope? b = none from hs]
  · have hnew : (SourceFile.ofText config isOneOfMany path updated).model.scope? b = some s' := hs'
    rw [UnscopedEnumRule.leak_eq_none_iff hnew] at hnone
    have hold : (SourceFile.ofText config isOneOfMany path text).model.scope? b = some s := hs
    rw [UnscopedEnumRule.leak_eq_none_iff hold]
    exact h.unqualifiedUse_eq_none (fun n => h.mem_enumerators hfits) hscope hnone

/-! ## Uses of names -/

/-- The names in the code of the new file are what those of the old one have become. -/
theorem mem_identifiers_iff (h : Rewrites text updated rs) (hname : IsRespelling name)
    (hrs : ∀ r ∈ rs, r.Respects name) {config : Config} {isOneOfMany : Bool} {path : SourcePath} {n : Text} :
    n ∈ (NamingRule.Uses.ofFile (.ofText config isOneOfMany path updated)).identifiers ↔
      ∃ s ∈ (NamingRule.Uses.ofFile (.ofText config isOneOfMany path text)).identifiers, name s = n := by
  have hcode := h.code_eq_code hname hrs
  simp only [NamingRule.mem_identifiers_iff, SourceFile.ofText]
  constructor
  · rintro ⟨t', ht', hid, rfl⟩
    obtain ⟨front', back', hsplit⟩ := List.append_of_mem ht'
    obtain ⟨front, t, back, hold, -, rfl⟩ := exists_split (hcode.symm.trans hsplit) hid
    rw [isIdentifier_token] at hid
    exact ⟨t.text, ⟨t, by simp [hold], hid, rfl⟩, ((Rewriting.ofList hname hrs).text_name t (beq_iff_eq.mp hid)).symm⟩
  · rintro ⟨_, ⟨t, ht, hid, rfl⟩, rfl⟩
    refine ⟨(Rewriting.ofList hname hrs).token t, hcode ▸ token_mem_code ht, ?_, text_name _ t (beq_iff_eq.mp hid)⟩
    rwa [isIdentifier_token]

theorem directiveTexts_written (us : List RewrittenToken) (hus : ∀ r ∈ us, r.Respects name) :
    ((us.flatMap (·.written)).filter (·.isDirective)).map (·.text) =
      ((us.map (·.old)).filter (·.isDirective)).map (·.text) := by
  rw [directives_written us hus, List.filter_map, List.map_map, List.map_map]
  refine List.map_congr_left fun r hr => ?_
  obtain ⟨hr, hdirective⟩ := List.mem_filter.mp hr
  exact (hus r hr).text_other (by
    simp only [Token.isDirective, beq_iff_eq] at hdirective
    simp [hdirective])

/-- Where no line is put in the directives say what they said. -/
theorem directiveTexts_eq (h : Rewrites text updated rs) (hrs : ∀ r ∈ rs, r.Respects name)
    (htokens : tokens updated = rs.flatMap (·.written)) :
    ((tokens updated).filter (·.isDirective)).map (·.text) = ((tokens text).filter (·.isDirective)).map (·.text) := by
  rw [htokens, directiveTexts_written rs hrs, h.old]

/-- The comments at the start are those of before. -/
theorem leadingTexts_written (us : List RewrittenToken) (hus : ∀ r ∈ us, r.Respects name) :
    ((us.flatMap (·.written)).takeWhile (·.isComment)).map (·.text) =
      ((us.map (·.old)).takeWhile (·.isComment)).map (·.text) := by
  induction us with
  | nil => rfl
  | cons r us ih =>
    rw [List.forall_mem_cons] at hus
    have hkind : r.new.isComment = r.old.isComment := by simp only [Token.isComment, hus.1.kind]
    rw [List.flatMap_cons, RewrittenToken.written, List.cons_append, List.map_cons, List.takeWhile_cons,
      List.takeWhile_cons, hkind]
    cases hcomment : r.old.isComment with
    | false => rfl
    | true =>
      -- nothing is put in behind a comment
      have hother : r.old.kind = .comment := by simpa [Token.isComment] using hcomment
      have hnone : r.behind = none := by
        refine Option.eq_none_iff_forall_ne_some.mpr fun u hu => ?_
        exact absurd (hother.symm.trans (hus.1.kind_of_behind (by rw [hu]; rfl))) (by simp)
      rw [hnone, Option.toList_none, List.nil_append, if_pos rfl, if_pos rfl, List.map_cons, List.map_cons, ih hus.2,
        hus.1.text_other (by simp [hother])]

/-- The directives of the new file say what those of the old one say, and between them a guarding line may stand. -/
theorem exists_directiveTexts (h : Rewrites text updated rs) (hrs : ∀ r ∈ rs, r.Respects name) :
    ∃ above put below, ((tokens text).filter (·.isDirective)).map (·.text) = above ++ below ∧
      ((tokens updated).filter (·.isDirective)).map (·.text) = above ++ put ++ below ∧
      ∀ s ∈ put, s = Text.ofString "#pragma once" := by
  obtain ⟨front, put, back, rfl, htokens, hput⟩ := h.new
  refine ⟨((front.map (·.old)).filter (·.isDirective)).map (·.text), (put.filter (·.isDirective)).map (·.text),
    ((back.map (·.old)).filter (·.isDirective)).map (·.text), ?_, ?_, ?_⟩
  · rw [← h.old, List.map_append, List.filter_append, List.map_append]
  · rw [htokens, List.filter_append, List.filter_append, List.map_append, List.map_append,
      directiveTexts_written front fun r hr => hrs r (List.mem_append_left _ hr),
      directiveTexts_written back fun r hr => hrs r (List.mem_append_right _ hr)]
  · intro s hs
    obtain ⟨t, ht, rfl⟩ := List.mem_map.mp hs
    exact (hput t (List.mem_filter.mp ht).1).2

/-- The words of directives stay in use, and those of a guarding line come to them at most. -/
theorem directiveWords_cases (h : Rewrites text updated rs) (hrs : ∀ r ∈ rs, r.Respects name) {config : Config}
    {isOneOfMany : Bool} {path : SourcePath} (n : Text) :
    (n ∈ (NamingRule.Uses.ofFile (.ofText config isOneOfMany path text)).directiveWords →
        n ∈ (NamingRule.Uses.ofFile (.ofText config isOneOfMany path updated)).directiveWords) ∧
      (n ∈ (NamingRule.Uses.ofFile (.ofText config isOneOfMany path updated)).directiveWords →
        n ∈ (NamingRule.Uses.ofFile (.ofText config isOneOfMany path text)).directiveWords ∨
          n = Text.ofString "pragma" ∨ n = Text.ofString "once") := by
  have hwords : NamingRule.wordsFrom [] (Text.ofString "#pragma once") =
    [Text.ofString "pragma", Text.ofString "once"] := by decide
  obtain ⟨above, put, below, hold, hnew, hput⟩ := h.exists_directiveTexts hrs
  simp only [NamingRule.mem_directiveWords_iff, SourceFile.directives, SourceFile.ofText]
  rw [hold, hnew]
  constructor
  · rintro ⟨s, hs, hn⟩
    rcases List.mem_append.mp hs with hs | hs
    · exact ⟨s, by simp [hs], hn⟩
    · exact ⟨s, by simp [hs], hn⟩
  · rintro ⟨s, hs, hn⟩
    rw [List.append_assoc] at hs
    rcases List.mem_append.mp hs with hs | hs
    · exact Or.inl ⟨s, List.mem_append_left _ hs, hn⟩
    · rcases List.mem_append.mp hs with hs | hs
      · rw [hput s hs, hwords] at hn
        exact Or.inr (by simpa using hn)
      · exact Or.inl ⟨s, List.mem_append_right _ hs, hn⟩

/-- A name that is kept and stays apart stands for an entity as well as before. -/
theorem isRenameable_iff (h : Rewrites text updated rs)
    (hfits : (Rewriting.ofList hname hrs).Fits (Token.code (tokens text))) {config : Config} {isOneOfMany : Bool}
    {path : SourcePath} {e e' : Entity}
    (hfollows : (Rewriting.ofList hname hrs).EntityFollows (Token.code (tokens text)) e e')
    (hsame : e'.name = e.name) (hkept : name e.name = e.name) (hapart : (Rewriting.ofList hname hrs).Apart e.name)
    (hplain : ∀ t ∈ Token.code (tokens text), t.isIdentifier = true →
      ¬LooksLikeOperator t.text ∧ ¬LooksLikeOperator (name t.text)) (hname' : ¬LooksLikeOperator e.name) :
    NamingRule.IsRenameable (.ofText config isOneOfMany path updated) e' ↔
      NamingRule.IsRenameable (.ofText config isOneOfMany path text) e := by
  have hkind : e'.kind = e.kind := by rw [hfollows.eq]
  have hscope : e'.scope = e.scope := by rw [hfollows.eq]
  have hone : NamingRule.hasOneKind (extract (tokens updated)) e'.name =
      NamingRule.hasOneKind (extract (tokens text)) e.name := by
    rw [hsame]
    exact h.hasOneKind_eq hfits hkept hapart hname'
  have hlocal := h.isLocal_eq hfits hkind hscope
  have hmember := h.isDataMember_eq hfits hfollows
  have huses : NamingRule.usesMayMean e'.name (e'.kind == .method || (extract (tokens updated)).isDataMember e')
        (NamingRule.declaringNames (extract (tokens updated))) [] (Token.code (tokens updated)) =
      NamingRule.usesMayMean e.name (e.kind == .method || (extract (tokens text)).isDataMember e)
        (NamingRule.declaringNames (extract (tokens text))) [] (Token.code (tokens text)) := by
    rw [hsame.trans hkept.symm, hkind, hmember, h.code_eq_code hname hrs]
    refine Rewriting.usesMayMean_code hapart fun more q p t back hcode hq hp ht => ?_
    -- what stands in front of a `::` is compared, and so it stays apart
    have hcompared : q.text ∈ comparedNames (Token.code (tokens text)) :=
      List.mem_append_left _ (hcode ▸ mem_qualifiers_of_scope hq hp ht)
    obtain ⟨hold, hnew⟩ := hplain q (by simp [hcode]) hq
    exact h.mem_declaringNames_iff hfits (hfits.apart _ hcompared) hold hnew
  constructor
  · rintro ⟨h₁, h₂, h₃⟩
    exact ⟨hone.symm.trans h₁, fun hmany => hlocal.symm.trans (h₂ hmany), huses.symm.trans h₃⟩
  · rintro ⟨h₁, h₂, h₃⟩
    exact ⟨hone.trans h₁, fun hmany => hlocal.trans (h₂ hmany), huses.trans h₃⟩

/-! ## Styles of names -/

theorem isExempt_eq {e e' : Entity}
    (hfollows : (Rewriting.ofList hname hrs).EntityFollows (Token.code (tokens text)) e e') (config : NamingConfig) :
    NamingRule.isExempt config e' = NamingRule.isExempt config { e with name := e'.name } := by
  unfold NamingRule.isExempt
  rw [show e'.isSpecial = e.isSpecial by rw [hfollows.eq], show e'.isOverride = e.isOverride by rw [hfollows.eq],
    show e'.kind = e.kind by rw [hfollows.eq], show e'.confidence = e.confidence by rw [hfollows.eq]]

/-- An entity of the new file is in its style just if the old one would be under its name. -/
theorem isCased_eq (h : Rewrites text updated rs)
    (hfits : (Rewriting.ofList hname hrs).Fits (Token.code (tokens text))) {e e' : Entity}
    (hfollows : (Rewriting.ofList hname hrs).EntityFollows (Token.code (tokens text)) e e') :
    NamingRule.isCased (extract (tokens updated)) e' =
      NamingRule.isCased (extract (tokens text)) { e with name := e'.name } := by
  unfold NamingRule.isCased
  rw [h.isDataMember_eq hfits hfollows, show e'.kind = e.kind by rw [hfollows.eq]]
  rfl

theorem suggestion_eq (h : Rewrites text updated rs)
    (hfits : (Rewriting.ofList hname hrs).Fits (Token.code (tokens text))) {e e' : Entity}
    (hfollows : (Rewriting.ofList hname hrs).EntityFollows (Token.code (tokens text)) e e') :
    NamingRule.suggestion? (extract (tokens updated)) e' =
      NamingRule.suggestion? (extract (tokens text)) { e with name := e'.name } := by
  unfold NamingRule.suggestion?
  rw [h.isDataMember_eq hfits hfollows, show e'.kind = e.kind by rw [hfollows.eq]]
  rfl

end

end Rewrites

end HouseStyle
