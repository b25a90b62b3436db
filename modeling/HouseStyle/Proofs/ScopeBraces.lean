import HouseStyle.Proofs.Nesting
import HouseStyle.Proofs.Provenance

/-!
# Scopes and braces

The braces of a file and its scopes go together: a brace that opens is passed over with its whole group, or a
scope is entered at it, and then the scope ends at the partner of the brace. There are two places where this
is not so. The declarators behind the closing brace of a class or an enumeration, and a `typedef` that is not
one of a class, are read as a head, and if the head ends in the brace of a body, reading goes on inside this
body without a scope. Then the closing brace of the body closes the scope around it, and the last closing
brace of the file closes nothing.

- `outcome_statement`: what a statement does to the scopes and to the braces.
- `kept_typedefStatement`, `kept_trailingDeclarators`: what the two do that may pass a body
  (`Reading.passesBody`).
-/

namespace HouseStyle

open List (Sublist)

namespace Extraction

variable {x y z : Extraction} {ts us : List Token}

/-! ## What becomes of the scopes -/

/-- No scope has been entered or left; what has been added are scopes of functions without a body. -/
structure Kept (x y : Extraction) : Prop where
  opened : y.opened = x.opened
  size : x.scopes.size ≤ y.scopes.size
  old : ∀ i < x.scopes.size, y.scopes[i]? = x.scopes[i]?
  new : ∀ (i : Nat) (s : Scope), x.scopes.size ≤ i → y.scopes[i]? = some s → s.kind = .function

theorem Kept.of_eq (hopened : y.opened = x.opened) (hscopes : y.scopes = x.scopes) : Kept x y := by
  refine ⟨hopened, Nat.le_of_eq (by rw [hscopes]), fun i _ => by rw [hscopes], fun i s hi hs => ?_⟩
  rw [hscopes] at hs
  have hlt := (Array.getElem?_eq_some_iff.mp hs).1
  omega

theorem Kept.refl (x : Extraction) : Kept x x := .of_eq rfl rfl

theorem Kept.trans (hxy : Kept x y) (hyz : Kept y z) : Kept x z := by
  refine ⟨hyz.opened.trans hxy.opened, Nat.le_trans hxy.size hyz.size, fun i hi => ?_, fun i s hi hs => ?_⟩
  · rw [hyz.old i (Nat.lt_of_lt_of_le hi hxy.size), hxy.old i hi]
  · by_cases hlt : i < y.scopes.size
    · rw [hyz.old i hlt] at hs
      exact hxy.new i s hi hs
    · exact hyz.new i s (Nat.le_of_not_lt hlt) hs

/-- Scopes that are left by one brace: all but the outermost one are chained to the one around them. -/
def IsGroup (scopes : Array Scope) (g : List Nat) : Prop :=
  ∃ front i, g = front ++ [i] ∧ (∀ j ∈ front, ∃ s, scopes[j]? = some s ∧ s.chained = true) ∧
    ∃ s, scopes[i]? = some s ∧ s.chained = false

theorem IsGroup.mono {scopes scopes' : Array Scope} {g : List Nat} (h : IsGroup scopes g)
    (hsame : ∀ i ∈ g, ∀ s, scopes[i]? = some s → ∃ s', scopes'[i]? = some s' ∧ s'.chained = s.chained) :
    IsGroup scopes' g := by
  obtain ⟨front, i, rfl, hfront, s, hs, hchained⟩ := h
  refine ⟨front, i, rfl, fun j hj => ?_, ?_⟩
  · obtain ⟨t, ht, htc⟩ := hfront j hj
    obtain ⟨t', ht', hc⟩ := hsame j (List.mem_append_left _ hj) t ht
    exact ⟨t', ht', hc.trans htc⟩
  · obtain ⟨s', hs', hc⟩ := hsame i (by simp) s hs
    exact ⟨s', hs', hc.trans hchained⟩

/-- The scopes of a group have been entered. -/
structure Enters (x y : Extraction) (g : List Nat) : Prop where
  opened : y.opened = g ++ x.opened
  size : x.scopes.size ≤ y.scopes.size
  old : ∀ i < x.scopes.size, y.scopes[i]? = x.scopes[i]?
  new : ∀ (i : Nat) (s : Scope), x.scopes.size ≤ i → y.scopes[i]? = some s → i ∈ g ∨ s.kind = .function
  group : IsGroup y.scopes g
  bounds : ∀ i ∈ g, x.scopes.size ≤ i ∧ i < y.scopes.size
  sorted : g.Pairwise (· > ·)

theorem Kept.enters {g : List Nat} (hxy : Kept x y) (hyz : Enters y z g) : Enters x z g := by
  refine ⟨by rw [hyz.opened, hxy.opened], Nat.le_trans hxy.size hyz.size, fun i hi => ?_, fun i s hi hs => ?_,
    hyz.group, fun i hi => ⟨Nat.le_trans hxy.size (hyz.bounds i hi).1, (hyz.bounds i hi).2⟩, hyz.sorted⟩
  · rw [hyz.old i (Nat.lt_of_lt_of_le hi hxy.size), hxy.old i hi]
  · by_cases hlt : i < y.scopes.size
    · rw [hyz.old i hlt] at hs
      exact Or.inr (hxy.new i s hi hs)
    · exact hyz.new i s (Nat.le_of_not_lt hlt) hs

/-- One scope has been added and entered. -/
theorem Enters.one {new : Scope} (hopened : y.opened = x.scopes.size :: x.opened)
    (hscopes : y.scopes = x.scopes.push new) (hchained : new.chained = false) : Enters x y [x.scopes.size] := by
  refine ⟨hopened, ?_, fun i hi => ?_, fun i s hi hs => ?_, ⟨[], _, rfl, by simp, new, ?_, hchained⟩, ?_, by simp⟩
  · rw [hscopes, Array.size_push]
    exact Nat.le_succ _
  · rw [hscopes, Array.getElem?_push, if_neg (Nat.ne_of_lt hi)]
  · have hlt := (Array.getElem?_eq_some_iff.mp hs).1
    rw [hscopes, Array.size_push] at hlt
    exact Or.inl (List.mem_singleton.mpr (by omega))
  · rw [hscopes, Array.getElem?_push, if_pos rfl]
  · rw [hscopes, Array.size_push]
    simp

theorem enters_openScope (x : Extraction) (kind : ScopeKind) (name : Option Text) (start : Nat) :
    Enters x (x.openScope kind name start) [x.scopes.size] := .one rfl rfl rfl

theorem enters_addFunction (x : Extraction) (f : FunctionHead) :
    Enters x (x.addFunction f true) [x.scopes.size] :=
  .one (opened_addFunction x f true) (scopes_addFunction x f true) rfl

theorem enters_openType (x : Extraction) (inTypedef : Bool) (keyword : Token) (head : TypeHead) :
    Enters x (x.openType inTypedef keyword head) [x.scopes.size] := by
  obtain ⟨_, hopen⟩ := openType_eq x inTypedef keyword head
  rw [hopen]
  exact .one rfl rfl rfl

/-- The later ones of the scopes of a namespace, all of them chained. -/
theorem openNamespaces_chained (x : Extraction) (start : Nat) (names : List Token) :
    ∃ g, (x.openNamespaces true start names).opened = g ++ x.opened ∧
      x.scopes.size ≤ (x.openNamespaces true start names).scopes.size ∧
      (∀ i < x.scopes.size, (x.openNamespaces true start names).scopes[i]? = x.scopes[i]?) ∧
      (∀ i, x.scopes.size ≤ i → i < (x.openNamespaces true start names).scopes.size → i ∈ g) ∧
      (∀ i ∈ g, x.scopes.size ≤ i ∧
        ∃ s, (x.openNamespaces true start names).scopes[i]? = some s ∧ s.chained = true) ∧
      g.Pairwise (· > ·) := by
  induction names generalizing x with
  | nil => exact ⟨[], rfl, Nat.le_refl _, fun _ _ => rfl, fun i hi hlt => absurd hlt (Nat.not_lt.mpr hi), by simp, .nil⟩
  | cons name names ih =>
    obtain ⟨namespaceNames, hcons⟩ := openNamespaces_cons x true start name names
    rw [hcons]
    obtain ⟨g, hopened, hsize, hold, hnew, hchained, hsorted⟩ := ih
      { x with
        scopes := x.scopes.push ⟨.namespace_, some name.text, some x.currentIndex, start, start, true, false⟩
        opened := x.scopes.size :: x.opened
        entities := x.entities.push
          { kind := .namespace_, name := name.text, token := name, scope := x.currentIndex }
        namespaceNames }
    simp only [Array.size_push] at hsize hold hnew hchained
    refine ⟨g ++ [x.scopes.size], by rw [hopened, List.append_assoc]; rfl, by omega, fun i hi => ?_,
      fun i hi hlt => ?_, fun i hi => ?_, ?_⟩
    · rw [hold i (by omega), Array.getElem?_push, if_neg (Nat.ne_of_lt hi)]
    · by_cases heq : i = x.scopes.size
      · simp [heq]
      · exact List.mem_append_left _ (hnew i (by omega) hlt)
    · rcases List.mem_append.mp hi with hi | hi
      · obtain ⟨hle, hs⟩ := hchained i hi
        exact ⟨by omega, hs⟩
      · rw [List.mem_singleton.mp hi, hold _ (Nat.lt_succ_self _), Array.getElem?_push, if_pos rfl]
        exact ⟨Nat.le_refl _, _, rfl, rfl⟩
    · refine List.pairwise_append.mpr ⟨hsorted, by simp, fun i hi j hj => ?_⟩
      rw [List.mem_singleton.mp hj]
      exact (hchained i hi).1

theorem enters_openNamespaces (x : Extraction) (start : Nat) (name : Token) (names : List Token) :
    ∃ g, Enters x (x.openNamespaces false start (name :: names)) g := by
  obtain ⟨namespaceNames, hcons⟩ := openNamespaces_cons x false start name names
  rw [hcons]
  obtain ⟨g, hopened, hsize, hold, hnew, hchained, hsorted⟩ := openNamespaces_chained
    { x with
      scopes := x.scopes.push ⟨.namespace_, some name.text, some x.currentIndex, start, start, false, false⟩
      opened := x.scopes.size :: x.opened
      entities := x.entities.push
        { kind := .namespace_, name := name.text, token := name, scope := x.currentIndex }
      namespaceNames } start names
  simp only [Array.size_push] at hsize hold hnew hchained
  refine ⟨g ++ [x.scopes.size], by rw [hopened, List.append_assoc]; rfl, by omega, fun i hi => ?_,
    fun i s hi hs => Or.inl ?_, ⟨g, x.scopes.size, rfl, fun i hi => (hchained i hi).2, ?_⟩, fun i hi => ?_, ?_⟩
  · rw [hold i (by omega), Array.getElem?_push, if_neg (Nat.ne_of_lt hi)]
  · by_cases heq : i = x.scopes.size
    · simp [heq]
    · exact List.mem_append_left _ (hnew i (by omega) (Array.getElem?_eq_some_iff.mp hs).1)
  · rw [hold _ (Nat.lt_succ_self _), Array.getElem?_push, if_pos rfl]
    exact ⟨_, rfl, rfl⟩
  · rcases List.mem_append.mp hi with hi | hi
    · obtain ⟨hle, s, hs, -⟩ := hchained i hi
      exact ⟨by omega, (Array.getElem?_eq_some_iff.mp hs).1⟩
    · rw [List.mem_singleton.mp hi]
      exact ⟨Nat.le_refl _, by omega⟩
  · refine List.pairwise_append.mpr ⟨hsorted, by simp, fun i hi j hj => ?_⟩
    rw [List.mem_singleton.mp hj]
    exact (hchained i hi).1

theorem kept_addNames (x : Extraction) (kind : EntityKind) (names : List Token) :
    Kept x (x.addNames kind names) := by
  unfold addNames
  induction names generalizing x with
  | nil => exact .refl x
  | cons name names ih =>
    rw [List.foldl_cons]
    refine Kept.trans ?_ (ih _)
    exact .of_eq rfl rfl

theorem kept_addVariables (x : Extraction) (specifiers : Specifiers) (type : List Token) (typeName : Text)
    (declarators : List Declarator) : Kept x (x.addVariables specifiers type typeName declarators) := by
  unfold addVariables
  induction declarators generalizing x with
  | nil => exact .refl x
  | cons d declarators ih =>
    rw [List.foldl_cons]
    refine Kept.trans ?_ (ih _)
    exact .of_eq rfl rfl

theorem kept_addFunction (x : Extraction) (f : FunctionHead) : Kept x (x.addFunction f false) := by
  have hscopes := scopes_addFunction x f false
  refine ⟨opened_addFunction x f false, ?_, fun i hi => ?_, fun i s hi hs => ?_⟩
  · rw [hscopes, Array.size_push]
    exact Nat.le_succ _
  · rw [hscopes, Array.getElem?_push, if_neg (Nat.ne_of_lt hi)]
  · rw [hscopes, Array.getElem?_push] at hs
    split at hs
    · obtain rfl := Option.some.inj hs
      rfl
    · have hlt := (Array.getElem?_eq_some_iff.mp hs).1
      omega

theorem kept_addDeclaration (x : Extraction) (d : Declaration) : Kept x (x.addDeclaration d false) := by
  cases d with
  | function f => exact kept_addFunction x f
  | «variables» specifiers type declarators => exact kept_addVariables x specifiers type [] declarators

theorem kept_addType (x : Extraction) (keyword : Token) (head : TypeHead) (bodyScope : Option Nat) :
    Kept x (x.addType keyword head bodyScope) := by
  rw [addType_eq]
  exact .of_eq rfl rfl

theorem kept_noteAnomaly (x : Extraction) (ts : List Token) : Kept x (x.noteAnomaly ts) := by
  unfold noteAnomaly
  split <;> exact .of_eq rfl rfl

/-! ## What a statement does -/

/-- A statement leaves scopes and braces as they are, or it ends in a brace at which scopes are entered. -/
inductive Outcome (x : Extraction) (ts : List Token) (r : Extraction × List Token) : Prop
  | keeps (h : Kept x r.1) (hbraces : braces r.2 = braces ts)
  | enters {g : List Nat} {brace closer : Token} (h : Enters x r.1 g) (hts : ∃ front, ts = front ++ brace :: r.2)
    (hbrace : brace.isPunct .lbrace = true) (hcloser : (closers r.2).head? = some closer)
    (hbraces : braces r.2 = closer :: braces ts)

namespace Outcome

variable {r : Extraction × List Token}

/-- Tokens that leave the braces alone may be passed over first. -/
theorem of_suffix (h : Outcome x us r) (hus : us <:+ ts) (hbraces : braces us = braces ts) : Outcome x ts r := by
  cases h with
  | keeps h hsame => exact .keeps h (hsame.trans hbraces)
  | enters h hts hbrace hcloser hopened =>
    obtain ⟨front, rfl⟩ := hts
    obtain ⟨skipped, rfl⟩ := hus
    exact .enters h ⟨skipped ++ front, by rw [List.append_assoc]⟩ hbrace hcloser (hopened.trans (by rw [hbraces]))

theorem skip (h : braces us = braces ts) : Outcome x ts (x, us) := .keeps (.refl x) h

/-- Scopes are entered at a brace. -/
theorem at_brace {brace : Token} {g : List Nat} (hpaired : paired (brace :: ts) = true)
    (hbrace : brace.isPunct .lbrace = true) (h : Enters x y g) : Outcome x (brace :: ts) (y, ts) := by
  obtain ⟨closer, hcloser, hbraces⟩ := braces_opening hpaired hbrace
  exact .enters h ⟨[], rfl⟩ hbrace hcloser hbraces

end Outcome

theorem outcome_declarationOrExpression (x : Extraction) (h : paired ts = true) :
    Outcome x ts (x.declarationOrExpression ts) := by
  have hleaves := leaves_read h
  obtain ⟨ender, hts, hbody⟩ := read_append ts
  unfold Head.Leaves at hleaves
  have other : ∀ {y : Extraction}, Kept x y → braces (Head.read ts).rest = braces ts →
      Outcome x ts (y, (Head.read ts).rest) := fun hkept hsame => .keeps hkept hsame
  -- heads that end without a body leave the brackets behind them alone
  have withoutBody : ∀ {ending : Ending}, braces (Head.read ts).rest = braces ts →
      (∀ brace, ending ≠ .body brace) → (Head.read ts).ending = ending →
      Outcome x ts (x.declarationOrExpression ts) := by
    intro ending hsame hno hending
    unfold declarationOrExpression
    dsimp only
    rw [hending]
    split
    · exact absurd rfl (hno _)
    · exact absurd rfl (hno _)
    · exact absurd rfl (hno _)
    · exact other (kept_addDeclaration x _) hsame
    · refine other ?_ hsame
      split
      · exact .refl x
      · exact kept_noteAnomaly x _
  cases hending : (Head.read ts).ending with
  | body brace =>
    obtain ⟨rfl, hbrace⟩ := hbody brace hending
    rw [hending] at hleaves
    obtain ⟨closer, hcloser, hbraces⟩ := hleaves
    rw [List.append_assoc] at hts
    have atBody : ∀ {y : Extraction} {g : List Nat}, Enters x y g → Outcome x ts (y, (Head.read ts).rest) :=
      fun henters => .enters henters ⟨_, hts⟩ hbrace hcloser hbraces
    unfold declarationOrExpression
    dsimp only
    rw [hending]
    split
    · exact atBody (enters_addFunction x _)
    · next heq _ =>
      obtain rfl := Ending.body.inj heq
      exact atBody ((kept_addDeclaration x _).enters (enters_openScope _ _ _ _))
    · exact atBody (enters_openScope _ _ _ _)
    · next hno => exact (hno brace rfl).elim
    · next hno => exact (hno brace rfl).elim
  | semicolon =>
    rw [hending] at hleaves
    exact withoutBody hleaves (by simp) hending
  | scopeEnd =>
    rw [hending] at hleaves
    exact withoutBody hleaves (by simp) hending
  | fileEnd =>
    rw [hending] at hleaves
    exact withoutBody hleaves (by simp) hending

theorem outcome_namespaceStatement (x : Extraction) (h : paired ts = true) :
    Outcome x ts (x.namespaceStatement ts) := by
  have hnames := braces_of_closers_eq (closers_namespaceNamesAt ts)
  have hsuffix := suffix_namespaceNamesAt ts
  unfold namespaceStatement
  dsimp only
  split
  · next hafter =>
    rw [hafter] at hnames
    exact .skip hnames
  · next t rest hafter =>
    rw [hafter] at hnames hsuffix
    have hpaired := paired_of_suffix h hsuffix
    split
    · rw [hafter]
      exact .keeps (Kept.trans (kept_addNames x _ _) (.of_eq rfl rfl)) ((braces_afterStatement hpaired).trans hnames)
    · split
      · next hbrace =>
        split
        · exact (Outcome.at_brace hpaired hbrace (enters_openScope _ _ _ _)).of_suffix hsuffix hnames
        · next hne =>
          cases hlist : (namespaceNamesAt ts).1 with
          | nil => exact absurd (by rw [hlist]; rfl) hne
          | cons name names =>
            obtain ⟨g, henters⟩ := enters_openNamespaces x t.start name names
            exact (Outcome.at_brace hpaired hbrace henters).of_suffix hsuffix hnames
      · rw [hafter]
        exact .skip ((braces_afterStatement hpaired).trans hnames)

theorem outcome_templateStatement (x : Extraction) {t : Token} {rest : List Token} (hword : t.isAnyPunct = false)
    (h : paired (t :: rest) = true) : Outcome x (t :: rest) (x.templateStatement (t :: rest)) := by
  unfold templateStatement
  split
  · next first u more heq =>
    obtain ⟨rfl, rfl⟩ := List.cons.inj heq
    split
    · next hless =>
      have hmore : closers more = closers (t :: u :: more) := by
        rw [closers_of_not_punct hword, closers_of_punct hless]
        rfl
      split
      · exact .skip (braces_of_closers_eq hmore)
      · next a ha =>
        refine .keeps (kept_addNames x _ _) (braces_of_closers_eq ?_)
        rw [closers_angled (paired_tail (paired_tail h)) ha, hmore]
    · exact .skip (braces_afterStatement h)
  · exact .skip (braces_afterStatement h)

theorem outcome_usingStatement (x : Extraction) (h : paired ts = true) : Outcome x ts (x.usingStatement ts) := by
  unfold usingStatement
  split
  · refine .keeps ?_ (braces_afterStatement h)
    split
    · exact .of_eq rfl rfl
    · exact .refl x
  · exact .skip (braces_afterStatement h)

theorem outcome_typeStatement {inTypedef : Bool} {keyword : Token} {r : Extraction × List Token}
    (hpaired : paired ts = true) (h : x.typeStatement? inTypedef keyword ts = some r) : Outcome x ts r := by
  unfold typeStatement? at h
  split at h
  · exact absurd h (by simp)
  · next head hhead =>
    obtain ⟨hbraces, hsuffix⟩ := braces_typeHead hpaired hhead
    have hrest := paired_of_suffix hpaired hsuffix
    obtain ⟨y, hy, rfl⟩ := Option.map_eq_some_iff.mp h
    unfold readType? at hy
    split at hy
    · next hsemicolon =>
      obtain rfl := Option.some.inj hy
      rw [Bool.and_eq_true, Bool.and_eq_true] at hsemicolon
      refine .keeps (kept_addType x keyword head none) ?_
      rw [← hbraces, braces_of_closers_eq (closers_of_punct hsemicolon.1.1)]
    · split at hy
      · next hbrace =>
        obtain rfl := Option.some.inj hy
        exact (Outcome.at_brace hrest hbrace (enters_openType x inTypedef keyword head)).of_suffix hsuffix hbraces
      · exact absurd hy (by simp)

theorem outcome_enumeratorStatement (x : Extraction) {t : Token} {rest : List Token}
    (hbrace : t.isOneOf [.lbrace, .rbrace] = false) (h : paired (t :: rest) = true) :
    Outcome x (t :: rest) (x.enumeratorStatement t rest) := by
  have hrest : braces (afterEnumerator 0 rest) = braces rest :=
    braces_afterEnumerator (paired_tail h) (List.nil_append _).symm rfl
  refine .keeps ?_ (hrest.trans (braces_cons h hbrace).symm)
  unfold enumeratorStatement
  dsimp only
  split
  · exact .of_eq rfl rfl
  · exact .refl x

theorem outcome_conditionStatement (x : Extraction) (isFor : Bool) (h : paired ts = true) :
    Outcome x ts (x.conditionStatement isFor ts) := by
  have hstart : (if ts.head?.any (·.isKeyword .constexprKw) then ts.drop 1 else ts) <:+ ts ∧
      closers (if ts.head?.any (·.isKeyword .constexprKw) then ts.drop 1 else ts) = closers ts := by
    split
    · next hword =>
      refine ⟨List.drop_suffix _ _, ?_⟩
      cases ts with
      | nil => rfl
      | cons t ts => exact (closers_of_not_punct (Token.isAnyPunct_of_isKeyword hword)).symm
    · exact ⟨List.suffix_rfl, rfl⟩
  obtain ⟨hsuffix, hclosers⟩ := hstart
  unfold conditionStatement
  split
  · next hnil =>
    rw [hnil] at hclosers
    exact .skip (braces_of_closers_eq hclosers)
  · next t rest heq =>
    rw [heq] at hsuffix hclosers
    split
    · exact .skip (braces_of_closers_eq hclosers)
    · next hparen =>
      rw [Bool.not_eq_true, Bool.not_eq_false'] at hparen
      have hpaired := paired_of_suffix h hsuffix
      split
      · next hnone =>
        obtain ⟨e, he, -⟩ := enclosed_of_paired hpaired hparen rfl
        exact absurd (hnone.symm.trans he) (by simp)
      · next e he =>
        have hafter := braces_of_closers_eq ((closers_after hpaired hparen rfl he).trans hclosers)
        split
        · split
          · exact .keeps (kept_addDeclaration x _) hafter
          · exact .skip hafter
        · exact .skip hafter

theorem outcome_controlStatement {keyword : Keyword} {r : Extraction × List Token} (hpaired : paired ts = true)
    (h : x.controlStatement? keyword ts = some r) : Outcome x ts r := by
  unfold controlStatement? at h
  split at h
  case h_1 | h_2 | h_3 =>
    obtain rfl := Option.some.inj h
    exact .skip rfl
  case h_4 | h_5 =>
    obtain rfl := Option.some.inj h
    exact .skip (braces_afterLabel hpaired)
  case h_6 =>
    obtain rfl := Option.some.inj h
    exact outcome_conditionStatement x true hpaired
  case h_7 | h_8 | h_9 | h_10 =>
    obtain rfl := Option.some.inj h
    exact outcome_conditionStatement x false hpaired
  case h_11 => exact absurd h (by simp)

theorem outcome_linkage (x : Extraction) (h : paired ts = true) : Outcome x ts (x.linkage ts) := by
  unfold linkage
  split
  · exact .skip rfl
  · split
    · next hbrace => exact .at_brace h hbrace (enters_openScope _ _ _ _)
    · exact .skip rfl

/-! ## Bodies without a scope -/

/-- A head ends in the brace of a body. -/
def endsInBody (h : Head) : Bool :=
  match h.ending with
  | .body _ => true
  | _ => false

/-- What follows the brace of a class or an enumeration is read as declarators, and their head ends in a
body. -/
def declaratorsPassBody (ts : List Token) : Bool :=
  ts.head?.any (fun t => t.isIdentifier || t.isOneOf [.star, .amp]) && endsInBody (Head.read ts)

/-- A statement of a file: the state in which it is read, its first token and the tokens behind that. -/
structure Reading where
  state : Extraction
  first : Token
  behind : List Token

namespace Reading

/-- What has been read when the statement is over, and the tokens that are left. -/
def result (r : Reading) : Extraction × List Token := r.state.statement r.first r.behind

/-- The tokens from the statement on. -/
def tokens (r : Reading) : List Token := r.first :: r.behind

/-- A `typedef` with the braces of a class or an enumeration. -/
def isTypedefOfClass (r : Reading) : Bool :=
  match r.behind with
  | keyword :: rest =>
    keyword.isKeywordIn [.structKw, .classKw, .unionKw, .enumKw] &&
      (r.state.typeStatement? true keyword rest).isSome
  | [] => false

/-- The closing brace of a class or an enumeration. -/
def closesType (r : Reading) : Bool :=
  (r.state.leave r.first.stop).any fun left => left.1.kind == .class_ || left.1.kind == .enum

/-- The statement passes the brace of a body and enters no scope: it is a `typedef` other than one of a class,
or the closing brace of a class or an enumeration with its declarators, and its head ends in a body. -/
def passesBody (r : Reading) : Bool :=
  match r.first.kind with
  | .punct .rbrace => r.closesType && declaratorsPassBody r.behind
  | .keyword .typedefKw =>
    r.state.current.kind != .enum && !r.isTypedefOfClass && endsInBody (Head.read r.tokens)
  | _ => false

end Reading

/-- A head that ends in a body leaves its brace open. -/
theorem braces_read_body (h : paired ts = true) (hbody : endsInBody (Head.read ts) = true) :
    ∃ closer, braces (Head.read ts).rest = closer :: braces ts := by
  have hleaves := leaves_read h
  unfold Head.Leaves at hleaves
  unfold endsInBody at hbody
  split at hbody
  · next hending =>
    rw [hending] at hleaves
    obtain ⟨closer, -, hbraces⟩ := hleaves
    exact ⟨closer, hbraces⟩
  · exact absurd hbody (by simp)

/-- Any other head leaves the braces alone. -/
theorem braces_read_plain (h : paired ts = true) (hplain : endsInBody (Head.read ts) = false) :
    braces (Head.read ts).rest = braces ts := by
  have hleaves := leaves_read h
  unfold Head.Leaves at hleaves
  unfold endsInBody at hplain
  split at hleaves
  · next hending =>
    rw [hending] at hplain
    exact absurd hplain (by simp)
  · exact hleaves

/-- What a `typedef` does that passes no body. -/
theorem outcome_typedefStatement (x : Extraction) {t : Token} {rest : List Token} (hword : t.isAnyPunct = false)
    (h : paired (t :: rest) = true)
    (hpasses : (!(Reading.mk x t rest).isTypedefOfClass && endsInBody (Head.read (t :: rest))) = false) :
    Outcome x (t :: rest) (x.typedefStatement (t :: rest)) := by
  have hplain : (Reading.mk x t rest).isTypedefOfClass = false →
      Outcome x (t :: rest) (x.plainTypedef (t :: rest)) := by
    intro hclass
    rw [hclass, Bool.not_false, Bool.true_and] at hpasses
    exact .keeps (kept_addNames x _ _) (braces_read_plain h hpasses)
  unfold typedefStatement
  split
  · next first keyword more heq =>
    obtain ⟨rfl, rfl⟩ := List.cons.inj heq
    split
    · next hkeyword =>
      cases htype : x.typeStatement? true keyword more with
      | none => exact hplain (by simp [Reading.isTypedefOfClass, htype])
      | some r =>
        have hk : keyword.isAnyPunct = false := by
          unfold Token.isKeywordIn at hkeyword
          split at hkeyword
          · next k hk => rw [Token.isAnyPunct, hk]
          · exact absurd hkeyword (by simp)
        refine (outcome_typeStatement (paired_tail (paired_tail h)) htype).of_suffix
          ((List.suffix_cons keyword more).trans (List.suffix_cons t _)) (braces_of_closers_eq ?_)
        rw [closers_of_not_punct hword, closers_of_not_punct hk]
    · next hkeyword => exact hplain (by simp [Reading.isTypedefOfClass, hkeyword])
  · next hshort =>
    refine hplain ?_
    cases rest with
    | nil => rfl
    | cons keyword more => exact absurd rfl (hshort t keyword more)

/-- What the scopes have become where a `typedef` has passed a body: nothing, and a brace is open. -/
theorem kept_typedefStatement (x : Extraction) {t : Token} {rest : List Token} (h : paired (t :: rest) = true)
    (hpasses : (!(Reading.mk x t rest).isTypedefOfClass && endsInBody (Head.read (t :: rest))) = true) :
    Kept x (x.typedefStatement (t :: rest)).1 ∧
      ∃ closer, braces (x.typedefStatement (t :: rest)).2 = closer :: braces (t :: rest) := by
  rw [Bool.and_eq_true, Bool.not_eq_true'] at hpasses
  have hplain : Kept x (x.plainTypedef (t :: rest)).1 ∧
      ∃ closer, braces (x.plainTypedef (t :: rest)).2 = closer :: braces (t :: rest) :=
    ⟨kept_addNames x _ _, braces_read_body h hpasses.2⟩
  have hclass := hpasses.1
  unfold typedefStatement
  split
  · next first keyword more heq =>
    obtain ⟨rfl, rfl⟩ := List.cons.inj heq
    split
    · next hkeyword =>
      cases htype : x.typeStatement? true keyword more with
      | none => exact hplain
      | some r => exact absurd hclass (by simp [Reading.isTypedefOfClass, hkeyword, htype])
    · exact hplain
  · exact hplain

/-- What the declarators behind a class or an enumeration do. -/
theorem kept_trailingDeclarators (x : Extraction) (closed : Scope) {ts : List Token} (h : paired ts = true) :
    Kept x (x.trailingDeclarators closed ts).1 ∧
      (declaratorsPassBody ts = true → ∃ closer, braces (x.trailingDeclarators closed ts).2 = closer :: braces ts) ∧
      (declaratorsPassBody ts = false → braces (x.trailingDeclarators closed ts).2 = braces ts) := by
  unfold trailingDeclarators
  split
  · exact ⟨.refl x, by simp [declaratorsPassBody], fun _ => rfl⟩
  · next t rest =>
    split
    · next hno =>
      rw [Bool.not_eq_true'] at hno
      exact ⟨.refl x, by simp [declaratorsPassBody, hno], fun _ => rfl⟩
    · next hyes =>
      rw [Bool.not_eq_true, Bool.not_eq_false'] at hyes
      have hpasses : declaratorsPassBody (t :: rest) = endsInBody (Head.read (t :: rest)) := by
        unfold declaratorsPassBody
        rw [List.head?_cons, Option.any_some, hyes, Bool.true_and]
      rw [hpasses]
      dsimp only
      split
      · exact ⟨kept_addNames x _ _, braces_read_body h, braces_read_plain h⟩
      · exact ⟨kept_addVariables x _ _ _ _, braces_read_body h, braces_read_plain h⟩

/-! ## One statement -/

theorem outcome_keywordStatement (x : Extraction) {keyword : Keyword} {t : Token} {rest : List Token}
    (hkind : t.kind = .keyword keyword) (h : paired (t :: rest) = true)
    (hpasses : keyword = .typedefKw →
      (!(Reading.mk x t rest).isTypedefOfClass && endsInBody (Head.read (t :: rest))) = false) :
    Outcome x (t :: rest) (x.keywordStatement keyword t rest) := by
  have hword : t.isAnyPunct = false := by rw [Token.isAnyPunct, hkind]
  have hbehind : braces rest = braces (t :: rest) := braces_of_closers_eq (closers_of_not_punct hword).symm
  have hrest : rest <:+ t :: rest := List.suffix_cons t rest
  have hother : Outcome x (t :: rest) (if x.inFunction then
      (x.controlStatement? keyword rest).getD (x.declarationOrExpression (t :: rest))
      else x.declarationOrExpression (t :: rest)) := by
    split
    · cases hcontrol : x.controlStatement? keyword rest with
      | none => exact outcome_declarationOrExpression x h
      | some r => exact (outcome_controlStatement (paired_tail h) hcontrol).of_suffix hrest hbehind
    · exact outcome_declarationOrExpression x h
  -- one more token is passed over, which is no bracket
  have second : ∀ {p : Token → Bool}, (∀ u, p u = true → ∀ us, closers (u :: us) = closers us) →
      rest.head?.any p = true → closers (rest.drop 1) = closers rest := by
    intro p hp hany
    cases rest with
    | nil => rfl
    | cons u rest => exact (hp u hany rest).symm
  unfold keywordStatement
  dsimp only
  split
  case h_1 =>
    split
    · next hnext =>
      have hdrop := second (fun u hu us => closers_of_not_punct (Token.isAnyPunct_of_isKeyword hu)) hnext
      exact (outcome_namespaceStatement x (paired_of_suffix (paired_tail h) (List.drop_suffix 1 rest))).of_suffix
        ((List.drop_suffix 1 rest).trans hrest) ((braces_of_closers_eq hdrop).trans hbehind)
    · exact hother
  case h_2 => exact (outcome_namespaceStatement x (paired_tail h)).of_suffix hrest hbehind
  case h_3 => exact outcome_templateStatement x hword h
  case h_4 => exact outcome_usingStatement x h
  case h_5 => exact outcome_typedefStatement x hword h (hpasses rfl)
  case h_6 | h_7 | h_8 =>
    split
    · next hnext =>
      have hdrop := second (fun u hu us => closers_of_punct hu) hnext
      exact .skip ((braces_of_closers_eq hdrop).trans hbehind)
    · exact hother
  case h_9 =>
    split
    · next hnext =>
      have hdrop := second (p := fun u => u.isLiteral && u.text.head? == some (.scalar '"')) (fun u hu us => by
        rw [Bool.and_eq_true] at hu
        have hliteral : u.kind = .literal := by simpa [Token.isLiteral] using hu.1
        exact closers_of_not_punct (by rw [Token.isAnyPunct, hliteral])) hnext
      exact (outcome_linkage x (paired_of_suffix (paired_tail h) (List.drop_suffix 1 rest))).of_suffix
        ((List.drop_suffix 1 rest).trans hrest) ((braces_of_closers_eq hdrop).trans hbehind)
    · exact hother
  case h_10 | h_11 | h_12 | h_13 | h_14 => exact .skip (braces_afterStatement h)
  case h_15 | h_16 | h_17 | h_18 =>
    cases htype : x.typeStatement? false t rest with
    | none => exact hother
    | some r => exact (outcome_typeStatement (paired_tail h) htype).of_suffix hrest hbehind
  case h_19 => exact hother

/-- What a statement does that does not start with a closing brace and passes no body. -/
theorem outcome_statement (r : Reading) (h : paired r.tokens = true) (hfirst : r.first.isPunct .rbrace = false)
    (hpasses : r.passesBody = false) : Outcome r.state r.tokens r.result := by
  obtain ⟨x, t, rest⟩ := r
  change Outcome x (t :: rest) (x.statement t rest)
  change paired (t :: rest) = true at h
  change t.isPunct .rbrace = false at hfirst
  unfold statement
  split
  · next hkind => exact absurd hfirst (by simp [Token.isPunct, hkind])
  · next hkind =>
    refine .skip (braces_of_closers_eq ?_)
    exact (closers_of_punct (p := .semicolon) (by simp [Token.isPunct, hkind])).symm
  · next hkind =>
    exact .at_brace h (by simp [Token.isPunct, hkind]) (enters_openScope _ _ _ _)
  · next hrbrace _ hlbrace =>
    have hbrace : t.isOneOf [.lbrace, .rbrace] = false := by
      unfold Token.isOneOf
      split
      · next p hp =>
        cases p <;> first | rfl | exact absurd hp hlbrace | exact absurd hp hrbrace
      · rfl
    split
    · exact outcome_enumeratorStatement x hbrace h
    · next henum =>
      split
      · next k hk =>
        refine outcome_keywordStatement x hk h fun htypedef => ?_
        subst htypedef
        unfold Reading.passesBody at hpasses
        simp only [hk] at hpasses
        rw [Bool.not_eq_true] at henum
        rw [show (x.current.kind != .enum) = true by simp [bne, henum], Bool.true_and] at hpasses
        exact hpasses
      · exact outcome_declarationOrExpression x h

end Extraction

end HouseStyle
