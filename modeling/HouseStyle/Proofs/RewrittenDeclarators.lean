import HouseStyle.Proofs.Rewriting
import HouseStyle.Proofs.Readers
import Mathlib.Data.List.Forall2

namespace HouseStyle

/-- The tokens that stand for the bounds of an array in the type of a parameter. -/
def Parameter.boundsOf (more : List Token) : List Token :=
  match more, more.getLast? with
  | b :: _, some last => if b.isPunct .lbracket then [b, if last.isPunct .rbracket then last else b] else []
  | _, _ => []

namespace Rewriting

variable {w : Rewriting}

/-! ## Declarators -/

theorem getLast_isIdentifier_code (ts : List Token) :
    ((w.code ts).filter (·.isIdentifier)).getLast? =
      ((ts.filter (·.isIdentifier)).getLast?).map w.token := by
  rw [filter_isIdentifier_code, List.getLast?_map]

/-- What is built around a name, rewritten. -/
def declaratorName (w : Rewriting) (n : Token × List Text × Confidence × List Token) :
    Token × List Text × Confidence × List Token :=
  (w.token n.1, n.2.1.map w.name, n.2.2.1, w.code n.2.2.2)

theorem declaratorName_code (ts : List Token) :
    Declarator.name? (w.code ts) = (Declarator.name? ts).map w.declaratorName := by
  cases ts with
  | nil => rfl
  | cons t ts =>
    rw [code_cons, Declarator.name?, Declarator.name?, isPunct_token, isIdentifier_token]
    split
    next h =>
      rw [behind_of_isPunct h, parenthesised_code]
      cases parenthesised? ts with
      | none => rfl
      | some e =>
        simp only [Option.map_some, enclosed, getLast_isIdentifier_code]
        cases (e.inside.filter (·.isIdentifier)).getLast? with
        | none => rfl
        | some name =>
          simp only [Option.map_some]
          cases e.after with
          | nil => rfl
          | cons u more =>
            simp only [code_cons, isPunct_token]
            split
            next hu =>
              rw [behind_of_isPunct hu, parenthesised_code, map_after_enclosed]
              cases (parenthesised? more).map (·.after) <;> rfl
            next => rfl
    next =>
      split
      next h =>
        rw [← code_cons, qualifiedName_code, Option.map_map, Option.map_map]
        congr 1
        funext n
        simp [declaratorName, qualifiedName, QualifiedName.qualifier]
      next => rfl

theorem afterBounds_eq (t : Token) (ts : List Token) :
    Declarator.afterBounds (t :: ts) =
      if t.isPunct .lbracket then ((bracketed? ts).map fun e => Declarator.afterBounds e.after).getD []
      else t :: ts := by
  rw [Declarator.afterBounds.eq_def]
  dsimp only
  split
  · split
    next h => rw [h]; rfl
    next h => rw [h]; rfl
  · rfl

theorem afterBounds_code (ts : List Token) :
    Declarator.afterBounds (w.code ts) = w.code (Declarator.afterBounds ts) := by
  fun_induction Declarator.afterBounds ts with
  | case1 => rw [code_nil, Declarator.afterBounds]
  | case2 t rest h he =>
    rw [code_cons, behind_of_isPunct h, afterBounds_eq, isPunct_token, if_pos h, bracketed_code, he]
    rfl
  | case3 t rest h e he ih =>
    rw [code_cons, behind_of_isPunct h, afterBounds_eq, isPunct_token, if_pos h, bracketed_code, he]
    exact ih
  | case4 t rest h =>
    rw [code_cons, afterBounds_eq, isPunct_token, if_neg h]

theorem upToComma_behind (depth : Nat) (t : Token) (ts : List Token) :
    Declarator.upToComma depth (w.behind t ts) =
      (w.behind t (Declarator.upToComma depth ts).1, (Declarator.upToComma depth ts).2) := by
  unfold behind
  split
  · simp [Declarator.upToComma, Token.isOneOf, Token.isPunct, w.kind_inserted]
  · rfl

theorem upToComma_code (depth : Nat) (ts : List Token) :
    Declarator.upToComma depth (w.code ts) =
      (w.code (Declarator.upToComma depth ts).1, w.code (Declarator.upToComma depth ts).2) := by
  induction ts generalizing depth with
  | nil => rfl
  | cons t ts ih =>
    rw [code_cons, Declarator.upToComma, Declarator.upToComma]
    simp only [isOneOf_token, isPunct_token, upToComma_behind, ih]
    split <;> rfl

theorem withoutSign_code (ts : List Token) :
    Declarator.withoutSign (w.code ts) = w.code (Declarator.withoutSign ts) := by
  cases ts with
  | nil => rfl
  | cons t ts =>
    rw [code_cons, Declarator.withoutSign, Declarator.withoutSign, isOneOf_token]
    split
    next h => rw [behind_of_isOneOf h]
    next => rfl

/-- A declarator, rewritten. -/
def declarator (w : Rewriting) (d : Declarator) : Declarator :=
  { operators := w.code d.operators, name := w.token d.name, qualifier := d.qualifier.map w.name
    confidence := d.confidence, isArray := d.isArray, initializer := w.code d.initializer }

theorem blind_isOperator : Blind w fun t => t.isPointerOrReference || t.isCv :=
  .of_keyword (by simp) (by
    rintro t (h | h) <;> simp [Token.isPointerOrReference, Token.isOneOf, Token.isCv, Token.isKeyword, h])

theorem readAll_eq (ts : List Token) :
    Declarator.readAll ts =
      match Declarator.name? (ts.dropWhile fun t => t.isPointerOrReference || t.isCv) with
      | none => []
      | some (name, qualifier, confidence, afterName) =>
        let initializer := (Declarator.upToComma 0 (Declarator.afterBounds afterName)).1
        if initializer.head?.any (!·.isAnyPunct) then []
        else
          { operators := ts.takeWhile fun t => t.isPointerOrReference || t.isCv, name, qualifier, confidence
            isArray := afterName.head?.any (·.isPunct .lbracket)
            initializer := Declarator.withoutSign initializer } ::
            match (Declarator.upToComma 0 (Declarator.afterBounds afterName)).2 with
            | [] => []
            | _ :: others => Declarator.readAll others := by
  rw [Declarator.readAll.eq_def]
  dsimp only
  split
  next h => rw [h]
  next h =>
    rw [h]
    dsimp only
    split
    · rfl
    · congr 1
      split
      next hr => rw [hr]
      next hr => rw [hr]

theorem declarators_code (ts : List Token) :
    Declarator.readAll (w.code ts) = (Declarator.readAll ts).map w.declarator := by
  induction hlen : ts.length using Nat.strongRecOn generalizing ts with
  | ind n ih =>
    subst hlen
    rw [readAll_eq, readAll_eq, dropWhile_code blind_isOperator, declaratorName_code]
    cases hname : Declarator.name? (ts.dropWhile fun t => t.isPointerOrReference || t.isCv) with
    | none => rfl
    | some r =>
      obtain ⟨name, qualifier, confidence, afterName⟩ := r
      simp only [Option.map_some, declaratorName, afterBounds_code, upToComma_code]
      rw [head_any_code (by simp)]
      split
      · rfl
      · rw [List.map_cons, takeWhile_code blind_isOperator, head_any_code (by simp), withoutSign_code]
        congr 1
        cases hrest : (Declarator.upToComma 0 (Declarator.afterBounds afterName)).2 with
        | nil => rfl
        | cons u others =>
          -- what follows the comma is shorter
          have hshort : others.length < ts.length := by
            have hn := Declarator.length_name_lt hname
            have hb := Declarator.length_afterBounds_le afterName
            have hc := Declarator.length_upToComma_le 0 (Declarator.afterBounds afterName)
            have hd := (List.dropWhile_sublist (fun t : Token => t.isPointerOrReference || t.isCv)
              (l := ts)).length_le
            rw [hrest, List.length_cons] at hc
            omega
          rw [code_cons, behind_of_isPunct (Declarator.isPunct_comma_of_upToComma hrest)]
          exact ih _ hshort others rfl

/-! ## Parameters -/

/-- The text of some tokens of the code, and what it is when these are rewritten. -/
def Rejoins (w : Rewriting) (code : List Token) (s s' : Text) : Prop :=
  ∃ us, us ⊆ code ∧ s = joinedText us ∧ s' = joinedText (w.code us)

/-- Different tokens become different ones. -/
def Distinct (w : Rewriting) (code : List Token) : Prop :=
  ∀ t ∈ code, ∀ u ∈ code, w.token t = w.token u → t = u

/-- A parameter and what it is rewritten to. -/
structure ParameterMatches (w : Rewriting) (code : List Token) (p p' : Parameter) : Prop where
  typeText : Rejoins w code p.typeText p'.typeText
  name : p'.name = p.name.map w.token
  isConst : p'.isConst = p.isConst
  confidence : p'.confidence = p.confidence

/-- A list of one token that passes a test which no keyword passes. -/
theorem isSingle_code {p : Token → Bool} (hp : ∀ t, p (w.token t) = p t)
    (henum : ∀ t, t.kind = .keyword .enumKw → p t = false) (ts : List Token) :
    ((w.code ts).length == 1 && (w.code ts).all p) = (ts.length == 1 && ts.all p) := by
  match ts with
  | [] => rfl
  | [t] =>
    rcases w.behind_cases t with h | ⟨hk, h⟩
    · simp [h, hp]
    · simp [h, henum t hk]
  | t :: u :: rest =>
    rcases w.behind_cases t with h | ⟨hk, h⟩ <;> simp [h]

/-- The last token of rewritten code is the rewritten last one, or the `class` put in behind it. -/
theorem getLast_code (ts : List Token) :
    (w.code ts).getLast? = ts.getLast?.map w.last := by
  rcases List.eq_nil_or_concat ts with rfl | ⟨front, t, rfl⟩
  · rfl
  · rw [List.concat_eq_append, code_append, code_cons, code_nil, List.getLast?_concat, Option.map_some]
    unfold behind last
    split <;> simp

theorem boundsOf_code (more : List Token) :
    Parameter.boundsOf (w.code more) = w.code (Parameter.boundsOf more) := by
  cases more with
  | nil => rfl
  | cons b rest =>
    unfold Parameter.boundsOf
    rw [getLast_code, code_cons]
    cases hlast : (b :: rest).getLast? with
    | none => rfl
    | some last =>
      simp only [Option.map_some, isPunct_token, Rewriting.last]
      split
      next hb =>
        rw [code_cons, behind_of_isPunct hb]
        split
        next hs =>
          -- no bracket is an `enum`
          have henum := w.kind_of_scopes last hs
          simp [Token.isPunct, w.kind_inserted, henum, behind_of_isPunct hb]
        next hs =>
          rw [isPunct_token]
          split
          next hl => rw [code_cons, behind_of_isPunct hl, code_nil]
          next => rw [code_cons, behind_of_isPunct hb, code_nil]
      next => rfl

theorem boundsOf_subset (more : List Token) : Parameter.boundsOf more ⊆ more := by
  unfold Parameter.boundsOf
  split
  · next b rest last hlast =>
    have hmem := List.mem_of_getLast? hlast
    split
    · intro t ht
      rw [List.mem_cons, List.mem_singleton] at ht
      rcases ht with rfl | rfl
      · exact List.mem_cons_self
      · split
        · exact hmem
        · exact List.mem_cons_self
    · exact List.nil_subset _
  · exact List.nil_subset _

/-- Taking a name out of some tokens can be done before they are rewritten. -/
theorem filter_ne_code {code : List Token} (hdistinct : Distinct w code) {t : Token}
    (hid : t.isIdentifier = true) (ht : t ∈ code) {us : List Token} (hus : us ⊆ code) :
    (w.code us).filter (· != w.token t) = w.code (us.filter (· != t)) := by
  induction us with
  | nil => rfl
  | cons u us ih =>
    rw [List.cons_subset] at hus
    have hsame : (w.token u != w.token t) = (u != t) := by
      rw [Bool.eq_iff_iff, bne_iff_ne, bne_iff_ne]
      exact ⟨fun hne heq => hne (congrArg w.token heq), fun hne heq => hne (hdistinct u hus.1 t ht heq)⟩
    have hput : w.inserted u != w.token t := by
      rw [bne_iff_ne]
      intro heq
      have hkind := w.kind_inserted u
      rw [heq, w.kind_token, beq_iff_eq.mp hid] at hkind
      exact absurd hkind (by simp)
    rw [code_cons, List.filter_cons, List.filter_cons, hsame]
    split
    · rw [code_cons, ← ih hus.2]
      unfold behind
      split
      · rw [List.filter_cons, if_pos hput]
      · rfl
    next heq =>
      obtain rfl : u = t := by simpa using heq
      rw [behind_of_isIdentifier hid, ih hus.2]

theorem ofPart_code {code : List Token} (hdistinct : Distinct w code) {part : List Token} (hpart : part ⊆ code) :
    Option.Rel (ParameterMatches w code) (Parameter.ofPart? part) (Parameter.ofPart? (w.code part)) := by
  have hsign : Blind w fun t => !t.isPunct .eq := (blind_isPunct _).not
  have hdecl : part.takeWhile (!·.isPunct .eq) ⊆ code := 
    List.Subset.trans (List.takeWhile_sublist _).subset hpart
  have htyped := List.Subset.trans (suffix_specifiers (part.takeWhile (!·.isPunct .eq))).subset hdecl
  unfold Parameter.ofPart?
  dsimp only
  rw [takeWhile_code hsign, isEmpty_code,
    isSingle_code (by simp) (by rintro t h; simp [Token.isPunct, h]), afterSpecifiers_code, afterType_code]
  split
  · exact .none
  split
  · exact .none
  change afterSpecifiers (part.takeWhile (!·.isPunct .eq)) ⊆ code at htyped
  generalize afterSpecifiers (part.takeWhile (!·.isPunct .eq)) = typed at htyped ⊢
  cases htype : afterType? typed with
  | none => exact .some ⟨⟨_, hdecl, rfl, rfl⟩, rfl, rfl, rfl⟩
  | some rest =>
    have hrest := List.Subset.trans (suffix_afterType htype).subset htyped
    have hbefore : tokensBefore typed rest ⊆ code := List.Subset.trans (List.take_subset _ _) htyped
    simp only [Option.map_some]
    rw [tokensBefore_code (suffix_afterType htype)]
    cases rest with
    | nil => exact .some ⟨⟨_, hbefore, rfl, rfl⟩, rfl, isConstObject_code _, rfl⟩
    | cons t more =>
      rw [List.cons_subset] at hrest
      simp only [code_cons, isIdentifier_token, isPunct_token]
      split
      next hid =>
        rw [behind_of_isIdentifier hid]
        have htokens : tokensBefore typed (t :: more) ++ Parameter.boundsOf more ⊆ code :=
          List.append_subset.mpr ⟨hbefore, List.Subset.trans (boundsOf_subset more) hrest.2⟩
        have hcode : w.code (tokensBefore typed (t :: more)) ++ Parameter.boundsOf (w.code more) =
            w.code (tokensBefore typed (t :: more) ++ Parameter.boundsOf more) := by
          rw [boundsOf_code, code_append]
        refine .some ⟨⟨_, List.Subset.trans (List.filter_subset_self _) htokens, rfl, ?_⟩, rfl, ?_, rfl⟩
        · show joinedText ((w.code (tokensBefore typed (t :: more)) ++
            Parameter.boundsOf (w.code more)).filter (· != w.token t)) = _
          rw [hcode, filter_ne_code hdistinct hid hrest.1 htokens]
        · show isConstObject (w.code (tokensBefore typed (t :: more)) ++ Parameter.boundsOf (w.code more)) = _
          rw [hcode, isConstObject_code]
          rfl
      next =>
        split
        · rw [← code_cons, find_isIdentifier_code]
          cases hfind : (t :: more).find? (·.isIdentifier) with
          | none => exact .some ⟨⟨_, htyped, rfl, rfl⟩, rfl, isConstObject_code _, rfl⟩
          | some name =>
            have hname : name ∈ code :=
              List.cons_subset.mpr hrest (List.mem_of_find?_eq_some hfind)
            refine .some ⟨⟨_, List.Subset.trans (List.filter_subset_self _) htyped, rfl, ?_⟩, rfl, isConstObject_code _, rfl⟩
            exact congrArg joinedText (filter_ne_code hdistinct (List.find?_some hfind) hname htyped)
        · exact .some ⟨⟨_, hbefore, rfl, rfl⟩, rfl, isConstObject_code _, rfl⟩

theorem parameters_code {code : List Token} (hdistinct : Distinct w code) {inside : List Token}
    (hinside : inside ⊆ code) :
    List.Forall₂ (ParameterMatches w code) (Parameter.readAll inside) (Parameter.readAll (w.code inside)) := by
  have hparts : ∀ part ∈ allCommaParts inside, part ⊆ code := fun part hpart t ht =>
    hinside ((allCommaParts_sublist inside).subset (List.mem_flatten_of_mem hpart ht))
  unfold Parameter.readAll
  rw [isSingle_code (by simp) (by rintro t h; simp [Token.isKeyword, h]), allCommaParts_code]
  split
  · exact .nil
  · generalize allCommaParts inside = parts at hparts ⊢
    induction parts with
    | nil => exact .nil
    | cons part parts ih =>
      rw [List.forall_mem_cons] at hparts
      have hrest := ih hparts.2
      have hfirst := ofPart_code hdistinct hparts.1
      rw [List.map_cons, List.filterMap_cons, List.filterMap_cons]
      generalize Parameter.ofPart? part = p at hfirst ⊢
      generalize Parameter.ofPart? (w.code part) = p' at hfirst ⊢
      cases hfirst with
      | none => exact hrest
      | some hmatches => exact .cons hmatches hrest

theorem templateParameter_code (part : List Token) :
    templateParameter? (w.code part) = (templateParameter? part).map w.token := by
  have hsign : Blind w fun t => !t.isPunct .eq := (blind_isPunct _).not
  unfold templateParameter?
  dsimp only
  rw [takeWhile_code hsign]
  generalize part.takeWhile (!·.isPunct .eq) = head
  rw [head_code, getLast_code]
  cases head with
  | nil => rfl
  | cons t rest =>
    cases hlast : (t :: rest).getLast? with
    | none => rfl
    | some last =>
      simp only [List.head?_cons, Option.map_some, isKeyword_token, Rewriting.last]
      split
      next hs =>
        -- neither an `enum` nor the `class` behind it is a name
        have henum := w.kind_of_scopes last hs
        simp [Token.isIdentifier, w.kind_inserted, henum]
      next hs =>
        rw [isIdentifier_token]
        cases hid : last.isIdentifier with
        | false => simp
        | true =>
          have hlen : decide (1 < (w.code (t :: rest)).length) = decide (1 < (t :: rest).length) := by
            cases rest with
            | nil =>
              rw [List.getLast?_singleton, Option.some.injEq] at hlast
              rw [code_cons, behind_of_isIdentifier (hlast ▸ hid)]
              rfl
            | cons u rest =>
              rcases w.behind_cases t with h | ⟨-, h⟩ <;> simp [h]
          rw [hlen]
          split <;> rfl

end Rewriting

end HouseStyle
