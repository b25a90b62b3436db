import HouseStyle.Proofs.ComparedNames
import HouseStyle.Proofs.RewrittenDeclarators

namespace HouseStyle.Rewriting

variable {w : Rewriting}

/-! ## Heads of statements -/

/-- What ends a head, rewritten. -/
def ending (w : Rewriting) : Ending → Ending
  | .body brace => .body (w.token brace)
  | e => e

/-- A head, rewritten. -/
def head (w : Rewriting) (h : Head) : Head := ⟨w.code h.tokens, w.ending h.ending, w.code h.rest⟩

/-- How reading goes on, rewritten. -/
def step (w : Rewriting) : Head.Step → Head.Step
  | .finish e => .finish (w.ending e)
  | s => s

/-- The tokens that a head looks back to after rewriting: the token itself, or the `class` that has been
put in behind an `enum`. -/
def LastMatches (w : Rewriting) (last last' : Option Token) : Prop :=
  last' = last.map w.token ∨
    ∃ t u, last = some t ∧ last' = some u ∧ t.kind = .keyword .enumKw ∧ u.kind = .keyword .classKw

theorem LastMatches.step_eq {last last' : Option Token} (h : w.LastMatches last last') (seen : Head.Seen)
    (depth : Nat) (t : Token) : Head.step seen last' depth (w.token t) = w.step (Head.step seen last depth t) := by
  have hoperator : last'.any (·.isKeyword .operatorKw) = last.any (·.isKeyword .operatorKw) := by
    rcases h with rfl | ⟨t, u, rfl, rfl, ht, hu⟩
    · simp [Option.any_map]
    · simp only [Option.any_some, Token.isKeyword, ht, hu]
      decide
  have hopens : Head.opensInitializer seen last' = Head.opensInitializer seen last := by
    rcases h with rfl | ⟨t, u, rfl, rfl, ht, hu⟩
    · cases last <;> simp [Head.opensInitializer]
    · simp only [Head.opensInitializer, Token.isIdentifier, Token.isPunct, ht, hu]
      rfl
  unfold Head.step
  rw [w.kind_token, hoperator, hopens]
  split <;> try rfl
  split <;> try rfl
  split <;> try rfl
  split <;> rfl

theorem head_prepend (ts : List Token) (h : Head) : w.head (h.prepend ts) = (w.head h).prepend (w.code ts) := by
  simp [head, Head.prepend]

theorem readFrom_eq (seen : Head.Seen) (last : Option Token) (depth : Nat) (t : Token) (ts : List Token) :
    Head.readFrom seen last depth (t :: ts) =
      match Head.step seen last depth t with
      | .keep seen depth => (Head.readFrom seen (some t) depth ts).prepend [t]
      | .finish .scopeEnd => ⟨[], .scopeEnd, t :: ts⟩
      | .finish ending => ⟨[], ending, ts⟩
      | .initializer =>
        match braced? ts with
        | none => ⟨t :: ts, .fileEnd, []⟩
        | some e =>
          (Head.readFrom seen (some e.closer) depth e.after).prepend (t :: e.inside ++ [e.closer]) := by
  rw [Head.readFrom.eq_def]
  dsimp only
  cases Head.step seen last depth t with
  | keep seen depth => rfl
  | finish ending => cases ending <;> rfl
  | initializer =>
    dsimp only
    split
    next h => rw [h]
    next h => rw [h]

/-- Only punctuators do anything but go on with the head. -/
theorem step_keyword {t : Token} {k : Keyword} (h : t.kind = .keyword k) (seen : Head.Seen)
    (last : Option Token) (depth : Nat) : Head.step seen last depth t = .keep seen depth := by
  simp [Head.step, h]

theorem behind_of_initializer {seen : Head.Seen} {last : Option Token} {depth : Nat} {t : Token}
    (h : Head.step seen last depth t = .initializer) (ts : List Token) : w.behind t ts = ts :=
  behind_of_ne (by rintro hk; rw [step_keyword hk] at h; exact absurd h (by simp)) ts

theorem readFrom_code {last last' : Option Token} (h : w.LastMatches last last') (seen : Head.Seen)
    (depth : Nat) (ts : List Token) :
    Head.readFrom seen last' depth (w.code ts) = w.head (Head.readFrom seen last depth ts) := by
  fun_induction Head.readFrom seen last depth ts generalizing last' with
  | case1 => rw [code_nil, Head.readFrom]; rfl
  | case2 seen last depth t rest seen' depth' hstep ih =>
    rw [code_cons, readFrom_eq, h.step_eq, hstep]
    show (Head.readFrom seen' (some (w.token t)) depth' (w.behind t (w.code rest))).prepend _ = _
    rw [head_prepend]
    unfold behind
    split
    next hs =>
      -- the inserted token is read next, and changes nothing
      have henum := w.kind_of_scopes t hs
      obtain ⟨rfl, rfl⟩ : seen' = seen ∧ depth' = depth := by
        rw [step_keyword henum] at hstep
        exact ⟨(Head.Step.keep.inj hstep).1.symm, (Head.Step.keep.inj hstep).2.symm⟩
      rw [readFrom_eq, step_keyword (w.kind_inserted t)]
      dsimp only
      rw [ih (.inr ⟨t, w.inserted t, rfl, rfl, henum, w.kind_inserted t⟩)]
      simp [Head.prepend, behind, hs]
    next hs =>
      rw [ih (show w.LastMatches (some t) (some (w.token t)) from .inl rfl)]
      simp [behind, hs]
  | case3 seen last depth t rest hstep =>
    rw [code_cons, readFrom_eq, h.step_eq, hstep]
    rfl
  | case4 seen last depth t rest e hne hstep =>
    -- no head ends at `enum`
    have ht : t.kind ≠ .keyword .enumKw := by
      intro hk
      rw [step_keyword hk] at hstep
      exact absurd hstep (by simp)
    rw [code_cons, behind_of_ne ht, readFrom_eq, h.step_eq, hstep]
    cases e with
    | scopeEnd => exact absurd rfl hne
    | _ => rfl
  | case5 seen last depth t rest hstep he =>
    rw [code_cons, behind_of_initializer hstep, readFrom_eq, h.step_eq, hstep]
    dsimp only [step]
    rw [braced_code, he]
    simp [head, ending, behind_of_initializer hstep]
  | case6 seen last depth t rest hstep e he ih =>
    have hcloser : e.closer.isPunct .rbrace = true := closer_isPunct he
    rw [code_cons, behind_of_initializer hstep, readFrom_eq, h.step_eq, hstep]
    dsimp only [step]
    rw [braced_code, he]
    dsimp only [Option.map_some, enclosed]
    rw [ih (show w.LastMatches (some e.closer) (some (w.token e.closer)) from .inl rfl), head_prepend]
    simp [behind_of_initializer hstep, behind_of_isPunct hcloser]

theorem read_code (ts : List Token) : Head.read (w.code ts) = w.head (Head.read ts) :=
  readFrom_code (show w.LastMatches none none from .inl rfl) ..

theorem afterStatement_head_code (h : Head) : (w.head h).afterStatement = w.code h.afterStatement := by
  obtain ⟨tokens, ending, rest⟩ := h
  cases ending with
  | body brace =>
    simp only [head, Rewriting.ending, Head.afterStatement]
    rw [braced_code, map_after_enclosed]
    cases (braced? rest).map (·.after) <;> rfl
  | _ => rfl

theorem afterStatement_code (ts : List Token) : afterStatement (w.code ts) = w.code (afterStatement ts) := by
  unfold afterStatement
  rw [read_code, afterStatement_head_code]

/-! ## What one head declares -/

theorem upToBracket_code (ts : List Token) :
    (Declaration.operatorSymbol?.upToBracket (w.code ts)).map (·.2) =
      (Declaration.operatorSymbol?.upToBracket ts).map fun r => (w.token r.2.1, w.code r.2.2) := by
  induction ts with
  | nil => rfl
  | cons t ts ih =>
    have hbehind : (Declaration.operatorSymbol?.upToBracket (w.behind t (w.code ts))).map (·.2) =
        (Declaration.operatorSymbol?.upToBracket (w.code ts)).map (·.2) := by
      unfold behind
      split
      · rw [Declaration.operatorSymbol?.upToBracket]
        simp [Token.isPunct, Token.isOneOf, w.kind_inserted, Function.comp_def]
      · rfl
    rw [code_cons, Declaration.operatorSymbol?.upToBracket, Declaration.operatorSymbol?.upToBracket,
      isPunct_token, isOneOf_token]
    split
    next h => rw [behind_of_isPunct h]; rfl
    next =>
      split
      · rfl
      · rw [Option.map_map, Option.map_map]
        exact hbehind.trans ih

/-- Only the two brackets of a call operator are a symbol that holds brackets. -/
theorem operatorSymbol_of_not {ts : List Token} (h : ∀ a b c rest, ts = a :: b :: c :: rest →
    (a.isPunct .lparen && b.isPunct .rparen && c.isPunct .lparen) = false) :
    Declaration.operatorSymbol? ts = Declaration.operatorSymbol?.upToBracket ts := by
  unfold Declaration.operatorSymbol?
  split
  · rw [if_neg (by rw [h _ _ _ _ rfl]; decide)]
  · rfl

theorem exists_of_code_eq_cons {ts us : List Token} {t' : Token} {p : Punct} (h : w.code ts = t' :: us)
    (ht : t'.isPunct p = true) : ∃ t rest, ts = t :: rest ∧ t.isPunct p = true ∧ w.code rest = us := by
  cases ts with
  | nil => exact absurd h (by simp)
  | cons t rest =>
    rw [code_cons] at h
    obtain ⟨rfl, hrest⟩ := List.cons.inj h
    rw [isPunct_token] at ht
    exact ⟨t, rest, rfl, ht, by rw [← hrest, behind_of_isPunct ht]⟩

theorem operatorSymbol_code (ts : List Token) :
    (Declaration.operatorSymbol? (w.code ts)).map (·.2) =
      (Declaration.operatorSymbol? ts).map fun r => (w.token r.2.1, w.code r.2.2) := by
  by_cases hcall : ∃ a b c rest, ts = a :: b :: c :: rest ∧
      (a.isPunct .lparen && b.isPunct .rparen && c.isPunct .lparen) = true
  · obtain ⟨a, b, c, rest, rfl, h⟩ := hcall
    obtain ⟨⟨ha, hb⟩, hc⟩ : (a.isPunct .lparen = true ∧ b.isPunct .rparen = true) ∧ c.isPunct .lparen = true := by
      simpa [Bool.and_eq_true] using h
    rw [code_cons, code_cons, code_cons, behind_of_isPunct ha, behind_of_isPunct hb, behind_of_isPunct hc]
    simp [Declaration.operatorSymbol?, ha, hb, hc]
  · have hold : ∀ a b c rest, ts = a :: b :: c :: rest →
        (a.isPunct .lparen && b.isPunct .rparen && c.isPunct .lparen) = false := fun a b c rest heq =>
      Bool.eq_false_iff.mpr fun h => hcall ⟨a, b, c, rest, heq, h⟩
    rw [operatorSymbol_of_not hold, operatorSymbol_of_not, upToBracket_code]
    intro a' b' c' rest' heq
    refine Bool.eq_false_iff.mpr fun h => ?_
    obtain ⟨⟨ha, hb⟩, hc⟩ : (a'.isPunct .lparen = true ∧ b'.isPunct .rparen = true) ∧
        c'.isPunct .lparen = true := by simpa [Bool.and_eq_true] using h
    obtain ⟨a, _, rfl, ha, hrest⟩ := exists_of_code_eq_cons heq ha
    obtain ⟨b, _, rfl, hb, hrest⟩ := exists_of_code_eq_cons hrest hb
    obtain ⟨c, rest, rfl, hc, -⟩ := exists_of_code_eq_cons hrest hc
    exact hcall ⟨a, b, c, rest, rfl, by rw [ha, hb, hc]; rfl⟩

/-! A declaration is matched with the one it is rewritten to. All that belongs to it is taken from the code and
is rewritten. -/

/-- How the name of a function is shown and how it is after rewriting, given the token that names it: an
identifier stands for another name then, and the word `operator` stays, with the tokens of the symbol
rewritten. -/
inductive DisplayMatches (w : Rewriting) (code : List Token) (t : Token) : Text → Text → Prop where
  | name (h : t.isIdentifier = true) (s : Text) : DisplayMatches w code t s (w.name s)
  | operator (h : t.isKeyword .operatorKw = true) {us : List Token} (hus : us ⊆ code) :
    DisplayMatches w code t (Text.ofString "operator" ++ us.flatMap (·.text))
      (Text.ofString "operator" ++ (w.code us).flatMap (·.text))

/-- The head of a function and what it is rewritten to. -/
structure HeadMatches (w : Rewriting) (code : List Token) (f g : FunctionHead) : Prop where
  name : g.name = w.token f.name
  display : DisplayMatches w code f.name f.display g.display
  display_name : f.isSpecial = false → g.display = w.name f.display
  qualifier : g.qualifier = f.qualifier.map w.name
  qualifier_apart : ∀ s ∈ f.qualifier, w.Apart s
  type : g.type = w.code f.type
  isSpecial : g.isSpecial = f.isSpecial
  specifiers : g.specifiers = f.specifiers
  opener : g.opener = w.token f.opener
  afterOpener : g.afterOpener = w.code f.afterOpener
  opener_isPunct : f.opener.isPunct .lparen = true
  type_subset : f.type ⊆ code
  list_subset : f.opener :: f.afterOpener ⊆ code

/-- A declaration and what it is rewritten to. -/
inductive DeclarationMatches (w : Rewriting) (code : List Token) :
    Option Declaration → Option Declaration → Prop where
  | none : DeclarationMatches w code none none
  | function {f g : FunctionHead} (h : HeadMatches w code f g) :
    DeclarationMatches w code (some (.function f)) (some (.function g))
  | variables (specifiers : Specifiers) {type : List Token} {declarators : List Declarator}
    (htype : type ⊆ code) (hnames : ∀ d ∈ declarators, d.name.isIdentifier = true)
    (hparts : ∀ d ∈ declarators, d.operators ⊆ code ∧ d.initializer ⊆ code) :
    DeclarationMatches w code (some (.variables specifiers type declarators))
      (some (.variables specifiers (w.code type) (declarators.map w.declarator)))

variable {code : List Token}

theorem operator_code (specifiers : Specifiers) {type ts : List Token} {word : Token}
    (hword : word.isKeyword .operatorKw = true) (htype : type ⊆ code) (hts : ts ⊆ code) :
    DeclarationMatches w code (Declaration.operator? specifiers type word ts)
      (Declaration.operator? specifiers (w.code type) (w.token word) (w.code ts)) := by
  have hsymbol := operatorSymbol_code (w := w) ts
  unfold Declaration.operator?
  cases h : Declaration.operatorSymbol? ts with
  | none =>
    rw [h, Option.map_none, Option.map_eq_none_iff] at hsymbol
    rw [hsymbol]
    exact .none
  | some r =>
    obtain ⟨symbol, opener, rest⟩ := r
    rw [h, Option.map_some, Option.map_eq_some_iff] at hsymbol
    obtain ⟨⟨symbol', opener', rest'⟩, hr', heq⟩ := hsymbol
    obtain ⟨rfl, rfl⟩ := Prod.mk.inj heq
    rw [hr']
    obtain ⟨mid, rfl, rfl, hopener⟩ := Declaration.operatorSymbol_append h
    obtain ⟨mid', hmid, rfl, -⟩ := Declaration.operatorSymbol_append hr'
    -- the tokens of the symbol are the rewritten ones
    rw [code_append, code_cons, behind_of_isPunct hopener, List.append_cancel_right_eq] at hmid
    subst hmid
    rw [List.append_subset] at hts
    exact .function { name := rfl, display := .operator hword hts.1, display_name := fun h => absurd h (by simp)
                      qualifier := rfl, qualifier_apart := by simp, type := rfl, isSpecial := rfl, specifiers := rfl, opener := rfl
                      afterOpener := rfl, opener_isPunct := hopener, type_subset := htype
                      list_subset := hts.2 }

/-- The scope that a declaration of rewritten code stands in: its name matters in a class only, and is
compared there. -/
structure ScopeMatches (w : Rewriting) (s s' : Scope) : Prop where
  kind : s'.kind = s.kind
  name : s.kind = .class_ → s'.name = s.name.map w.name
  apart : s.kind = .class_ → ∀ n, s.name = some n → w.Apart n

/-- A name has a last segment, and that is rewritten with it. -/
theorem base_qualifiedName {ts : List Token} {n : QualifiedName} (h : qualifiedName? ts = some n) :
    (w.qualifiedName n).base = w.name n.base := by
  unfold qualifiedName? at h
  split at h
  · exact absurd h (by simp)
  · next segments rest hsegments =>
    obtain ⟨⟨written, last⟩, hlast, rfl⟩ := Option.map_eq_some_iff.mp h
    simp [qualifiedName, QualifiedName.base, List.getLast?_map, hlast]

theorem qualifier_qualifiedName (n : QualifiedName) :
    (w.qualifiedName n).qualifier = n.qualifier.map w.name := by
  simp [qualifiedName, QualifiedName.qualifier]

/-- Only the name of a destructor starts with a tilde, rewritten or not. -/
theorem head_name (s : Text) :
    ((w.name s).head? == some (.scalar '~')) = (s.head? == some (.scalar '~')) := by
  rw [Bool.eq_iff_iff, beq_iff_eq, beq_iff_eq]
  constructor
  · exact w.tilde_of_name s
  · intro h
    obtain ⟨rest, rfl⟩ := List.head?_eq_some_iff.mp h
    rw [w.name_tilde]
    rfl

/-- A name that stays apart is equal to another after rewriting if and only if it is before. -/
theorem map_name_beq {o : Option Text} (h : ∀ t, o = some t → w.Apart t) (s : Text) :
    (o.map w.name == some (w.name s)) = (o == some s) := by
  cases o with
  | none => rfl
  | some t =>
    rw [Bool.eq_iff_iff, beq_iff_eq, beq_iff_eq, Option.map_some, Option.some.injEq, Option.some.injEq]
    exact ⟨h t rfl s, congrArg w.name⟩

theorem special_code {scope scope' : Scope} (h : ScopeMatches w scope scope') (specifiers : Specifiers)
    {ts : List Token} (hts : ts ⊆ code) (hapart : ∀ s ∈ qualifiers ts, w.Apart s) :
    DeclarationMatches w code (Declaration.special? scope specifiers ts)
      (Declaration.special? scope' specifiers (w.code ts)) := by
  cases ts with
  | nil => exact .none
  | cons t rest =>
    unfold Declaration.special?
    rw [code_cons]
    dsimp only
    rw [isKeyword_token]
    split
    next ht =>
      rw [behind_of_isKeyword ht (by decide)]
      exact operator_code specifiers ht (List.nil_subset _) (List.cons_subset.mp hts).2
    next =>
      rw [← code_cons, qualifiedName_code]
      cases hname : qualifiedName? (t :: rest) with
      | none => exact .none
      | some n =>
        have hclass : (scope'.kind == .class_ && scope'.name == some (w.name n.base)) =
            (scope.kind == .class_ && scope.name == some n.base) := by
          rw [h.kind]
          cases hk : scope.kind == .class_ with
          | false => rfl
          | true => rw [h.name (beq_iff_eq.mp hk), map_name_beq (h.apart (beq_iff_eq.mp hk))]
        have hqualifier : ∀ s ∈ n.qualifier, w.Apart s := fun s hs =>
          hapart s (mem_qualifiers_of_qualifiedName hname hs)
        simp only [Option.map_some, base_qualifiedName hname, qualifier_qualifiedName, head_name,
          List.getLast?_map, map_name_beq fun s hs => hqualifier s (List.mem_of_getLast? hs), List.isEmpty_map,
          Bool.and_assoc, hclass]
        have hlast := (qualifiedName_append hname).2.1
        rw [show (w.qualifiedName n).rest = w.code n.rest from rfl]
        have hlist := List.Subset.trans (suffix_qualifiedName hname).subset hts
        generalize n.rest = after at hlist ⊢
        cases after with
        | nil => exact .none
        | cons opener afterOpener =>
          rw [code_cons]
          dsimp only
          rw [isPunct_token]
          split
          · exact .none
          next hopener =>
            rw [Bool.not_eq_true, Bool.not_eq_false'] at hopener
            rw [behind_of_isPunct hopener]
            -- a constructor or a destructor, however its class is written in front of it
            have declared : ∀ qualifier, (∀ s ∈ qualifier, w.Apart s) → DeclarationMatches w code
                (some (.function {
                  name := n.last, display := n.base, qualifier, type := [], isSpecial := true
                  specifiers, opener, afterOpener }))
                (some (.function {
                  name := w.token n.last, display := w.name n.base, qualifier := qualifier.map w.name
                  type := [], isSpecial := true, specifiers, opener := w.token opener
                  afterOpener := w.code afterOpener })) := fun qualifier hqualifier =>
              .function ⟨rfl, .name hlast _, fun _ => rfl, rfl, hqualifier, rfl, rfl, rfl, rfl, rfl, hopener,
                List.nil_subset _, hlist⟩
            split
            · exact declared _ hqualifier
            split
            · exact declared _ hqualifier
            split
            · exact declared [] (by simp)
            · exact .none

theorem isArgument_code (part : List Token) : Declaration.isArgument (w.code part) = Declaration.isArgument part := by
  cases part with
  | nil => rfl
  | cons t rest =>
    unfold Declaration.isArgument
    rw [code_cons]
    dsimp only
    rw [w.kind_token, ← code_cons, afterSpecifiers_code, afterType_code, Option.isNone_map]

theorem isDirectInitializer_code {scope scope' : Scope} (h : scope'.kind = scope.kind) (inFunction : Bool)
    (afterOpener : List Token) :
    Declaration.isDirectInitializer scope' inFunction (w.code afterOpener) =
      Declaration.isDirectInitializer scope inFunction afterOpener := by
  unfold Declaration.isDirectInitializer
  rw [h, parenthesised_code]
  split
  · rfl
  split
  · rfl
  cases parenthesised? afterOpener with
  | none => rfl
  | some e =>
    simp only [Option.map_some, enclosed, isEmpty_code, allCommaParts_code, List.any_map,
      Function.comp_def, isArgument_code]

theorem startsNested_enum {t : Token} (h : t.kind = .keyword .enumKw) (ts : List Token) :
    Declaration.startsNested (t :: ts) = false := by
  cases ts with
  | nil => rfl
  | cons u ts => simp [Declaration.startsNested, Token.isPunct, h]

theorem startsNested_code (ts : List Token) : Declaration.startsNested (w.code ts) = Declaration.startsNested ts := by
  cases ts with
  | nil => rfl
  | cons t ts =>
    rcases w.behind_cases t with h | ⟨hk, -⟩
    · cases ts with
      | nil => rw [code_cons, h]; rfl
      | cons u rest =>
        rw [code_cons, h, code_cons, Declaration.startsNested, Declaration.startsNested]
        simp only [isPunct_token, isOneOf_token, isIdentifier_token]
        cases hu : u.isIdentifier with
        | false => simp
        | true => rw [behind_of_isIdentifier hu, head_any_code (by simp)]
    · rw [code_cons, startsNested_enum hk, startsNested_enum (by rw [w.kind_token, hk])]

theorem variables_code (specifiers : Specifiers) {type ts : List Token} (htype : type ⊆ code) (hts : ts ⊆ code) :
    DeclarationMatches w code (Declaration.variables? specifiers type ts)
      (Declaration.variables? specifiers (w.code type) (w.code ts)) := by
  unfold Declaration.variables?
  rw [declarators_code]
  dsimp only
  rw [List.isEmpty_map]
  split
  · exact .none
  · exact .variables _ htype (Declarator.names_readAll_sublist ts).2 fun d hd =>
      (Declarator.parts_readAll_subset ts d hd).imp (List.Subset.trans · hts) (List.Subset.trans · hts)

theorem typed_code {scope scope' : Scope} (h : scope'.kind = scope.kind) (inFunction : Bool)
    (specifiers : Specifiers) {type ts : List Token} (htype : type ⊆ code) (hts : ts ⊆ code)
    (hapart : ∀ s ∈ qualifiers ts, w.Apart s) :
    DeclarationMatches w code (Declaration.typed? scope inFunction specifiers type ts)
      (Declaration.typed? scope' inFunction specifiers (w.code type) (w.code ts)) := by
  cases ts with
  | nil => exact .none
  | cons t rest =>
    have htail := (List.cons_subset.mp hts).2
    unfold Declaration.typed?
    rw [code_cons]
    dsimp only
    rw [isKeyword_token, isPunct_token, isIdentifier_token]
    split
    next ht =>
      rw [behind_of_isKeyword ht (by decide)]
      exact operator_code specifiers ht htype htail
    next =>
      -- the word behind a `::` may be read in the rewritten code, since a `::` is no `enum`
      have hqualified : (t.isPunct .scope && (w.behind t (w.code rest)).head?.any (·.isKeyword .operatorKw)) =
          (t.isPunct .scope && rest.head?.any (·.isKeyword .operatorKw)) := by
        cases ht : t.isPunct .scope with
        | false => rfl
        | true => rw [behind_of_isPunct ht, head_any_code (by simp)]
      rw [hqualified]
      split
      next hcond =>
        obtain ⟨ht, hword⟩ := Bool.and_eq_true_iff.mp hcond
        rw [behind_of_isPunct ht]
        cases rest with
        | nil => exact .none
        | cons word after =>
          have hword : word.isKeyword .operatorKw = true := hword
          rw [code_cons, behind_of_isKeyword hword (by decide)]
          exact operator_code specifiers hword htype (List.cons_subset.mp htail).2
      next =>
        rw [← code_cons, startsNested_code]
        split
        · exact variables_code specifiers htype hts
        split
        · exact .none
        rw [qualifiedName_code]
        cases hname : qualifiedName? (t :: rest) with
        | none => exact .none
        | some n =>
          have hlast : n.last.isIdentifier = true := (qualifiedName_append hname).2.1
          simp only [Option.map_some]
          rw [show (w.qualifiedName n).rest = w.code n.rest from rfl]
          have hlist := List.Subset.trans (suffix_qualifiedName hname).subset hts
          generalize n.rest = after at hlist ⊢
          cases after with
          | nil => exact variables_code specifiers htype hts
          | cons opener afterOpener =>
            -- the same of what stands behind the bracket
            have hcall : ((w.token opener).isPunct .lparen &&
                  !Declaration.isDirectInitializer scope' inFunction (w.behind opener (w.code afterOpener))) =
                (opener.isPunct .lparen && !Declaration.isDirectInitializer scope inFunction afterOpener) := by
              rw [isPunct_token]
              cases hopener : opener.isPunct .lparen with
              | false => rfl
              | true => rw [behind_of_isPunct hopener, isDirectInitializer_code h]
            rw [code_cons]
            dsimp only
            rw [hcall]
            split
            next hcond =>
              have hopener := (Bool.and_eq_true_iff.mp hcond).1
              rw [behind_of_isPunct hopener]
              have hdisplay : (w.token n.last).text = w.name n.last.text := w.text_name _ (beq_iff_eq.mp hlast)
              exact .function ⟨rfl, hdisplay ▸ .name hlast _, fun _ => hdisplay, qualifier_qualifiedName n,
                fun s hs => hapart s (mem_qualifiers_of_qualifiedName hname hs), rfl, rfl, rfl, rfl, rfl, hopener,
                htype, hlist⟩
            next => exact variables_code specifiers htype hts

theorem declaration_code {scope scope' : Scope} (h : ScopeMatches w scope scope') (inFunction : Bool)
    {head : List Token} (hhead : head ⊆ code) (hapart : ∀ s ∈ qualifiers head, w.Apart s) :
    DeclarationMatches w code (Declaration.read? scope inFunction head)
      (Declaration.read? scope' inFunction (w.code head)) := by
  have hafter := List.Subset.trans (suffix_specifiers head).subset hhead
  have hspecifiers : ∀ s ∈ qualifiers (specifiers head).2, w.Apart s := fun s hs =>
    hapart s (qualifiers_subset (suffix_specifiers head).isInfix hs)
  have hspecial := special_code h (specifiers head).1 hafter hspecifiers
  unfold Declaration.read?
  rw [specifiers_code]
  dsimp only
  generalize Declaration.special? scope (specifiers head).1 (specifiers head).2 = a at hspecial ⊢
  generalize Declaration.special? scope' (specifiers head).1 (w.code (specifiers head).2) = b at hspecial ⊢
  cases hspecial with
  | function hfg => exact .function hfg
  | «variables» _ htype hnames hparts => exact .variables _ htype hnames hparts
  | none =>
    dsimp only
    rw [afterType_code]
    cases htype : afterType? (specifiers head).2 with
    | none => exact .none
    | some rest =>
      have hrest := suffix_afterType htype
      dsimp only [Option.map_some]
      rw [tokensBefore_code hrest]
      exact typed_code h.kind inFunction _ (List.Subset.trans (List.take_subset _ _) hafter)
        (List.Subset.trans hrest.subset hafter) fun s hs =>
          hspecifiers s (qualifiers_subset hrest.isInfix hs)

/-! ## Heads of classes, enumerations and namespaces -/

open Extraction

theorem afterExportMacros_cons (t : Token) (ts : List Token) :
    afterExportMacros (t :: ts) =
      if t.isIdentifier && ts.head?.any (fun u => u.isIdentifier && !u.isWord "final") then afterExportMacros ts
      else t :: ts := by
  cases ts with
  | nil => simp [afterExportMacros]
  | cons u ts =>
    rw [afterExportMacros.eq_def]
    dsimp only
    rw [Bool.and_assoc]
    rfl

theorem afterExportMacros_code (ts : List Token) : afterExportMacros (w.code ts) = w.code (afterExportMacros ts) := by
  have hname : ∀ u : Token, ((w.token u).isIdentifier && !(w.token u).isWord "final") =
      (u.isIdentifier && !u.isWord "final") := fun u => by
    rw [isIdentifier_token, isWord_token u (by decide)]
  induction ts with
  | nil => rfl
  | cons t ts ih =>
    rw [code_cons, afterExportMacros_cons, afterExportMacros_cons, isIdentifier_token]
    cases ht : t.isIdentifier with
    | false => rfl
    | true =>
      rw [behind_of_isIdentifier ht, head_any_code hname, ih]
      split
      · rfl
      · rw [code_cons, behind_of_isIdentifier ht]

theorem lastSegment_of_not {name c : Token} {ts : List Token}
    (h : (c.isPunct .scope && ts.head?.any (·.isIdentifier)) = false) :
    lastSegment name (c :: ts) = (name, c :: ts) := by
  cases ts with
  | nil => rfl
  | cons u ts =>
    unfold lastSegment
    rw [if_neg (by rw [show (c.isPunct .scope && u.isIdentifier) = false from h]; decide)]

theorem lastSegment_code (name : Token) (ts : List Token) :
    lastSegment (w.token name) (w.code ts) =
      (w.token (lastSegment name ts).1, w.code (lastSegment name ts).2) := by
  fun_induction lastSegment name ts with
  | case1 name c u rest h ih =>
    obtain ⟨hc, hu⟩ := Bool.and_eq_true_iff.mp h
    rw [code_cons, behind_of_isPunct hc, code_cons, behind_of_isIdentifier hu, lastSegment, if_pos, ih]
    rw [isPunct_token, isIdentifier_token, h]
  | case2 name c u rest h =>
    rw [code_cons, lastSegment_of_not]
    rw [isPunct_token]
    cases hc : c.isPunct .scope with
    | false => rfl
    | true =>
      rw [hc, Bool.true_and] at h
      rw [behind_of_isPunct hc, head_any_code (by simp)]
      simpa using h
  | case3 ts name h =>
    match ts with
    | [] => rfl
    | [c] =>
      rw [code_cons, lastSegment_of_not]
      rcases w.behind_cases c with hc | ⟨hk, -⟩
      · rw [hc]
        simp
      · simp [Token.isPunct, w.kind_token, hk]
    | c :: u :: rest => exact absurd rfl (h c u rest)

theorem afterBases_code (ts : List Token) : afterBases (w.code ts) = w.code (afterBases ts) := by
  have hblind : Blind w fun t => !t.isOneOf [.lbrace, .semicolon, .rbrace] := (blind_isOneOf _).not
  unfold afterBases
  rw [head_any_code (by simp), dropWhile_code hblind]
  split <;> rfl

/-- The head of a class or an enumeration, rewritten; `becomesScoped` says that `class` is put in behind its
keyword. -/
def typeHead (w : Rewriting) (becomesScoped : Bool) (h : TypeHead) : TypeHead :=
  { name := h.name.map w.token, isSpecialization := h.isSpecialization
    isScopedEnum := h.isScopedEnum || becomesScoped, terminator := w.token h.terminator
    rest := w.behind h.terminator (w.code h.rest) }

theorem finish_code (name : Option Token) (isSpecialization isScopedEnum : Bool) (ts : List Token) :
    TypeHead.finish? (name.map w.token) isSpecialization isScopedEnum (w.code ts) =
      (TypeHead.finish? name isSpecialization isScopedEnum ts).map (w.typeHead false) := by
  unfold TypeHead.finish?
  rw [afterBases_code]
  cases afterBases ts with
  | nil => rfl
  | cons t rest => simp [typeHead]

theorem afterFinal_code (ts : List Token) : afterFinal (w.code ts) = w.code (afterFinal ts) := by
  have final : ∀ t, (w.token t).isWord "final" = t.isWord "final" := fun t => isWord_token t (by decide)
  unfold afterFinal
  rw [head_any_code final]
  split
  next h => exact drop_code (by rintro t hk; simp [Token.isWord, hk]) h
  next => rfl

theorem classHead_code (ts : List Token) :
    classHead? (w.code ts) = (classHead? ts).map (w.typeHead false) := by
  unfold classHead?
  rw [afterSpecifiers_code, afterExportMacros_code]
  cases afterExportMacros (afterSpecifiers ts) with
  | nil => rfl
  | cons t rest =>
    rw [code_cons]
    dsimp only
    rw [isIdentifier_token]
    split
    next ht =>
      rw [behind_of_isIdentifier ht, lastSegment_code]
      dsimp only
      rw [head_any_code (by simp)]
      split
      next hless =>
        rw [drop_code (by rintro u hk; simp [Token.isPunct, hk]) hless, angled_code]
        cases angled? 0 ((lastSegment t rest).2.drop 1) with
        | none => rfl
        | some a =>
          dsimp only [Option.map_some, angled]
          rw [afterFinal_code]
          exact finish_code (some _) ..
      next => rw [afterFinal_code]; exact finish_code (some _) ..
    next => rw [← code_cons, afterFinal_code]; exact finish_code none ..

theorem enumHeadFrom_code (isScoped : Bool) (ts : List Token) :
    enumHeadFrom? isScoped (w.code ts) = (enumHeadFrom? isScoped ts).map (w.typeHead false) := by
  unfold enumHeadFrom?
  rw [afterSpecifiers_code]
  cases afterSpecifiers ts with
  | nil => rfl
  | cons t rest =>
    rw [code_cons]
    dsimp only
    rw [isIdentifier_token]
    split
    next ht => rw [behind_of_isIdentifier ht]; exact finish_code (some _) ..
    next => rw [← code_cons]; exact finish_code none ..

/-- Behind `class` or `struct` an enumeration is scoped, and its head is read as without it. -/
theorem enumHeadFrom_true (ts : List Token) :
    enumHeadFrom? true ts = (enumHeadFrom? false ts).map fun h => { h with isScopedEnum := true } := by
  have hfinish : ∀ name us, TypeHead.finish? name false true us =
      (TypeHead.finish? name false false us).map fun h => { h with isScopedEnum := true } := by
    intro name us
    unfold TypeHead.finish?
    cases afterBases us <;> rfl
  unfold enumHeadFrom?
  cases afterSpecifiers ts with
  | nil => rfl
  | cons t rest =>
    dsimp only
    split <;> exact hfinish ..

/-- A token that makes an enumeration scoped. -/
def scopesEnum (t : Token) : Bool := t.isKeyword .classKw || t.isKeyword .structKw

/-- The head of a type, rewritten, where `class` is not put in behind an `enum` that has it already. -/
theorem typeHead_code {keyword : Token} {ts : List Token}
    (h : w.scopes keyword = true → ts.head?.any scopesEnum = false) :
    typeHead? (w.token keyword) (w.behind keyword (w.code ts)) =
      (typeHead? keyword ts).map (w.typeHead (w.scopes keyword)) := by
  unfold typeHead?
  rw [isKeyword_token]
  split
  next henum =>
    unfold behind
    split
    next hs =>
      have hunscoped : enumHead? ts = enumHeadFrom? false ts := by
        unfold enumHead?
        rw [if_neg]
        exact fun hc => absurd (h hs ▸ hc) (by decide)
      have hinserted : enumHead? (w.inserted keyword :: w.code ts) = enumHeadFrom? true (w.code ts) := by
        unfold enumHead?
        rw [if_pos]
        · rfl
        · simp [Token.isKeyword, w.kind_inserted]
      rw [hunscoped, hinserted, enumHeadFrom_true, enumHeadFrom_code, Option.map_map, hs]
      congr 1
      funext head
      simp [typeHead]
    next hs =>
      rw [show w.scopes keyword = false by simpa using hs]
      unfold enumHead?
      rw [head_any_code (by simp)]
      split
      next hclass =>
        rw [drop_code (by rintro t hk; simp [Token.isKeyword, hk]) hclass, enumHeadFrom_code]
      next => exact enumHeadFrom_code ..
  next hno =>
    have hs : w.scopes keyword = false := by
      refine Bool.eq_false_iff.mpr fun hs => hno ?_
      rw [Token.isKeyword, w.kind_of_scopes keyword hs]
      exact beq_self_eq_true _
    rw [hs]
    unfold behind
    rw [hs, if_neg (by decide)]
    exact classHead_code ts

theorem afterNamespaceSign_code (ts : List Token) :
    afterNamespaceSign? (w.code ts) = (afterNamespaceSign? ts).map w.code := by
  cases ts with
  | nil => rfl
  | cons c rest =>
    rw [code_cons, afterNamespaceSign?, afterNamespaceSign?, isPunct_token]
    split
    next hc =>
      rw [behind_of_isPunct hc, head_any_code (by simp)]
      split
      next hinline => rw [drop_code (by rintro t hk; simp [Token.isKeyword, hk]) hinline]; rfl
      next => rfl
    next => rfl

theorem namespaceNamesAt_cons (t : Token) (ts : List Token) :
    namespaceNamesAt (t :: ts) =
      if t.isIdentifier then
        match afterNamespaceSign? ts with
        | some next => (t :: (namespaceNamesAt next).1, (namespaceNamesAt next).2)
        | none => ([t], ts)
      else ([], t :: ts) := by
  rw [namespaceNamesAt.eq_def]
  dsimp only
  split
  · split
    next h => rw [h]
    next h => rw [h]
  · rfl

theorem namespaceNamesAt_code (ts : List Token) :
    namespaceNamesAt (w.code ts) = ((namespaceNamesAt ts).1.map w.token, w.code (namespaceNamesAt ts).2) := by
  fun_induction namespaceNamesAt ts with
  | case1 => rw [code_nil, namespaceNamesAt]; rfl
  | case2 t rest ht next h ih =>
    rw [code_cons, behind_of_isIdentifier ht, namespaceNamesAt_cons, isIdentifier_token, if_pos ht,
      afterNamespaceSign_code, h]
    dsimp only [Option.map_some]
    rw [ih]
    rfl
  | case3 t rest ht h =>
    rw [code_cons, behind_of_isIdentifier ht, namespaceNamesAt_cons, isIdentifier_token, if_pos ht,
      afterNamespaceSign_code, h]
    rfl
  | case4 t rest ht =>
    rw [code_cons, namespaceNamesAt_cons, isIdentifier_token, if_neg ht]
    rfl

theorem pointerAlias_cons (a : Token) (ts : List Token) :
    pointerAlias? (a :: ts) =
      if a.isPunct .lparen && ts.head?.any (·.isPunct .star) && (ts.drop 1).head?.any (·.isIdentifier) then
        (ts.drop 1).head?
      else pointerAlias? ts := by
  match ts with
  | [] => simp [pointerAlias?]
  | [b] => simp [pointerAlias?]
  | b :: c :: rest => rfl

theorem pointerAlias_code (ts : List Token) : pointerAlias? (w.code ts) = (pointerAlias? ts).map w.token := by
  induction ts with
  | nil => rfl
  | cons a ts ih =>
    rw [code_cons, pointerAlias_cons, pointerAlias_cons, isPunct_token]
    cases ha : a.isPunct .lparen with
    | false =>
      show pointerAlias? (w.behind a (w.code ts)) = (pointerAlias? ts).map w.token
      rw [← ih]
      unfold behind
      split
      · rw [pointerAlias_cons]
        simp [Token.isPunct, w.kind_inserted]
      · rfl
    | true =>
      rw [behind_of_isPunct ha, head_any_code (by simp)]
      cases hstar : ts.head?.any (·.isPunct .star) with
      | false => exact ih
      | true =>
        rw [drop_code (by rintro t hk; simp [Token.isPunct, hk]) hstar, head_any_code (by simp), head_code, ih]
        split <;> rfl

end HouseStyle.Rewriting
