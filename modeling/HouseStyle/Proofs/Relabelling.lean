import HouseStyle.Proofs.PlacedReports
import Mathlib.Data.List.Forall2
import Mathlib.Logic.Equiv.Basic

/-!
# Tokens that are moved and spelled in another way

Every token of a file is replaced by one of its kind, which may stand somewhere else and be spelled in
another way: names are respelled, different ones in different ways, and the tokens stay in order
(`Relabels`). Then the model of the file is replaced by one that says the same of the new tokens
(`ModelRelabelled`): the same entities in the same order, the same scopes, and the same stretches that were
not understood.

- `Relabels.relabelled`: so it is for all tokens and all ways to replace them.
- `extract_map`: in particular when identifiers are renamed and the layout is changed.

Replacing tokens one by one is a rewriting that puts nothing in, and `Rewriting.follows_run` does the reading.
What is left is the order of the entities, which are sorted by their names: these are tokens or parts of
directives.
-/

namespace HouseStyle

/-- Two lists that are sorted alike stay side by side. -/
theorem forall₂_mergeSort {α β : Type} {R : α → β → Prop} {r : α → α → Bool} {s : β → β → Bool} {xs : List α}
    {ys : List β} (h : List.Forall₂ R xs ys) (hrs : ∀ a b a' b', R a a' → R b b' → r a b = s a' b') :
    List.Forall₂ R (xs.mergeSort r) (ys.mergeSort s) := by
  obtain ⟨hlen, hzip⟩ := List.forall₂_iff_zip.mp h
  have hR : ∀ z ∈ xs.zip ys, R z.1 z.2 := fun z hz => hzip hz
  -- the pairs are sorted by either side alike
  have hfst : ((xs.zip ys).mergeSort fun a b => r a.1 b.1).map (·.1) = xs.mergeSort r := by
    rw [List.map_mergeSort (s := r) (fun _ _ _ _ => rfl), List.map_fst_zip (Nat.le_of_eq hlen)]
  have hsnd : ((xs.zip ys).mergeSort fun a b => r a.1 b.1).map (·.2) = ys.mergeSort s := by
    rw [List.map_mergeSort (s := s) (fun a ha b hb => hrs _ _ _ _ (hR a ha) (hR b hb)),
      List.map_snd_zip (Nat.le_of_eq hlen.symm)]
  rw [← hfst, ← hsnd, List.forall₂_map_left_iff, List.forall₂_map_right_iff, List.forall₂_same]
  exact fun z hz => hR z (List.mem_mergeSort.mp hz)

open Extraction

/-- Tokens stand one behind another, and each is as long as its text, which is not empty. -/
structure Placed (tokens : List Token) : Prop where
  inOrder : tokens.Pairwise fun t u => t.stop ≤ u.start
  span : ∀ t ∈ tokens, t.stop = t.start + t.text.length
  text_ne_nil : ∀ t ∈ tokens, t.text ≠ []

/-- The tokens of a text are placed in it. -/
theorem placed_tokens (text : Text) : Placed (tokens text) where
  inOrder := tokens_ordered text
  span t ht := by
    obtain ⟨_, _, -, -, hstop⟩ := exists_piece_of_mem_tokens ht
    exact hstop
  text_ne_nil t ht hnil := by
    obtain ⟨_, _, -, -, hstop⟩ := exists_piece_of_mem_tokens ht
    have := start_lt_stop ht
    rw [hstop, hnil] at this
    exact absurd this (by simp)

theorem Placed.start_lt_stop {tokens : List Token} (h : Placed tokens) {t : Token} (ht : t ∈ tokens) :
    t.start < t.stop := by
  have := List.length_pos_iff.mpr (h.text_ne_nil t ht)
  rw [h.span t ht]
  omega

/-- Tokens are replaced one by one: names by other names, and directives by themselves. Of a literal it must
stay whether it is a plain string. -/
structure Relabels (name : Text → Text) (f : Token → Token) (tokens : List Token) : Prop where
  injective : Function.Injective name
  respelling : IsRespelling name
  kind : ∀ t ∈ tokens, (f t).kind = t.kind
  text_name : ∀ t ∈ tokens, t.kind = .identifier → (f t).text = name t.text
  quoted : ∀ t ∈ tokens, t.kind = .literal →
    ((f t).text.head? == some (.scalar '"')) = (t.text.head? == some (.scalar '"'))
  directive : ∀ t ∈ tokens, t.kind = .directive → (f t).text = t.text
  old : Placed tokens
  new : Placed (tokens.map f)

/-! ## What becomes of a model -/

section Relations

variable (name : Text → Text) (f : Token → Token) (tokens : List Token)

/-- The text of some of the tokens, and that of what these become. -/
def TextRelabelled (s s' : Text) : Prop := ∃ us, us ⊆ tokens ∧ s = joinedText us ∧ s' = joinedText (us.map f)

/-- The type of an entity: the text of some of the tokens, behind the name of a class if they are declarators
of it, and perhaps with the sign of an array. -/
def TypeRelabelled (s s' : Text) : Prop :=
  ∃ (front : Option Token) (us : List Token) (isArray : Bool), (∀ t, front = some t → t ∈ tokens) ∧ us ⊆ tokens ∧
    s = (front.map (·.text)).getD [] ++ joinedText us ++ (if isArray then Text.ofString "[]" else []) ∧
    s' = ((front.map f).map (·.text)).getD [] ++ joinedText (us.map f) ++
      (if isArray then Text.ofString "[]" else [])

/-- What an identifier is shown as is respelled; an operator is shown by the tokens of its symbol. -/
inductive DisplayRelabelled (t : Token) : Text → Text → Prop where
  | name (h : t.isIdentifier = true) (s : Text) : DisplayRelabelled t s (name s)
  | operator (h : t.isKeyword .operatorKw = true) {us : List Token} (hus : us ⊆ tokens) :
    DisplayRelabelled t (Text.ofString "operator" ++ us.flatMap (·.text))
      (Text.ofString "operator" ++ (us.map f).flatMap (·.text))

/-- The part of a directive that is the name of the macro it defines. -/
def macroToken (directive : Token) (lead s : Text) : Token :=
  Piece.tokenAt (Place.past ⟨directive.start, directive.line, directive.column⟩ lead) .identifier s

/-- The token that declares an entity and the name of this. The name of a macro stays, and moves with its
directive. -/
inductive NameRelabelled : Token → Text → Token → Text → Prop where
  | code {t : Token} {s s' : Text} (h : t ∈ tokens) (hs : DisplayRelabelled name f tokens t s s') :
    NameRelabelled t s (f t) s'
  | directive {d : Token} {lead s : Text} (h : d ∈ tokens) (hd : d.kind = .directive)
    (hdefined : definedName? d.text = some (lead, s)) :
    NameRelabelled (macroToken d lead s) s (macroToken (f d) lead s) s

/-- A parameter of a function. -/
structure ParameterRelabelled (p p' : Parameter) : Prop where
  typeText : TextRelabelled f tokens p.typeText p'.typeText
  name : p'.name = p.name.map f
  isConst : p'.isConst = p.isConst
  confidence : p'.confidence = p.confidence

/-- An entity. Whatever is not named here is the same. -/
structure EntityRelabelled (e e' : Entity) : Prop where
  same : e' = { e with
    name := e'.name, token := e'.token, typeText := e'.typeText, initializer := e'.initializer
    parameters := e'.parameters, qualifier := e'.qualifier, keyword := e'.keyword }
  named : NameRelabelled name f tokens e.token e.name e'.token e'.name
  typeText : TypeRelabelled f tokens e.typeText e'.typeText
  initializer : TextRelabelled f tokens e.initializer e'.initializer
  parameters : List.Forall₂ (ParameterRelabelled f tokens) e.parameters e'.parameters
  qualifier : e'.qualifier = e.qualifier.map name
  keyword : e'.keyword = e.keyword.map f

/-- A scope. It starts and ends where tokens do; that of the file starts at 0, and ends there without code. -/
structure ScopeRelabelled (s s' : Scope) : Prop where
  same : s' = { s with name := s'.name, start := s'.start, stop := s'.stop }
  named : s.kind ≠ .function → s'.name = s.name.map name
  display : Option.Rel (fun a b => ∃ t, DisplayRelabelled name f tokens t a b) s.name s'.name
  start : (s.kind = .file ∧ s.start = 0 ∧ s'.start = 0) ∨ ∃ t ∈ tokens, s.start = t.start ∧ s'.start = (f t).start
  stop : (Token.code tokens = [] ∧ s.stop = 0 ∧ s'.stop = 0) ∨
    ∃ t ∈ tokens, s.stop = t.stop ∧ s'.stop = (f t).stop

/-- The model of some tokens and that of what they become. -/
structure ModelRelabelled (m m' : Model) : Prop where
  entities : List.Forall₂ (EntityRelabelled name f tokens) m.entities m'.entities
  scopes : List.Forall₂ (ScopeRelabelled name f tokens) m.scopes.toList m'.scopes.toList
  anomalies : m'.anomalies = m.anomalies.map fun a => (f a.1, f a.2)

end Relations

/-! ## Replacing tokens as a rewriting -/

namespace Relabels

variable {name : Text → Text} {f : Token → Token} {tokens : List Token}

/-- Nothing is put in. Tokens of other files do not matter. -/
def rewriting (h : Relabels name f tokens) : Rewriting where
  token t := if t ∈ tokens then f t else { t with text := if t.kind = .identifier then name t.text else t.text }
  name := name
  scopes _ := false
  inserted t := { t with kind := .keyword .classKw }
  kind_token t := by
    split
    next ht => exact h.kind t ht
    next => rfl
  text_name t hkind := by
    split
    next ht => exact h.text_name t ht hkind
    next => rfl
  quoted_token t hkind := by
    split
    next ht => exact h.quoted t ht hkind
    next => rw [if_neg (by rw [hkind]; simp)]
  kind_of_scopes _ hs := absurd hs (by simp)
  kind_inserted _ := rfl
  name_tilde := h.respelling.tilde
  tilde_of_name := h.respelling.tilde_of
  name_contextual := h.respelling.contextual

variable (h : Relabels name f tokens)

include h

theorem token_eq {t : Token} (ht : t ∈ tokens) : h.rewriting.token t = f t := if_pos ht

theorem code_eq {us : List Token} (hus : us ⊆ tokens) : h.rewriting.code us = us.map f := by
  induction us with
  | nil => rfl
  | cons t us ih =>
    rw [List.cons_subset] at hus
    rw [Rewriting.code_cons, ih hus.2, h.token_eq hus.1]
    rfl

theorem fits (ts : List Token) : h.rewriting.Fits ts where
  unscoped _ _ _ hs := absurd hs (by simp [rewriting])
  apart _ _ _ heq := h.injective heq

/-- The tokens and what they become, side by side. -/
theorem inOrder : RewrittenToken.InOrder (tokens.map fun t => ⟨t, f t, none⟩) where
  old := List.pairwise_map.mpr h.old.inOrder
  new := List.pairwise_map.mpr (List.pairwise_map.mp h.new.inOrder)

theorem distinct : h.rewriting.Distinct (Token.code tokens) := by
  intro t ht u hu heq
  have ht := (List.mem_filter.mp ht).1
  have hu := (List.mem_filter.mp hu).1
  rw [h.token_eq ht, h.token_eq hu] at heq
  refine congrArg RewrittenToken.old (h.inOrder.eq_of_new_eq (fun r hr => ?_)
    (List.mem_map.mpr ⟨t, ht, rfl⟩) (List.mem_map.mpr ⟨u, hu, rfl⟩) heq)
  obtain ⟨v, hv, rfl⟩ := List.mem_map.mp hr
  exact h.new.start_lt_stop (List.mem_map_of_mem hv)

/-- A test of kinds picks the same tokens. -/
theorem filter_map {p : Token → Bool} (hp : ∀ t u : Token, t.kind = u.kind → p t = p u) :
    (tokens.map f).filter p = (tokens.filter p).map f := by
  rw [List.filter_map]
  congr 1
  exact List.filter_congr fun t ht => hp _ _ (h.kind t ht)

theorem code_map : Token.code (tokens.map f) = (Token.code tokens).map f :=
  h.filter_map fun _ _ => Rewrites.isCode_of_kind_eq

/-- Reading the new tokens comes to the state that reading the old ones comes to. -/
theorem follows_readCode : Rewriting.Follows h.rewriting (Token.code tokens) (readCode tokens)
    (readCode (tokens.map f)) := by
  have hcode : Token.code (tokens.map f) = h.rewriting.code (Token.code tokens) :=
    h.code_map.trans (h.code_eq (List.filter_subset_self _)).symm
  have hstart := Rewriting.follows_initial h.rewriting (Token.code tokens)
  rw [← hcode] at hstart
  rw [readCode, readCode, hcode]
  exact Rewriting.follows_run hstart h.distinct (h.fits _) (List.Subset.refl _)

/-! ## Entities -/

theorem textRelabelled {s s' : Text} (hs : h.rewriting.Rejoins (Token.code tokens) s s') :
    TextRelabelled f tokens s s' := by
  obtain ⟨us, hus, rfl, rfl⟩ := hs
  have hus := List.Subset.trans hus (List.filter_subset_self _)
  exact ⟨us, hus, rfl, congrArg joinedText (h.code_eq hus)⟩

theorem typeRelabelled {s s' : Text} (hs : h.rewriting.Retypes (Token.code tokens) s s') :
    TypeRelabelled f tokens s s' := by
  obtain ⟨front, us, isArray, hfront, hus, rfl, rfl⟩ := hs
  have hus := List.Subset.trans hus (List.filter_subset_self _)
  rw [h.code_eq hus]
  cases front with
  | none => exact ⟨none, us, isArray, by simp, hus, rfl, rfl⟩
  | some s =>
    obtain ⟨t, ht, hid, rfl⟩ := hfront s rfl
    have ht := (List.mem_filter.mp ht).1
    refine ⟨some t, us, isArray, by simpa using ht, hus, rfl, ?_⟩
    simp only [Option.map_some, Option.getD_some]
    rw [h.text_name t ht (beq_iff_eq.mp hid)]
    rfl

theorem displayRelabelled {t : Token} {s s' : Text}
    (hs : h.rewriting.DisplayMatches (Token.code tokens) t s s') : DisplayRelabelled name f tokens t s s' := by
  cases hs with
  | name hid s => exact .name hid s
  | operator hk hus =>
    have hus := List.Subset.trans hus (List.filter_subset_self _)
    rw [h.code_eq hus]
    exact .operator hk hus

/-- The parameters of a function, whose names are tokens. -/
theorem parametersRelabelled {ps ps' : List Parameter}
    (hps : List.Forall₂ (h.rewriting.ParameterMatches (Token.code tokens)) ps ps')
    (hnames : ∀ p ∈ ps, ∀ t, p.name = some t → t ∈ tokens) :
    List.Forall₂ (ParameterRelabelled f tokens) ps ps' := by
  induction hps with
  | nil => exact .nil
  | @cons p p' ps ps' hfirst _ ih =>
    rw [List.forall_mem_cons] at hnames
    refine .cons ⟨h.textRelabelled hfirst.typeText, ?_, hfirst.isConst, hfirst.confidence⟩ (ih hnames.2)
    rw [hfirst.name]
    exact Option.map_congr fun t ht => h.token_eq (hnames.1 t ht)

theorem entityRelabelled {e e' : Entity} (hfollows : h.rewriting.EntityFollows (Token.code tokens) e e')
    (htoken : e.token ∈ tokens) (hkeyword : ∀ t, e.keyword = some t → t ∈ tokens)
    (hnames : ∀ p ∈ e.parameters, ∀ t, p.name = some t → t ∈ tokens) :
    EntityRelabelled name f tokens e e' := by
  have hbare := hfollows.bare
  have htoken' : e'.token = f e.token := (congrArg Entity.token hbare).trans (h.token_eq htoken)
  refine ⟨?_, ?_, h.typeRelabelled hfollows.typeText, h.textRelabelled hfollows.initializer,
    h.parametersRelabelled hfollows.parameters hnames, congrArg Entity.qualifier hbare, ?_⟩
  · have hscoped : e.keyword.any h.rewriting.scopes = false := by cases e.keyword <;> rfl
    unfold Rewriting.entity at hbare
    rw [hscoped, Bool.or_false] at hbare
    cases e
    cases e'
    simp only [Entity.bare, Entity.mk.injEq] at hbare ⊢
    simp [hbare]
  · rw [htoken']
    exact .code htoken (h.displayRelabelled hfollows.display)
  · exact (congrArg Entity.keyword hbare).trans (Option.map_congr fun t ht => h.token_eq (hkeyword t ht))

/-- The entities that the code declares. -/
theorem declaredRelabelled :
    List.Forall₂ (EntityRelabelled name f tokens) (readCode tokens).entities.toList
      (readCode (tokens.map f)).entities.toList := by
  obtain ⟨declared, hdeclared, hdeclares⟩ :=
    declares_of_takes (takes_run (.initial (codeEnd tokens)) List.suffix_rfl)
  change (readCode tokens).entities.toList = _ at hdeclared
  have hknown : ∀ e ∈ (readCode tokens).entities.toList, e.token ∈ tokens ∧
      (∀ t, e.keyword = some t → t ∈ tokens) ∧
      ∀ p ∈ e.parameters, ∀ t, p.name = some t → t ∈ tokens := by
    intro e he
    have he' : e ∈ declared := by rwa [hdeclared] at he
    exact ⟨(List.mem_filter.mp (hdeclares.token_mem he')).1,
      fun t ht => (List.mem_filter.mp ((hdeclares.ofCode e he').keyword t ht).mem.1).1,
      fun p hp t ht => (List.mem_filter.mp (knowsParameters_readCode tokens e he p hp t ht)).1⟩
  refine ((List.forall₂_and_left _ _).mpr ⟨hknown, h.follows_readCode.entities⟩).imp fun e e' hboth => ?_
  obtain ⟨⟨htoken, hkeyword, hnames⟩, hfollows⟩ := hboth
  exact h.entityRelabelled hfollows htoken hkeyword hnames

omit h in
theorem macro_eq (d : Token) :
    macro? d = (definedName? d.text).map fun r =>
      { kind := .macro_, name := r.2, token := macroToken d r.1 r.2, scope := 0 } := rfl

omit h in
theorem textRelabelled_nil : TextRelabelled f tokens [] [] := ⟨[], List.nil_subset _, rfl, rfl⟩

/-- The macros that the directives define. -/
theorem macrosRelabelled (ds : List Token) (hds : ds ⊆ tokens) (hdirectives : ∀ d ∈ ds, d.kind = .directive) :
    List.Forall₂ (EntityRelabelled name f tokens) (ds.filterMap macro?) ((ds.map f).filterMap macro?) := by
  induction ds with
  | nil => exact .nil
  | cons d ds ih =>
    rw [List.cons_subset] at hds
    rw [List.forall_mem_cons] at hdirectives
    have hrest := ih hds.2 hdirectives.2
    rw [List.map_cons, List.filterMap_cons, List.filterMap_cons, macro_eq, macro_eq,
      h.directive d hds.1 hdirectives.1]
    cases hdefined : definedName? d.text with
    | none => exact hrest
    | some r =>
      exact .cons ⟨rfl, .directive hds.1 hdirectives.1 hdefined,
        ⟨none, [], false, by simp, List.nil_subset _, rfl, rfl⟩,
        textRelabelled_nil, .nil, rfl, rfl⟩ hrest

/-- An entity stands in a token, and what becomes of it equally far in what the token becomes. -/
theorem aligned {e e' : Entity} (he : EntityRelabelled name f tokens e e') :
    Rewrites.Aligned (tokens.map fun t => ⟨t, f t, none⟩) e e' := by
  have hnamed := he.named
  unfold Rewrites.Aligned Entity.start
  generalize e.token = t at hnamed ⊢
  generalize e.name = s at hnamed
  generalize e'.token = t' at hnamed ⊢
  generalize e'.name = s' at hnamed
  cases hnamed with
  | code ht _ =>
    exact ⟨_, List.mem_map.mpr ⟨t, ht, rfl⟩, 0, rfl, rfl, h.old.start_lt_stop ht,
      h.new.start_lt_stop (List.mem_map_of_mem ht)⟩
  | @directive d lead s hd hkind hdefined =>
    -- the name stands within its directive
    obtain ⟨-, hlen, hne⟩ := NamingRule.mem_wordsFrom_of_definedName hdefined
    have hpos := List.length_pos_iff.mpr hne
    have hstop := h.old.span d hd
    have hstop' := h.new.span (f d) (List.mem_map_of_mem hd)
    rw [h.directive d hd hkind] at hstop'
    have hstart : ∀ u : Token, (macroToken u lead s).start = u.start + lead.length := fun u =>
      Piece.offset_past _ lead
    refine ⟨_, List.mem_map.mpr ⟨d, hd, rfl⟩, lead.length, hstart d, hstart (f d), ?_, ?_⟩
    · rw [hstart]
      show _ < d.stop
      omega
    · rw [hstart]
      show _ < (f d).stop
      omega

/-- The new model declares what the old one declares, entity by entity. -/
theorem entitiesRelabelled :
    List.Forall₂ (EntityRelabelled name f tokens) (extract tokens).entities (extract (tokens.map f)).entities := by
  have hdirectives : (tokens.map f).filter (·.isDirective) = (tokens.filter (·.isDirective)).map f :=
    h.filter_map fun t u hkind => by simp only [Token.isDirective, hkind]
  have hall := List.rel_append h.declaredRelabelled (h.macrosRelabelled (tokens.filter (·.isDirective))
    (List.filter_subset_self _) fun d hd => by simpa [Token.isDirective] using (List.mem_filter.mp hd).2)
  rw [← hdirectives] at hall
  rw [extract_eq, extract_eq]
  dsimp only
  rw [(ofTokens_eq _).1, (ofTokens_eq _).1]
  refine forall₂_mergeSort hall fun a b a' b' ha hb => ?_
  have hkind : ∀ {e e' : Entity}, EntityRelabelled name f tokens e e' → e'.kind = e.kind := fun he => by
    rw [he.same]
  exact h.inOrder.precedes_eq (h.aligned ha) (h.aligned hb) (hkind ha) (hkind hb)

/-! ## Scopes -/

theorem scopeRelabelled {s s' : Scope} {p : Prop} (hp : ¬p)
    (hfollows : h.rewriting.ScopeFollows (Token.code tokens) p s s') : ScopeRelabelled name f tokens s s' where
  same := by
    have hbare := hfollows.bare
    unfold Rewriting.scope at hbare
    cases s
    cases s'
    simp only [Scope.bare, Scope.mk.injEq] at hbare ⊢
    simp [hbare]
  named := hfollows.name_eq
  display := by
    have hdisplay := hfollows.display
    generalize s.name = a at hdisplay ⊢
    generalize s'.name = b at hdisplay ⊢
    cases hdisplay with
    | none => exact .none
    | some hdisplay =>
      obtain ⟨t, ht⟩ := hdisplay
      exact .some ⟨t, h.displayRelabelled ht⟩
  start := by
    cases hfollows.start with
    | file hold hnew => exact .inl ⟨hold.1, hold.2, hnew⟩
    | @token t ht hold hnew =>
      have ht := (List.mem_filter.mp ht).1
      exact .inr ⟨t, ht, hold, by rw [hnew, h.token_eq ht]⟩
  stop := by
    cases hfollows.stop.resolve_left hp with
    | empty hcode hold hnew => exact .inl ⟨hcode, hold, hnew⟩
    | @token t ht hold hnew =>
      have ht := (List.mem_filter.mp ht).1
      exact .inr ⟨t, ht, hold, hnew.trans (congrArg Token.stop (h.token_eq ht))⟩

/-- Scopes stay what they are. -/
theorem scopesRelabelled :
    List.Forall₂ (ScopeRelabelled name f tokens) (extract tokens).scopes.toList
      (extract (tokens.map f)).scopes.toList := by
  have hnone : Token.code tokens = [] → (readCode tokens).opened = [] := fun hcode => by
    unfold readCode
    rw [hcode, run]
    rfl
  have hcode : Token.code (tokens.map f) = h.rewriting.code (Token.code tokens) :=
    h.code_map.trans (h.code_eq (List.filter_subset_self _)).symm
  have hend := h.follows_readCode.endOpened hnone
  rw [← hcode] at hend
  change Rewriting.Follows _ _ { (readCode tokens).endOpened (codeEnd tokens) with opened := [] }
    { (readCode (tokens.map f)).endOpened (codeEnd (tokens.map f)) with opened := [] } at hend
  rw [extract_eq, extract_eq, (ofTokens_eq _).2, (ofTokens_eq _).2, List.forall₂_iff_get]
  refine ⟨by simpa using hend.size.symm, fun i hi hi' => ?_⟩
  have hs := hend.scope i _ _ (Array.getElem?_eq_getElem (by simpa using hi))
    (Array.getElem?_eq_getElem (by simpa using hi'))
  exact h.scopeRelabelled (by simp) hs

/-! ## The model -/

/-- The stretches that were not understood stay what they are. -/
theorem anomaliesRelabelled :
    (extract (tokens.map f)).anomalies = (extract tokens).anomalies.map fun a => (f a.1, f a.2) := by
  rw [extract_eq, extract_eq]
  dsimp only
  rw [anomalies_ofTokens, anomalies_ofTokens, h.follows_readCode.anomalies]
  refine List.map_congr_left fun a ha => ?_
  have hmem : a.1 ∈ tokens ∧ a.2 ∈ tokens := by
    rcases anomalies_readCode tokens a ha with ⟨hsame, hmem⟩ | hsub
    · exact ⟨(List.mem_filter.mp hmem).1, hsame ▸ (List.mem_filter.mp hmem).1⟩
    · have hboth := (hsub.trans List.filter_sublist).subset
      exact ⟨hboth List.mem_cons_self, hboth (List.mem_cons_of_mem _ List.mem_cons_self)⟩
  exact Prod.ext (h.token_eq hmem.1) (h.token_eq hmem.2)

/-- The model of the new tokens is that of the old ones, relabelled. -/
theorem relabelled : ModelRelabelled name f tokens (extract tokens) (extract (tokens.map f)) :=
  ⟨h.entitiesRelabelled, h.scopesRelabelled, h.anomaliesRelabelled⟩

end Relabels

/-! ## Renaming and layout -/

instance (t : Text) : Decidable (Lexeme.IsName t) :=
  decidable_of_iff ((t.head?.any fun g => Lexeme.startsWord g && !Lexeme.isDigit g) = true ∧
      (∀ g ∈ t, Lexeme.continuesWord g = true) ∧ Keyword.ofText? t = none) <| by
    unfold Lexeme.IsName
    cases t <;> simp

/-- A text that can stand as an identifier. -/
@[ext]
structure Identifier where
  text : Text
  isName : Lexeme.IsName text
  deriving DecidableEq

namespace Identifier

/-- A text in which an identifier is renamed. -/
def renamed (ρ : Identifier → Identifier) (s : Text) : Text := if h : Lexeme.IsName s then (ρ ⟨s, h⟩).text else s

variable {ρ : Identifier → Identifier}

theorem renamed_text (i : Identifier) : renamed ρ i.text = (ρ i).text := dif_pos i.isName

theorem renamed_of_not {s : Text} (h : ¬Lexeme.IsName s) : renamed ρ s = s := dif_neg h

theorem injective_renamed (hρ : Function.Injective ρ) : Function.Injective (renamed ρ) := by
  intro s t heq
  by_cases hs : Lexeme.IsName s <;> by_cases ht : Lexeme.IsName t
  · rw [renamed_text ⟨s, hs⟩, renamed_text ⟨t, ht⟩, ← Identifier.ext_iff] at heq
    exact congrArg text (hρ heq)
  · rw [renamed_text ⟨s, hs⟩, renamed_of_not ht] at heq
    exact absurd (heq ▸ (ρ ⟨s, hs⟩).isName) ht
  · rw [renamed_of_not hs, renamed_text ⟨t, ht⟩] at heq
    exact absurd (heq ▸ (ρ ⟨t, ht⟩).isName) hs
  · rwa [renamed_of_not hs, renamed_of_not ht] at heq

/-- What entities and scopes are called after renaming: the name of a destructor follows its tilde. -/
def respelled (ρ : Identifier → Identifier) : Text → Text := behindTildes (renamed ρ)

theorem respelled_text (i : Identifier) : respelled ρ i.text = (ρ i).text :=
  (behindTildes_of_ne i.isName.head_ne_tilde).trans (renamed_text i)

theorem head_renamed (ρ : Identifier → Identifier) (s : Text) :
    (renamed ρ s).head? = some (.scalar '~') ↔ s.head? = some (.scalar '~') := by
  by_cases hs : Lexeme.IsName s
  · rw [renamed_text ⟨s, hs⟩]
    exact iff_of_false (ρ ⟨s, hs⟩).isName.head_ne_tilde hs.head_ne_tilde
  · rw [renamed_of_not hs]

/-- The words with a meaning of their own stay apart from all other names. -/
theorem isRespelling_respelled (hρ : Function.Injective ρ)
    (hcontextual : ∀ i, i.text ∈ contextualWords.map Text.ofString → ρ i = i) : IsRespelling (respelled ρ) := by
  refine isRespelling_behindTildes (head_renamed ρ) fun s word hword => ?_
  have hnames : ∀ word ∈ contextualWords, Lexeme.IsName (Text.ofString word) := by decide +kernel
  have hsame : renamed ρ (Text.ofString word) = Text.ofString word := by
    rw [renamed_text ⟨_, hnames word hword⟩, hcontextual ⟨_, hnames word hword⟩ (List.mem_map_of_mem hword)]
  refine ⟨fun heq => ?_, fun heq => heq ▸ hsame⟩
  exact injective_renamed hρ (heq.trans hsame.symm)

/-- Tokens are replaced by ones of their kinds, identifiers by what they are renamed to and all others by
themselves, wherever they stand then. -/
structure Renames (ρ : Identifier → Identifier) (f : Token → Token) (tokens : List Token) : Prop where
  kind : ∀ t ∈ tokens, (f t).kind = t.kind
  identifier : ∀ t ∈ tokens, t.isIdentifier = true → 
    ∃ i : Identifier, t.text = i.text ∧ (f t).text = (ρ i).text
  other : ∀ t ∈ tokens, t.isIdentifier = false → (f t).text = t.text

/-- When identifiers are renamed and tokens are moved, the model of the file is renamed and moved with them. The
tokens may come from anywhere, and the layout is free as long as they stay in order; names that are equal stay
so, different ones stay different, and the words that mean something in a declaration stay apart. -/
theorem extract_map {ρ : Identifier → Identifier} (hρ : Function.Injective ρ)
    (hcontextual : ∀ i, i.text ∈ contextualWords.map Text.ofString → ρ i = i) {f : Token → Token}
    {tokens : List Token} (hf : Renames ρ f tokens) (hold : Placed tokens) (hnew : Placed (tokens.map f)) :
    ModelRelabelled (respelled ρ) f tokens (extract tokens) (extract (tokens.map f)) := by
  have hother : ∀ t ∈ tokens, t.kind ≠ .identifier → (f t).text = t.text := fun t ht hkind =>
    hf.other t ht (beq_eq_false_iff_ne.mpr hkind)
  refine Relabels.relabelled ⟨injective_behindTildes (injective_renamed hρ) (head_renamed ρ),
    isRespelling_respelled hρ hcontextual, hf.kind, fun t ht hkind => ?_,
    fun t ht hkind => ?_, fun t ht hkind => hother t ht (by simp [hkind]), hold, hnew⟩
  · obtain ⟨i, hi, htext⟩ := hf.identifier t ht (beq_iff_eq.mpr hkind)
    rw [htext, hi, respelled_text]
  · rw [hother t ht (by simp [hkind])]

/-- A token that is renamed and starts tenfold as far into the file. -/
def stretched (ρ : Identifier → Identifier) (t : Token) : Token :=
  let text := if t.isIdentifier then renamed ρ t.text else t.text
  { t with text, start := 10 * t.start, stop := 10 * t.start + text.length }

/-- `Shape` and `Form` exchanged. -/
def shapeForm : Identifier → Identifier :=
  Equiv.swap ⟨Text.ofString "Shape", by decide +kernel⟩ ⟨Text.ofString "Form", by decide +kernel⟩

/-- Both names have room where they stand then. -/
theorem length_stretched_le {t : Token} (h : t.text ≠ []) :
    (stretched shapeForm t).text ≠ [] ∧ (stretched shapeForm t).text.length ≤ 10 * t.text.length := by
  have hpos := List.length_pos_iff.mpr h
  unfold stretched
  dsimp only
  split
  · by_cases hs : Lexeme.IsName t.text
    · rw [renamed_text ⟨t.text, hs⟩, shapeForm, Equiv.swap_apply_def]
      split
      next heq => exact ⟨by decide, by rw [show t.text = _ from congrArg text heq]; decide⟩
      split
      next heq => exact ⟨by decide, by rw [show t.text = _ from congrArg text heq]; decide⟩
      next => exact ⟨h, by dsimp only; omega⟩
    · rw [renamed_of_not hs]
      exact ⟨h, by omega⟩
  · exact ⟨h, by omega⟩

theorem extract_map_shapeForm :
    ModelRelabelled (respelled shapeForm) (stretched shapeForm)
      (tokens (Text.ofString "struct Shape \x7b ~Shape(); \x7d;"))
      (extract (tokens (Text.ofString "struct Shape \x7b ~Shape(); \x7d;")))
      (extract ((tokens (Text.ofString "struct Shape \x7b ~Shape(); \x7d;")).map (stretched shapeForm))) := by
  have hplaced := placed_tokens (Text.ofString "struct Shape \x7b ~Shape(); \x7d;")
  have hroom := fun t ht => length_stretched_le (hplaced.text_ne_nil t ht)
  have hcontextual : ∀ text ∈ contextualWords.map Text.ofString,
      text ≠ Text.ofString "Shape" ∧ text ≠ Text.ofString "Form" := by decide
  refine extract_map (Equiv.swap _ _).injective (fun i hi => ?_) ⟨fun _ _ => rfl, fun t ht hid => ?_,
    fun t _ hid => if_neg (by simp [hid])⟩ hplaced ⟨?_, fun t ht => ?_, fun t ht => ?_⟩
  · exact Equiv.swap_apply_of_ne_of_ne (fun h => (hcontextual _ hi).1 (congrArg text h))
      fun h => (hcontextual _ hi).2 (congrArg text h)
  · have hname := isName_text ht (beq_iff_eq.mp hid)
    exact ⟨⟨t.text, hname⟩, rfl, (if_pos hid).trans (renamed_text ⟨t.text, hname⟩)⟩
  · refine List.pairwise_map.mpr (hplaced.inOrder.imp_of_mem fun {t u} ht _ hle => ?_)
    have hspan := hplaced.span t ht
    have hlen := (hroom t ht).2
    show 10 * t.start + _ ≤ 10 * u.start
    change List.length (if _ then _ else _) ≤ _ at hlen
    omega
  · obtain ⟨u, -, rfl⟩ := List.mem_map.mp ht
    rfl
  · obtain ⟨u, hu, rfl⟩ := List.mem_map.mp ht
    exact (hroom u hu).1

end Identifier

end HouseStyle
