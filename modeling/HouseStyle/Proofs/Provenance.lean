import HouseStyle.Proofs.Cutting
import HouseStyle.Proofs.InOrder
import HouseStyle.Proofs.Recording

/-!
# Where entities come from

Every entity has a token of the code that is its name, and no two have the same one; only a macro is
declared in a directive. A class or an enumeration is as its head says, which was read behind its
keyword, and only functions have names that are not free. The step lemma `declares_of_takes` says this of
what one state of reading has more than another one, and `exists_entities_extract` of the model of a file. What
has not been understood goes from token to token as well (`anomalies_of_takes`).
-/

namespace HouseStyle

open List (Sublist)
open scoped List

/-- The name of an entity is its token. Only a destructor is shown with its tilde, and an operator by
the word `operator` with its symbol. -/
def Entity.Named (e : Entity) : Prop :=
  (e.token.isIdentifier = true ∧
      (e.name = e.token.text ∨ e.isSpecial = true ∧ e.name = .scalar '~' :: e.token.text)) ∨
    (e.token.isKeyword .operatorKw = true ∧ e.isSpecial = true ∧
      ∃ symbol, e.name = Text.ofString "operator" ++ symbol)

/-- Unless it is special, an entity has the name of its token. -/
theorem Entity.Named.eq_text {e : Entity} (h : e.Named) (hspecial : e.isSpecial = false) :
    e.token.kind = .identifier ∧ e.name = e.token.text := by
  rcases h with ⟨hid, h | ⟨h, -⟩⟩ | ⟨-, h, -⟩
  · exact ⟨by simpa [Token.isIdentifier] using hid, h⟩
  all_goals exact absurd h (by rw [hspecial]; decide)

/-- The entity of a class or an enumeration is scoped or not and is named as its head says, which was read
behind its keyword. -/
def Entity.HasHead (code : List Token) (e : Entity) (keyword : Token) : Prop :=
  ∃ head, Extraction.HeadAt code keyword head ∧ e.isScopedEnum = head.isScopedEnum ∧
    (e.kind = .enum → keyword.isKeyword .enumKw = true) ∧ head.name = some e.token

/-- The keyword of a type is a keyword of the code. -/
theorem Entity.HasHead.mem {code : List Token} {e : Entity} {keyword : Token}
    (h : e.HasHead code keyword) : keyword ∈ code ∧ ∃ k, keyword.kind = .keyword k := by
  obtain ⟨head, hhead, -⟩ := h
  obtain ⟨rest, hrest, -⟩ := hhead.read
  exact ⟨hrest.subset List.mem_cons_self, hhead.isKeyword⟩

/-- An entity that the code declares: it is no macro, and only a function has a name that is not free. -/
structure Entity.OfCode (code : List Token) (e : Entity) : Prop where
  named : e.Named
  keyword : ∀ keyword, e.keyword = some keyword → e.HasHead code keyword
  kind : e.kind ≠ .macro_
  function : e.isSpecial = true → e.kind = .function ∨ e.kind = .method

/-- Without a keyword and under the name of its token there is little to say of an entity. -/
theorem Entity.OfCode.of_identifier {code : List Token} {e : Entity} (hid : e.token.isIdentifier = true)
    (hname : e.name = e.token.text) (hkeyword : e.keyword = none) (hspecial : e.isSpecial = false)
    (hkind : e.kind ≠ .macro_) : e.OfCode code :=
  ⟨Or.inl ⟨hid, Or.inl hname⟩, fun _ h => absurd h (by simp [hkeyword]), hkind,
    fun h => absurd h (by simp [hspecial])⟩

/-- Entities that have been declared by some tokens of the code, no two by the same one. -/
structure Declares (code ts : List Token) (es : List Entity) : Prop where
  tokens : ∃ names, names.Perm (es.map (·.token)) ∧ names <+ ts
  ofCode : ∀ e ∈ es, e.OfCode code

namespace Declares

variable {code ts us : List Token} {es fs : List Entity}

theorem nil (ts : List Token) : Declares code ts [] :=
  ⟨⟨[], .nil, List.nil_sublist ts⟩, by simp⟩

theorem append (hes : Declares code ts es) (hfs : Declares code us fs) : Declares code (ts ++ us) (es ++ fs) := by
  obtain ⟨⟨names, hnames, hts⟩, hofCode⟩ := hes
  obtain ⟨⟨names', hnames', hus⟩, hofCode'⟩ := hfs
  refine ⟨⟨names ++ names', ?_, hts.append hus⟩, List.forall_mem_append.mpr ⟨hofCode, hofCode'⟩⟩
  rw [List.map_append]
  exact hnames.append hnames'

theorem within (h : Declares code ts es) (hts : ts <+ us) : Declares code us es := by
  obtain ⟨⟨names, hnames, hnamesTs⟩, hofCode⟩ := h
  exact ⟨⟨names, hnames, hnamesTs.trans hts⟩, hofCode⟩

theorem perm (h : Declares code ts es) (hes : es.Perm fs) : Declares code ts fs := by
  obtain ⟨⟨names, hnames, hts⟩, hofCode⟩ := h
  exact ⟨⟨names, hnames.trans (hes.map _), hts⟩, fun e he => hofCode e (hes.mem_iff.mpr he)⟩

/-- A single entity. -/
theorem single {e : Entity} {t : Token} (htoken : e.token = t) (hofCode : e.OfCode code) :
    Declares code [t] [e] := by
  subst htoken
  exact ⟨⟨[e.token], .refl _, Sublist.refl _⟩, by simpa using hofCode⟩

theorem token_mem (h : Declares code ts es) {e : Entity} (he : e ∈ es) : e.token ∈ ts := by
  obtain ⟨⟨names, hnames, hts⟩, -⟩ := h
  exact hts.subset (hnames.mem_iff.mpr (List.mem_map_of_mem he))

end Declares

theorem Text.eq_append_of_dropLead {lead t rest : Text} (h : Text.dropLead? lead t = some rest) :
    t = lead ++ rest := by
  induction lead generalizing t with
  | nil => exact Option.some.inj h
  | cons a lead ih =>
    cases t with
    | nil => exact absurd h (by simp [Text.dropLead?])
    | cons b t =>
      unfold Text.dropLead? at h
      split at h
      next hab => rw [hab, ih h, List.cons_append]
      next => exact absurd h (by simp)

namespace Extraction

variable {code : List Token}

/-- The parameters of a function are declared in its parameter list. -/
theorem declares_parameters (index : Nat) (inside : List Token) :
    Declares code inside (parameterEntities index (Parameter.readAll inside)) := by
  obtain ⟨hnames, hid⟩ := Parameter.names_readAll_sublist inside
  refine ⟨⟨_, ?_, hnames⟩, fun e he => ?_⟩
  · refine .of_eq ?_
    unfold parameterEntities
    rw [List.map_filterMap]
    congr
    funext p
    cases p.name <;> rfl
  · obtain ⟨p, hp, he⟩ := List.mem_filterMap.mp he
    obtain ⟨name, hname, rfl⟩ := Option.map_eq_some_iff.mp he
    exact .of_identifier (hid p hp name hname) rfl rfl rfl (by simp)

theorem parameterTokens_sublist (f : FunctionHead) : parameterTokens f <+ f.afterOpener := by
  unfold parameterTokens
  cases h : parenthesised? f.afterOpener with
  | none => exact Sublist.refl _
  | some e =>
    rw [enclosed?_append h]
    exact List.sublist_append_left _ _

theorem functionKind_cases (x : Extraction) (qualifier : List Text) :
    x.functionKind qualifier = .function ∨ x.functionKind qualifier = .method := by
  unfold functionKind
  split
  · exact Or.inr rfl
  · split
    · exact Or.inl rfl
    · split
      · exact Or.inl rfl
      · exact Or.inr rfl

theorem ofCode_functionEntity {x : Extraction} {f : FunctionHead} (hnamed : f.Named) (hasBody : Bool) :
    (functionEntity x f hasBody).OfCode code := by
  have hkind := functionKind_cases x f.qualifier
  refine ⟨?_, fun _ h => absurd h (by simp [functionEntity]), ?_, fun _ => hkind⟩
  · rcases hnamed with ⟨hid, h | ⟨hspecial, h⟩⟩ | ⟨hword, hspecial, hsymbol⟩
    · exact Or.inl ⟨hid, Or.inl h⟩
    · exact Or.inl ⟨hid, Or.inr ⟨hspecial, h⟩⟩
    · exact Or.inr ⟨hword, hspecial, hsymbol⟩
  · show x.functionKind f.qualifier ≠ .macro_
    rcases hkind with h | h <;> rw [h] <;> decide

/-- A class or an enumeration is declared by its keyword and its name. -/
theorem declares_type {x : Extraction} {keyword : Token} {head : TypeHead} {bodyScope : Option Nat}
    (hhead : HeadAt code keyword head) :
    Declares code (keyword :: head.name.toList) (x.typeEntity? keyword head bodyScope).toList := by
  unfold typeEntity?
  split
  · exact .nil _
  · cases hname : head.name with
    | none => exact .nil _
    | some name =>
      refine ⟨⟨[name], .refl _, List.sublist_cons_self keyword [name]⟩, fun e he => ?_⟩
      obtain rfl := List.mem_singleton.mp he
      refine ⟨Or.inl ⟨hhead.isIdentifier name hname, Or.inl rfl⟩, fun keyword' hk => ?_, ?_,
        fun h => absurd h (by simp)⟩
      · obtain rfl := Option.some.inj hk
        refine ⟨head, hhead, rfl, fun hkind => ?_, hname⟩
        dsimp only at hkind
        split at hkind
        · assumption
        · split at hkind <;> exact absurd hkind (by simp)
      · dsimp only
        split
        · decide
        · split <;> decide

theorem declares_openNamespaces {x : Extraction} {names : List Token} {chained : Bool} {start : Nat}
    (hid : ∀ t ∈ names, t.isIdentifier = true) :
    ∃ es, (x.openNamespaces chained start names).entities.toList = x.entities.toList ++ es ∧
      Declares code names es := by
  induction names generalizing x chained with
  | nil => exact ⟨[], (List.append_nil _).symm, .nil []⟩
  | cons name names ih =>
    rw [List.forall_mem_cons] at hid
    obtain ⟨namespaceNames, hcons⟩ := openNamespaces_cons x chained start name names
    obtain ⟨es, hes, hdeclares⟩ := ih hid.2
    rw [hcons, hes, Array.toList_push, List.append_assoc]
    have hname : Declares code [name]
        [{ kind := .namespace_, name := name.text, token := name, scope := x.currentIndex }] :=
      .single rfl (.of_identifier hid.1 rfl rfl rfl (by simp))
    exact ⟨_, rfl, hname.append hdeclares⟩

theorem anomalies_openNamespaces (x : Extraction) (chained : Bool) (start : Nat) (names : List Token) :
    (x.openNamespaces chained start names).anomalies = x.anomalies := by
  induction names generalizing x chained with
  | nil => rfl
  | cons name names ih =>
    obtain ⟨namespaceNames, hcons⟩ := openNamespaces_cons x chained start name names
    rw [hcons, ih]

/-- What a state of reading has more than an earlier one has been declared by the tokens between. -/
theorem declares_of_takes {ts : List Token} {x y : Extraction} (h : Takes code ts x y) :
    ∃ es, y.entities.toList = x.entities.toList ++ es ∧ Declares code ts es := by
  have same : ∀ {ts : List Token} {x : Extraction},
      ∃ es, x.entities.toList = x.entities.toList ++ es ∧ Declares code ts es := fun {ts x} =>
    ⟨[], (List.append_nil _).symm, .nil ts⟩
  induction h with
  | note => exact same
  | anomaly => exact same
  | @declare x e t htoken hid hname _ _ hkeyword _ hspecial hkind =>
    subst htoken
    exact ⟨[e], entities_add x e, .single rfl (.of_identifier hid hname hkeyword hspecial hkind)⟩
  | @declareType x keyword head hhead =>
    exact ⟨_, entities_addType x keyword head none, declares_type hhead⟩
  | @function x f hasBody hnamed =>
    -- the parameters stand behind the name of the function, but come up before it
    have hfunction : Declares code [f.name] [functionEntity x f hasBody] :=
      .single rfl (ofCode_functionEntity hnamed hasBody)
    have hparameters : Declares code (f.opener :: f.afterOpener)
        (parameterEntities x.scopes.size (Parameter.readAll (parameterTokens f))) :=
      (declares_parameters x.scopes.size (parameterTokens f)).within
        ((parameterTokens_sublist f).trans (List.sublist_cons_self f.opener _))
    refine ⟨_, ?_, (hfunction.append hparameters).perm List.perm_append_comm⟩
    rw [entities_addFunction, List.append_assoc]
  | @opensType x keyword head inTypedef hhead hbrace =>
    exact ⟨_, entities_openType x inTypedef keyword head,
      (declares_type hhead).within (List.sublist_append_left _ _)⟩
  | opens => exact same
  | opensNamespaces hid hbrace =>
    obtain ⟨es, hes, hdeclares⟩ := declares_openNamespaces hid
    exact ⟨es, hes, hdeclares.within (List.sublist_append_left _ _)⟩
  | closes hbrace hleave =>
    obtain ⟨left, kept, -, -, rfl⟩ := leave_eq hleave
    exact same
  | append _ _ ihxy ihyz =>
    obtain ⟨es, hes, hts⟩ := ihxy
    obtain ⟨fs, hfs, hus⟩ := ihyz
    exact ⟨es ++ fs, by rw [hfs, hes, List.append_assoc], hts.append hus⟩
  | within _ hts ih =>
    obtain ⟨es, hes, hdeclares⟩ := ih
    exact ⟨es, hes, hdeclares.within hts⟩

/-- What is not understood between two states of reading goes from one of the tokens between them to the same or
a later one. -/
theorem anomalies_of_takes {ts : List Token} {x y : Extraction} (h : Takes code ts x y) :
    ∃ as, y.anomalies.toList = x.anomalies.toList ++ as ∧
      ∀ a ∈ as, a.1 = a.2 ∧ a.1 ∈ ts ∨ [a.1, a.2] <+ ts := by
  have same : ∀ {ts : List Token} {x y : Extraction}, y.anomalies = x.anomalies →
      ∃ as, y.anomalies.toList = x.anomalies.toList ++ as ∧
        ∀ a ∈ as, a.1 = a.2 ∧ a.1 ∈ ts ∨ [a.1, a.2] <+ ts := fun {ts x y} h =>
    ⟨[], by rw [h, List.append_nil], by simp⟩
  induction h with
  | note => exact same rfl
  | @anomaly x ts first last hfirst hlast =>
    -- the first and the last of the tokens, which may be one
    refine ⟨[(first, last)], Array.toList_push, fun a ha => ?_⟩
    rw [List.mem_singleton.mp ha]
    cases ts with
    | nil => exact absurd hfirst (by simp)
    | cons t ts =>
      obtain rfl := Option.some.inj hfirst
      cases ts with
      | nil => exact Or.inl ⟨Option.some.inj hlast, List.mem_cons_self⟩
      | cons u us =>
        rw [List.getLast?_cons_cons] at hlast
        exact Or.inr (List.cons_sublist_cons.mpr
          (List.singleton_sublist.mpr (List.mem_of_getLast? hlast)))
  | declare => exact same rfl
  | @declareType x keyword head _ => exact same (by rw [addType_eq])
  | @function x f hasBody _ => exact same (by rw [addFunction_eq])
  | @opensType x keyword head inTypedef _ _ =>
    obtain ⟨_, hopen⟩ := openType_eq x inTypedef keyword head
    exact same (by rw [hopen])
  | opens => exact same rfl
  | @opensNamespaces x names brace _ _ => exact same (anomalies_openNamespaces x false brace.start names)
  | closes _ hleave =>
    obtain ⟨_, _, -, -, rfl⟩ := leave_eq hleave
    exact same rfl
  | append _ _ ihxy ihyz =>
    obtain ⟨as, has, hts⟩ := ihxy
    obtain ⟨bs, hbs, hus⟩ := ihyz
    refine ⟨as ++ bs, by rw [hbs, has, List.append_assoc],
      List.forall_mem_append.mpr ⟨fun a ha => ?_, fun a ha => ?_⟩⟩
    · exact (hts a ha).imp (And.imp_right (List.mem_append_left _)) (·.trans (List.sublist_append_left _ _))
    · exact (hus a ha).imp (And.imp_right (List.mem_append_right _)) (·.trans (List.sublist_append_right _ _))
  | within _ hts ih =>
    obtain ⟨as, has, hin⟩ := ih
    exact ⟨as, has, fun a ha => (hin a ha).imp (And.imp_right (hts.subset ·)) (·.trans hts)⟩

/-! ## Macros -/

/-- A macro that a directive defines: its token is the part of the directive that is its name. -/
structure IsMacroOf (e : Entity) (directive : Token) : Prop where
  kind : e.kind = .macro_
  scope : e.scope = 0
  keyword : e.keyword = none
  bodyScope : e.bodyScope = none
  isSpecial : e.isSpecial = false
  qualifier : e.qualifier = []
  text : e.token.text = e.name
  defined : ∃ lead, definedName? directive.text = some (lead, e.name) ∧
    e.token.start = directive.start + lead.length ∧ e.token.stop = e.token.start + e.name.length

/-- A directive that defines a macro has its name in it. -/
theorem definedName_append {directive lead name : Text} (h : definedName? directive = some (lead, name)) :
    ∃ more, directive = lead ++ name ++ more := by
  unfold definedName? at h
  dsimp only at h
  split at h
  · next rest =>
    split at h
    · exact absurd h (by simp)
    · next after hafter =>
      split at h
      · obtain ⟨rfl, rfl⟩ := Prod.mk.inj (Option.some.inj h)
        have hnamed : after.dropWhile (Glyph.satisfies Blank.isBlank) <:+ .scalar '#' :: rest := by
          have hbehind : after <:+ rest.dropWhile (Glyph.satisfies Blank.isBlank) := by
            rw [Text.eq_append_of_dropLead hafter]
            exact List.suffix_append _ _
          exact (List.dropWhile_suffix _).trans (hbehind.trans
            ((List.dropWhile_suffix _).trans (List.suffix_cons _ _)))
        obtain ⟨front, hfront⟩ := hnamed
        generalize after.dropWhile (Glyph.satisfies Blank.isBlank) = named at *
        refine ⟨named.dropWhile (Glyph.satisfies fun c => c.isAlphanum || c == '_'), ?_⟩
        rw [← hfront, List.length_append, Nat.add_sub_cancel, List.take_left, List.append_assoc,
          List.takeWhile_append_dropWhile]
      · exact absurd h (by simp)
  · exact absurd h (by simp)

/-- The macro that a directive defines. -/
def macro? (directive : Token) : Option Entity :=
  (definedName? directive.text).map fun (lead, name) =>
    let p := Place.past ⟨directive.start, directive.line, directive.column⟩ lead
    { kind := .macro_, name, token := Piece.tokenAt p .identifier name, scope := 0 }

theorem addMacro_eq (x : Extraction) (directive : Token) :
    x.addMacro directive = (macro? directive).elim x x.add := by
  unfold addMacro macro?
  cases definedName? directive.text <;> rfl

theorem isMacroOf_of_eq_some {directive : Token} {e : Entity} (h : macro? directive = some e) :
    IsMacroOf e directive := by
  obtain ⟨⟨lead, name⟩, hdefined, rfl⟩ := Option.map_eq_some_iff.mp h
  exact ⟨rfl, rfl, rfl, rfl, rfl, rfl, rfl, lead, hdefined, Piece.offset_past _ lead, Piece.offset_past _ name⟩

/-- Recording macros adds those of the directives. -/
theorem foldl_addMacro_eq (directives : List Token) (x : Extraction) :
    (directives.foldl (·.addMacro ·) x).entities.toList =
        x.entities.toList ++ directives.filterMap macro? ∧
      (directives.foldl (·.addMacro ·) x).scopes = x.scopes := by
  induction directives generalizing x with
  | nil => exact ⟨(List.append_nil _).symm, rfl⟩
  | cons directive directives ih =>
    obtain ⟨hentities, hscopes⟩ := ih (x.addMacro directive)
    rw [List.foldl_cons, hentities, hscopes, addMacro_eq, List.filterMap_cons]
    cases macro? directive with
    | none => exact ⟨rfl, rfl⟩
    | some e => exact ⟨by simp, rfl⟩

/-- Where the code of a file ends. -/
def codeEnd (tokens : List Token) : Nat := ((Token.code tokens).getLast?.map (·.stop)).getD 0

/-- What is read of a file without its directives. -/
def readCode (tokens : List Token) : Extraction :=
  (initial (codeEnd tokens)).run (Token.code tokens)

/-- What is read of a file, as entities and scopes. -/
theorem ofTokens_eq (tokens : List Token) :
    (ofTokens tokens).entities.toList =
        (readCode tokens).entities.toList ++ (tokens.filter (·.isDirective)).filterMap macro? ∧
      (ofTokens tokens).scopes = ((readCode tokens).endOpened (codeEnd tokens)).scopes := by
  obtain ⟨hentities, hscopes⟩ := foldl_addMacro_eq (tokens.filter (·.isDirective))
    ((readCode tokens).endOpened (codeEnd tokens))
  have hsame : ((readCode tokens).endOpened (codeEnd tokens)).entities = (readCode tokens).entities := by
    rw [endOpened_eq]
  rw [hsame] at hentities
  exact ⟨hentities, hscopes⟩

/-- What is read of a file is what is read of its code, with the open scopes ended, and the macros of
its directives. -/
theorem ofTokens_eq_readCode (tokens : List Token) :
    ∃ macros, (ofTokens tokens).entities.toList = (readCode tokens).entities.toList ++ macros ∧
      (ofTokens tokens).scopes = ((readCode tokens).endOpened (codeEnd tokens)).scopes ∧
      ∀ e ∈ macros, ∃ directive ∈ tokens, directive.isDirective = true ∧ IsMacroOf e directive := by
  obtain ⟨hentities, hscopes⟩ := ofTokens_eq tokens
  refine ⟨_, hentities, hscopes, fun e he => ?_⟩
  obtain ⟨directive, hdirective, hmacro⟩ := List.mem_filterMap.mp he
  obtain ⟨hmem, hkind⟩ := List.mem_filter.mp hdirective
  exact ⟨directive, hmem, hkind, isMacroOf_of_eq_some hmacro⟩

end Extraction

/-- The entities of a file are those that its code declares and the macros of its directives. -/
theorem exists_entities_extract (tokens : List Token) :
    ∃ declared, (extract tokens).entities.Perm
        (declared ++ (tokens.filter (·.isDirective)).filterMap Extraction.macro?) ∧
      Declares (Token.code tokens) (Token.code tokens) declared := by
  obtain ⟨declared, hdeclared, hdeclares⟩ := Extraction.declares_of_takes
    (Extraction.takes_run (.initial (Extraction.codeEnd tokens)) List.suffix_rfl)
  refine ⟨declared, ?_, hdeclares⟩
  rw [extract_eq]
  refine (List.mergeSort_perm _ _).trans (.of_eq ?_)
  rw [(Extraction.ofTokens_eq tokens).1, Extraction.readCode, hdeclared]
  rfl

/-- An entity is declared by a token of the code, or it is a macro. -/
theorem entity_cases {tokens : List Token} {e : Entity} (he : e ∈ (extract tokens).entities) :
    (e.token ∈ Token.code tokens ∧ e.OfCode (Token.code tokens)) ∨
      ∃ directive ∈ tokens, directive.isDirective = true ∧ Extraction.IsMacroOf e directive := by
  obtain ⟨declared, hperm, hdeclares⟩ := exists_entities_extract tokens
  rcases List.mem_append.mp (hperm.mem_iff.mp he) with he | he
  · exact Or.inl ⟨hdeclares.token_mem he, hdeclares.ofCode e he⟩
  · obtain ⟨directive, hdirective, hmacro⟩ := List.mem_filterMap.mp he
    obtain ⟨hmem, hkind⟩ := List.mem_filter.mp hdirective
    exact Or.inr ⟨directive, hmem, hkind, Extraction.isMacroOf_of_eq_some hmacro⟩

end HouseStyle
