import HouseStyle.Proofs.CoreHeads
import HouseStyle.Proofs.ScopeTree
import Mathlib.Data.List.Nodup

/-!
# What is extracted from a core program

Reading goes through the tokens of a program statement by statement. Each declaration of the grammar is
read up to its end, whatever follows it, all the scopes that it opens are left again (`Reads`), and what it
declares is recorded. So declarations may stand one behind the other and in braces, and the whole program
is read by induction on its tree (`reads_items`). Only the order of what is recorded is another one, since
the name of a function comes behind its parameters. Sorting by offsets gives the order of the program back.

- `ReadsIn.append`, `OpensIn.braced`: how declarations are put together.
- `reads_items`: declarations, by induction on their tree.
- `extract_program`: a whole program, in any layout.
-/

namespace HouseStyle

/-- What an entity declares, and where. -/
def Entity.mark (e : Entity) : Core.Mark := (e.kind, e.name, e.token)

/-- What has been declared so far. -/
def Extraction.marks (x : Extraction) : List Core.Mark := x.entities.toList.map Entity.mark

namespace Core

open Extraction

/-! ## What reading does to the scopes -/

/-- The kinds of scopes that a region is. -/
def Region.Fits : Region → ScopeKind → Prop
  | .outer, k => k = .file ∨ k = .namespace_
  | .class_, k => k = .class_
  | .body, k => k = .function ∨ k = .block

/-- Reading stands in a scope of such a kind. -/
def Stands (fits : ScopeKind → Prop) (x : Extraction) : Prop :=
  ∃ s, x.scopes[x.currentIndex]? = some s ∧ fits s.kind

/-- From one state to another these marks are recorded, and all scopes that are opened are left again. -/
structure Reads (x y : Extraction) (marks : List Mark) : Prop where
  scopes : Grows x.scopes y.scopes
  opened : y.opened = x.opened
  /-- Parameters are recorded in front of their function. -/
  marks : y.marks.Perm (x.marks ++ marks)
  anomalies : y.anomalies = x.anomalies

/-- From one state to the next these marks are recorded, and a scope is entered. -/
structure Opens (x y : Extraction) (kind : ScopeKind) (marks : List Mark) : Prop where
  scopes : ∃ new, y.scopes = x.scopes.push new ∧ new.kind = kind ∧ new.chained = false
  opened : y.opened = x.scopes.size :: x.opened
  marks : y.marks.Perm (x.marks ++ marks)
  anomalies : y.anomalies = x.anomalies

variable {region : Region} {fits inner : ScopeKind → Prop} {kind : ScopeKind} {x y z : Extraction}
  {marks more : List Mark} {front back inside : List Symbol} {t : Token} {rest : List Token}

theorem Stands.current (h : Stands fits x) : fits x.current.kind := by
  obtain ⟨s, hs, hfits⟩ := h
  have hcurrent : x.current = s := by
    unfold Extraction.current
    rw [Array.getD_eq_getD_getElem?, hs, Option.getD_some]
  rwa [hcurrent]

namespace Region.Fits

theorem ne_enum (h : region.Fits kind) : (kind == .enum) = false := by
  refine beq_eq_false_iff_ne.mpr ?_
  rintro rfl
  cases region <;> simp [Region.Fits] at h

/-- Functions are declared outside of functions. -/
theorem isLocal_eq_false (hregion : region ≠ .body) (h : region.Fits kind) : kind.isLocal = false := by
  cases region with
  | outer => rcases h with rfl | rfl <;> rfl
  | class_ => obtain rfl := h; rfl
  | body => exact absurd rfl hregion

end Region.Fits

namespace Reads

theorem refl (x : Extraction) : Reads x x [] := ⟨.refl _, rfl, by simp, rfl⟩

theorem trans (h : Reads x y marks) (h' : Reads y z more) : Reads x z (marks ++ more) := by
  refine ⟨h.scopes.trans h'.scopes, h'.opened.trans h.opened, ?_, h'.anomalies.trans h.anomalies⟩
  rw [← List.append_assoc]
  exact h'.marks.trans (h.marks.append_right more)

theorem stands (h : Reads x y marks) (hx : Stands fits x) : Stands fits y := by
  obtain ⟨s, hs, hfits⟩ := hx
  obtain ⟨stop, hs'⟩ := h.scopes _ s hs
  refine ⟨{ s with stop }, ?_, hfits⟩
  rwa [currentIndex, h.opened]

/-- An entity is recorded. -/
theorem add (x : Extraction) (e : Entity) : Reads x (x.add e) [e.mark] := by
  refine ⟨.refl _, rfl, ?_, rfl⟩
  rw [Extraction.marks, entities_add, List.map_append]
  rfl

end Reads

theorem Opens.stands (h : Opens x y kind marks) (hfits : fits kind) : Stands fits y := by
  obtain ⟨new, hscopes, rfl, -⟩ := h.scopes
  refine ⟨new, ?_, hfits⟩
  rw [currentIndex, h.opened, hscopes]
  exact Array.getElem?_push_size

/-- What may stand behind the brace that closes a scope: behind a class or an enumeration a semicolon. -/
def Ends (kind : ScopeKind) (rest : List Token) : Prop :=
  kind = .class_ ∨ kind = .enum → ∃ t more, rest = t :: more ∧ t.kind = .punct .semicolon

/-- A closing brace leaves the scope that has been entered last. -/
theorem closeScope_of_opens (hopens : Opens x y kind marks) (hreads : Reads y z more) (brace : Token)
    (hrest : Ends kind rest) : ∃ w, z.closeScope brace rest = (w, rest) ∧ Reads x w (marks ++ more) := by
  obtain ⟨new, hscopes, hkind, hchained⟩ := hopens.scopes
  have hopened : z.opened = x.scopes.size :: x.opened := hreads.opened.trans hopens.opened
  have hnew : y.scopes[x.scopes.size]? = some new := by
    rw [hscopes]
    exact Array.getElem?_push_size
  -- what has been read inside may have ended other scopes, but changed nothing else of this one
  obtain ⟨stop, hclosed⟩ := hreads.scopes _ new hnew
  set w : Extraction :=
    { z with scopes := endScopes z.scopes [x.scopes.size] brace.stop, opened := x.opened } with hw
  have hleave : z.leave brace.stop = some ({ new with stop }, w) := by
    rw [Extraction.leave, hopened, Extraction.leave.go]
    dsimp only
    rw [Array.getD_eq_getD_getElem?, hclosed, Option.getD_some, hchained]
    rfl
  have hclose : z.closeScope brace rest = (w, rest) := by
    rw [closeScope, hleave]
    dsimp only
    split
    · next h =>
      rw [hkind, Bool.or_eq_true, beq_iff_eq, beq_iff_eq] at h
      obtain ⟨t, _, rfl, ht⟩ := hrest h
      rw [trailingDeclarators, if_pos (by simp [Token.isIdentifier, Token.isOneOf, ht])]
    · rfl
  refine ⟨w, hclose, ?_, rfl, ?_, hreads.anomalies.trans hopens.anomalies⟩
  · have hpush : Grows x.scopes y.scopes := hscopes ▸ grows_push x.scopes new
    exact (hpush.trans hreads.scopes).trans (grows_endScopes z.scopes [x.scopes.size] brace.stop)
  · rw [← List.append_assoc]
    exact hreads.marks.trans (hopens.marks.append_right more)

/-! ## How declarations are put together -/

/-- Wherever reading stands in such a scope, tokens that spell these symbols are read up to their end if
this follows them, and what they declare is recorded. -/
def ReadsIn (fits : ScopeKind → Prop) (symbols : List Symbol) (rest : List Token) : Prop :=
  ∀ x, Stands fits x → ∀ ts, Spells ts symbols →
    ∃ y, Reaches x (ts ++ rest) y rest ∧ Reads x y (declared symbols ts)

/-- Wherever reading stands in such a scope, a brace behind tokens that spell these symbols enters a scope,
and what they declare is recorded. -/
def OpensIn (fits : ScopeKind → Prop) (kind : ScopeKind) (front : List Symbol) : Prop :=
  ∀ x, Stands fits x → ∀ ts, Spells ts front → ∀ brace : Token, brace.kind = .punct .lbrace → ∀ rest,
    ∃ y, Reaches x (ts ++ brace :: rest) y rest ∧ Opens x y kind (declared front ts)

theorem reaches_semicolon (x : Extraction) (ht : t.kind = .punct .semicolon) (rest : List Token) :
    Reaches x (t :: rest) x rest :=
  .of_statement (by rw [Extraction.statement, ht])

/-- Outside of enumerations a keyword is read as one. -/
theorem statement_keyword (hx : Stands region.Fits x) {k : Keyword} (ht : t.kind = .keyword k)
    (rest : List Token) : x.statement t rest = x.keywordStatement k t rest := by
  unfold Extraction.statement
  rw [ht]
  dsimp only
  rw [hx.current.ne_enum, if_neg (by decide)]

theorem ReadsIn.nil (fits : ScopeKind → Prop) (rest : List Token) : ReadsIn fits [] rest := by
  intro x _ ts h
  obtain rfl := spells_nil_iff.mp h
  exact ⟨x, .refl, .refl x⟩

/-- Declarations may stand one behind the other. -/
theorem ReadsIn.append (hfront : ∀ rest, ReadsIn fits front rest) (hback : ReadsIn fits back rest) :
    ReadsIn fits (front ++ back) rest := by
  intro x hx ts h
  obtain ⟨us, vs, rfl, hus, hvs⟩ := spells_append_iff.mp h
  obtain ⟨y, hy, hreads⟩ := hfront (vs ++ rest) x hx us hus
  obtain ⟨z, hz, hreads'⟩ := hback y (hreads.stands hx) vs hvs
  refine ⟨z, ?_, ?_⟩
  · rw [List.append_assoc]
    exact hy.trans hz
  · rw [declared_append hus]
    exact hreads.trans hreads'

/-- Declarations may stand in braces. -/
theorem OpensIn.closed (hopens : OpensIn fits kind front)
    (hinside : ∀ t more, t.kind = .punct .rbrace → ReadsIn inner inside (t :: more)) (hkind : inner kind)
    (hrest : Ends kind rest) : ReadsIn fits (braced front inside) rest := by
  intro x hx ts h
  obtain ⟨us, _, rfl, hus, hbraced⟩ := spells_append_iff.mp h
  obtain ⟨opener, _, rfl, hopener, -, hclosed⟩ := spells_cons_iff.mp hbraced
  obtain ⟨vs, _, rfl, hvs, hlast⟩ := spells_append_iff.mp hclosed
  obtain ⟨closer, _, rfl, hcloser, -, hnil⟩ := spells_cons_iff.mp hlast
  obtain rfl := spells_nil_iff.mp hnil
  obtain ⟨y, hy, hopened⟩ := hopens x hx us hus opener hopener (vs ++ closer :: rest)
  obtain ⟨z, hz, hreads⟩ := hinside closer rest hcloser y (hopened.stands hkind) vs hvs
  obtain ⟨w, hclose, hw⟩ := closeScope_of_opens hopened hreads closer hrest
  have hstatement : z.statement closer rest = (w, rest) := by
    rw [Extraction.statement, show closer.kind = .punct .rbrace from hcloser]
    exact hclose
  refine ⟨w, ?_, ?_⟩
  · rw [List.append_assoc, List.cons_append, List.append_assoc, List.singleton_append]
    exact hy.trans (hz.trans (.of_statement hstatement))
  · rw [braced, declared_append hus, declared_sign, declared_append hvs, declared_sign, declared_nil,
      List.append_nil]
    exact hw

/-- The braces of namespaces, functions and blocks. -/
theorem OpensIn.braced (hopens : OpensIn fits kind front) (hinside : ∀ rest, ReadsIn inner inside rest)
    (hkind : inner kind) (hends : kind ≠ .class_ ∧ kind ≠ .enum) (rest : List Token) :
    ReadsIn fits (braced front inside) rest :=
  hopens.closed (fun _ _ _ => hinside _) hkind fun h => absurd h (by simpa using hends)

/-- The braces of classes and enumerations have a semicolon behind them. -/
theorem OpensIn.braced_semicolon (hopens : OpensIn fits kind front)
    (hinside : ∀ t more, t.kind = .punct .rbrace → ReadsIn inner inside (t :: more)) (hkind : inner kind)
    (rest : List Token) :
    ReadsIn fits (Core.braced front inside ++ [.sign .semicolon]) rest := by
  intro x hx ts h
  obtain ⟨us, _, rfl, hus, hlast⟩ := spells_append_iff.mp h
  obtain ⟨semicolon, _, rfl, hsemicolon, -, hnil⟩ := spells_cons_iff.mp hlast
  obtain rfl := spells_nil_iff.mp hnil
  have hends : Ends kind (semicolon :: rest) := fun _ => ⟨semicolon, rest, rfl, hsemicolon⟩
  obtain ⟨y, hy, hreads⟩ := hopens.closed hinside hkind hends x hx us hus
  refine ⟨y, ?_, ?_⟩
  · rw [List.append_assoc, List.singleton_append]
    exact hy.trans (reaches_semicolon y hsemicolon rest)
  · rw [declared_append hus, declared_sign, declared_nil, List.append_nil]
    exact hreads

/-! ## Variables and functions -/

/-- A keyword in front of the type of a declaration, or one of the type itself. -/
def Begins (k : Keyword) : Prop := k = .staticKw ∨ k = .constexprKw ∨ k = .constKw ∨ k.isTypeName = true

/-- A keyword that begins a declaration begins no other statement. -/
theorem statement_of_begins (hx : Stands region.Fits x) {k : Keyword} (ht : t.kind = .keyword k)
    (hk : Begins k) (rest : List Token) : x.statement t rest = x.declarationOrExpression (t :: rest) := by
  rw [statement_keyword hx ht]
  -- inside a function and outside it is the same, since none of these begins a statement of control flow
  rcases hk with rfl | rfl | rfl | hname
  · exact ite_self _
  · exact ite_self _
  · exact ite_self _
  · unfold Keyword.isTypeName at hname
    split at hname
    case h_16 => exact absurd hname (by decide)
    all_goals exact ite_self _

theorem begins_variable {v : VariableDecl} {head : List Token} (h : Spells head (v.symbols region)) :
    ∃ t more k, head = t :: more ∧ t.kind = .keyword k ∧ Begins k := by
  obtain ⟨front, words, stars, name, tail, rfl, hfront, htype, -⟩ := spells_variable h
  cases hstorage : v.storage with
  | nil =>
    rw [hstorage] at hfront
    obtain rfl := spells_nil_iff.mp hfront
    obtain ⟨t, more, rfl, k, hk, hword⟩ := htype.exists_cons
    exact ⟨t, _, k, rfl, hk, Or.inr (Or.inr hword)⟩
  | cons w storage =>
    rw [hstorage] at hfront
    obtain ⟨t, front, rfl, ht, -, -⟩ := spells_cons_iff.mp hfront
    refine ⟨t, _, w.keyword, rfl, ht, ?_⟩
    cases w
    · exact Or.inl rfl
    · exact Or.inr (Or.inl rfl)

theorem begins_signature {f : Signature} {head : List Token} (h : Spells head (f.symbols region)) :
    ∃ t more k, head = t :: more ∧ t.kind = .keyword k ∧ Begins k := by
  obtain ⟨words, stars, name, opener, inside, closer, rfl, htype, -⟩ := spells_signature h
  obtain ⟨t, more, rfl, k, hk, hword⟩ := htype.exists_cons
  exact ⟨t, _, k, rfl, hk, Or.inr (Or.inr hword)⟩

/-- The head of a declaration is read as one. -/
theorem reaches_declaration (hx : Stands region.Fits x) {head ts : List Token}
    (hbegins : ∃ t more k, head = t :: more ∧ t.kind = .keyword k ∧ Begins k) {result : Extraction}
    (hread : x.declarationOrExpression (head ++ ts) = (result, rest)) :
    Reaches x (head ++ ts) result rest := by
  obtain ⟨t, more, k, rfl, ht, hk⟩ := hbegins
  refine .of_statement ?_
  rw [statement_of_begins hx ht hk, ← hread]
  rfl

/-- A declaration that ends with its semicolon. -/
theorem declaration_semicolon {head ts : List Token} {d : Declaration}
    (hhead : Head.read ts = ⟨head, .semicolon, rest⟩)
    (hd : Declaration.read? x.current x.inFunction head = some d) :
    x.declarationOrExpression ts = (x.addDeclaration d false, rest) := by
  unfold declarationOrExpression
  rw [hhead]
  dsimp only
  rw [hd]

/-- A variable that is plainly named is a constant if it is `constexpr`, or constant at namespace level, or
constant and static in a class. -/
theorem variableKind_of_fits (hfits : region.Fits kind) (s : Specifiers) {d : Declarator}
    (hqualifier : d.qualifier = []) (hconfidence : d.confidence = .high) (isConst : Bool) :
    variableKind kind s d isConst =
      if s.isConstexpr = true ∨ isConst = true ∧ region = .outer ∨
        isConst = true ∧ region = .class_ ∧ s.isStatic = true then .constant else .variable_ := by
  unfold variableKind
  rw [hqualifier, hconfidence]
  cases region with
  | outer => rcases hfits with rfl | rfl <;> simp [ScopeKind.isNamespaceLevel]
  | class_ => obtain rfl := hfits; simp [ScopeKind.isNamespaceLevel]
  | body => rcases hfits with rfl | rfl <;> simp [ScopeKind.isNamespaceLevel]

/-- The kind of a variable is that of its production. -/
theorem variableKind_eq (hfits : region.Fits kind) (v : VariableDecl) {d : Declarator}
    (hqualifier : d.qualifier = []) (hconfidence : d.confidence = .high) :
    variableKind kind (noted v.storage {}) d v.type.isConstant = v.kind region := by
  rw [variableKind_of_fits hfits _ hqualifier hconfidence, noted_eq]
  simp [VariableDecl.kind]

theorem reads_variable (region : Region) (v : VariableDecl) (rest : List Token) :
    ReadsIn region.Fits (v.symbols region ++ [.sign .semicolon]) rest := by
  intro x hx ts h
  obtain ⟨head, _, rfl, hhead, hlast⟩ := spells_append_iff.mp h
  obtain ⟨semicolon, _, rfl, hsemicolon, -, hnil⟩ := spells_cons_iff.mp hlast
  obtain rfl := spells_nil_iff.mp hnil
  obtain ⟨type, d, hread, hconst, hqualifier, hconfidence, htext, hdeclared⟩ :=
    read_variable hhead x.current x.inFunction
  have hstep := declaration_semicolon (head_variable hhead hsemicolon rest) hread
  refine ⟨x.addVariables (noted v.storage {}) type [] [d], ?_, ?_⟩
  · rw [List.append_assoc]
    exact reaches_declaration hx (begins_variable hhead) hstep
  · rw [declared_append hhead, declared_sign, declared_nil, List.append_nil, hdeclared, ← htext,
      ← variableKind_eq hx.current v hqualifier hconfidence, ← hconst]
    exact Reads.add x _

/-- The parameters of a function are marked as such. -/
theorem marks_parameterEntities (index : Nat) (parameters : List Parameter) :
    (parameterEntities index parameters).map Entity.mark = parameterMarks parameters := by
  unfold parameterEntities parameterMarks
  rw [List.map_filterMap]
  refine congrArg (List.filterMap · parameters) (funext fun p => ?_)
  cases p.name <;> rfl

/-- A function without a qualifier is a method in a class only. -/
theorem functionKind_eq (hx : Stands region.Fits x) : x.functionKind [] = Signature.kind region := by
  have hcurrent := hx.current
  unfold functionKind
  cases region with
  | outer => rcases hcurrent with h | h <;> rw [h] <;> rfl
  | class_ => rw [show x.current.kind = .class_ from hcurrent]; rfl
  | body => rcases hcurrent with h | h <;> rw [h] <;> rfl

/-- A function is recorded with its parameters, after them. -/
theorem marks_addFunction (hx : Stands region.Fits x) {f : FunctionHead} (hqualifier : f.qualifier = [])
    (hasBody : Bool) :
    (x.addFunction f hasBody).marks.Perm (x.marks ++ (Signature.kind region, f.display, f.name) ::
      parameterMarks (Parameter.readAll (parameterTokens f))) := by
  have hmark : (functionEntity x f hasBody).mark = (Signature.kind region, f.display, f.name) := by
    rw [← functionKind_eq hx, ← hqualifier]
    rfl
  unfold Extraction.marks
  rw [entities_addFunction, List.map_append, List.map_append, marks_parameterEntities, List.append_assoc,
    List.map_singleton, hmark]
  exact (List.perm_append_singleton _ _).append_left _

/-- The head of a function is read as such outside of functions. -/
theorem read_signature_current (hregion : region ≠ .body) (hx : Stands region.Fits x) {f : Signature}
    {head : List Token} (h : Spells head (f.symbols region)) (hasBody : Bool) :
    ∃ fh, Declaration.read? x.current x.inFunction head = some (.function fh) ∧
      (x.addFunction fh hasBody).marks.Perm (x.marks ++ declared (f.symbols region) head) := by
  obtain ⟨fh, hread, hdisplay, hqualifier, hdeclared⟩ := read_signature h x.current
  refine ⟨fh, ?_, ?_⟩
  · rw [inFunction, hx.current.isLocal_eq_false hregion]
    exact hread
  · rw [hdeclared, ← hdisplay]
    exact marks_addFunction hx hqualifier hasBody

theorem reads_prototype (hregion : region ≠ .body) (f : Signature) (rest : List Token) :
    ReadsIn region.Fits (f.symbols region ++ [.sign .semicolon]) rest := by
  intro x hx ts h
  obtain ⟨head, _, rfl, hhead, hlast⟩ := spells_append_iff.mp h
  obtain ⟨semicolon, _, rfl, hsemicolon, -, hnil⟩ := spells_cons_iff.mp hlast
  obtain rfl := spells_nil_iff.mp hnil
  obtain ⟨fh, hread, hmarks⟩ := read_signature_current hregion hx hhead false
  have hstep := declaration_semicolon (head_prototype hhead hsemicolon rest) hread
  refine ⟨x.addFunction fh false, ?_, ?_, opened_addFunction x fh false, ?_, ?_⟩
  · rw [List.append_assoc]
    exact reaches_declaration hx (begins_signature hhead) hstep
  · rw [scopes_addFunction]
    exact grows_push _ _
  · rwa [declared_append hhead, declared_sign, declared_nil, List.append_nil]
  · rw [addFunction_eq]

theorem opens_function (f : Signature) : OpensIn Region.outer.Fits .function (f.symbols .outer) := by
  intro x hx head hhead brace hbrace rest
  obtain ⟨fh, hread, hmarks⟩ := read_signature_current (by decide) hx hhead true
  have hstep : x.declarationOrExpression (head ++ brace :: rest) = (x.addFunction fh true, rest) := by
    unfold declarationOrExpression
    rw [head_function hhead hbrace rest]
    dsimp only
    rw [hread]
  refine ⟨x.addFunction fh true, reaches_declaration hx (begins_signature hhead) hstep,
    ⟨_, scopes_addFunction x fh true, rfl, rfl⟩, opened_addFunction x fh true, hmarks, ?_⟩
  rw [addFunction_eq]

/-! ## Namespaces, classes and blocks -/

theorem isIdentifier_of_kind (h : t.kind = .identifier) : t.isIdentifier = true := beq_iff_eq.mpr h

/-- A brace where no declaration starts opens a block. -/
theorem opens_block (fits : ScopeKind → Prop) : OpensIn fits .block [] := by
  intro x _ ts h brace hbrace rest
  obtain rfl := spells_nil_iff.mp h
  refine ⟨x.openScope .block none brace.start, ?_, ⟨_, rfl, rfl, rfl⟩, rfl, ?_, rfl⟩
  · exact .of_statement (by rw [Extraction.statement, hbrace])
  · rw [declared_nil, List.append_nil]
    exact List.Perm.refl _

theorem opens_namespace (region : Region) (n : Name) :
    OpensIn region.Fits .namespace_ [.keyword .namespaceKw, .name n .namespace_] := by
  intro x hx ts h brace hbrace rest
  obtain ⟨t, _, rfl, ht, -, hnamed⟩ := spells_cons_iff.mp h
  obtain ⟨name, _, rfl, hname, htext, hnil⟩ := spells_cons_iff.mp hnamed
  obtain rfl := spells_nil_iff.mp hnil
  have hnames : namespaceNamesAt (name :: brace :: rest) = ([name], brace :: rest) := by
    have hsign : afterNamespaceSign? (brace :: rest) = none := by
      rw [afterNamespaceSign?, if_neg (by simp [Token.isPunct, hbrace])]
    rw [namespaceNamesAt, if_pos (isIdentifier_of_kind hname)]
    split
    · next h =>
      rw [hsign] at h
      exact absurd h (by simp)
    · rfl
  have hstep : x.statement t (name :: brace :: rest) = (x.openNamespaces false brace.start [name], rest) := by
    rw [statement_keyword hx ht]
    unfold keywordStatement namespaceStatement
    dsimp only
    rw [hnames]
    dsimp only
    rw [if_neg (by simp [Token.isPunct, hbrace]), if_pos (by simp [Token.isPunct, hbrace]), if_neg (by simp)]
  obtain ⟨namespaceNames, hopen⟩ := openNamespaces_cons x false brace.start name []
  refine ⟨x.openNamespaces false brace.start [name], ?_, ?_⟩
  · exact .of_statement hstep
  · rw [hopen, openNamespaces, declared_keyword, declared_name, declared_nil,
      ← show name.text = n.1 from htext]
    exact ⟨⟨_, rfl, rfl, rfl⟩, rfl, (Reads.add x
      { kind := .namespace_, name := name.text, token := name, scope := x.currentIndex }).marks, rfl⟩

/-- The head of a class or an enumeration that is a name only. -/
def nameHead (name brace : Token) (isScopedEnum : Bool) (rest : List Token) : TypeHead :=
  { name := some name, isSpecialization := false, isScopedEnum, terminator := brace, rest }

/-- The kind of what a class or an enumeration declares. -/
def typeKind (keyword : Token) : EntityKind :=
  if keyword.isKeyword .enumKw then .enum else if keyword.isKeyword .classKw then .class_ else .struct_

/-- A class or an enumeration that is named only is opened at its brace. -/
theorem reaches_type (hx : Stands region.Fits x) {k : Keyword} (ht : t.kind = .keyword k)
    (hk : k = .classKw ∨ k = .structKw ∨ k = .enumKw) {ts : List Token} {name brace : Token}
    {isScopedEnum : Bool} (hhead : typeHead? t ts = some (nameHead name brace isScopedEnum rest))
    (hbrace : brace.kind = .punct .lbrace) :
    ∃ y, Reaches x (t :: ts) y rest ∧
      Opens x y (if t.isKeyword .enumKw then .enum else .class_) [(typeKind t, name.text, name)] := by
  set head := nameHead name brace isScopedEnum rest with hhead_eq
  have hread : x.readType? false t head = some (x.openType false t head) := by
    rw [readType?, if_neg, if_pos]
    · simp [hhead_eq, nameHead, Token.isPunct, hbrace]
    · simp [hhead_eq, nameHead, Token.isPunct, hbrace]
  have htype : x.typeStatement? false t ts = some (x.openType false t head, rest) := by
    unfold typeStatement?
    rw [hhead]
    dsimp only
    rw [hread]
    rfl
  have hstep : x.statement t ts = (x.openType false t head, rest) := by
    rw [statement_keyword hx ht]
    rcases hk with rfl | rfl | rfl
    all_goals
      unfold keywordStatement
      dsimp only
      rw [htype]
      rfl
  obtain ⟨classNames, hopen⟩ := openType_eq x false t head
  refine ⟨x.openType false t head, .of_statement hstep, ?_, ?_, ?_, ?_⟩
  · rw [hopen]
    exact ⟨_, rfl, rfl, rfl⟩
  · rw [hopen]
  · rw [Extraction.marks, entities_openType, List.map_append]
    exact List.Perm.refl _
  · rw [hopen]

section

variable {name brace : Token} (hname : name.kind = .identifier) (hbrace : brace.kind = .punct .lbrace)
include hbrace

theorem finish_name (name : Token) (isScopedEnum : Bool) (rest : List Token) :
    TypeHead.finish? (some name) false isScopedEnum (brace :: rest) =
      some (nameHead name brace isScopedEnum rest) := by
  unfold TypeHead.finish? afterBases
  rw [if_neg (by simp [Token.isPunct, hbrace])]
  rfl

include hname

theorem afterSpecifiers_name (rest : List Token) :
    afterSpecifiers (name :: brace :: rest) = name :: brace :: rest := by
  have hspecifier : name.specifier? = none := by
    rw [Token.specifier?, hname]
  have hattribute : afterAttribute? (name :: brace :: rest) = none := by
    simp [afterAttribute?, Token.isPunct, hname, hbrace]
  unfold afterSpecifiers specifiers
  rw [specifiersFrom, hspecifier]
  dsimp only
  split
  · next h =>
    rw [hattribute] at h
    exact absurd h (by simp)
  · rfl

theorem classHead_name (rest : List Token) :
    classHead? (name :: brace :: rest) = some (nameHead name brace false rest) := by
  have hmacros : afterExportMacros (name :: brace :: rest) = name :: brace :: rest := by
    rw [afterExportMacros, if_neg (by simp [Token.isIdentifier, hbrace])]
  have hsegment : lastSegment name (brace :: rest) = (name, brace :: rest) := by
    cases rest with
    | nil => rfl
    | cons u rest => rw [lastSegment, if_neg (by simp [Token.isPunct, hbrace])]
  have hfinal : afterFinal (brace :: rest) = brace :: rest := by
    rw [afterFinal, if_neg (by simp [Token.isWord, hbrace])]
  unfold classHead?
  rw [afterSpecifiers_name hname hbrace, hmacros]
  dsimp only
  rw [if_pos (isIdentifier_of_kind hname), hsegment]
  dsimp only
  rw [if_neg (by simp [Token.isPunct, hbrace]), hfinal]
  exact finish_name hbrace name false rest

theorem enumHeadFrom_name (isScoped : Bool) (rest : List Token) :
    enumHeadFrom? isScoped (name :: brace :: rest) = some (nameHead name brace isScoped rest) := by
  unfold enumHeadFrom?
  rw [afterSpecifiers_name hname hbrace]
  dsimp only
  rw [if_pos (isIdentifier_of_kind hname)]
  exact finish_name hbrace name isScoped rest

/-- The word behind `enum` is passed over. -/
theorem enumHead_name {e : EnumDecl} {ts : List Token} (h : Spells ts e.scopedSymbols) (rest : List Token) :
    enumHead? (ts ++ name :: brace :: rest) = some (nameHead name brace e.isScoped rest) := by
  unfold EnumDecl.scopedSymbols at h
  unfold enumHead?
  cases hisScoped : e.isScoped with
  | false =>
    rw [hisScoped] at h
    obtain rfl := spells_nil_iff.mp h
    rw [List.nil_append, if_neg (by simp [Token.isKeyword, hname])]
    exact enumHeadFrom_name hname hbrace false rest
  | true =>
    rw [hisScoped] at h
    obtain ⟨word, _, rfl, hword, -, hnil⟩ := spells_cons_iff.mp h
    obtain rfl := spells_nil_iff.mp hnil
    rw [List.singleton_append, if_pos (by simp [Token.isKeyword, hword, Symbol.kind])]
    exact enumHeadFrom_name hname hbrace true rest

end

theorem opens_class (region : Region) (isStruct : Bool) (n : Name) :
    OpensIn region.Fits .class_ (classSymbols isStruct n) := by
  intro x hx ts h brace hbrace rest
  obtain ⟨t, _, rfl, ht, -, hnamed⟩ := spells_cons_iff.mp h
  obtain ⟨name, _, rfl, hname, htext, hnil⟩ := spells_cons_iff.mp hnamed
  obtain rfl := spells_nil_iff.mp hnil
  have hkeyword : t.kind = .keyword (if isStruct then .structKw else .classKw) := ht
  have henum : t.isKeyword .enumKw = false := by
    cases isStruct <;> simp [Token.isKeyword, hkeyword]
  have hkind : typeKind t = if isStruct then .struct_ else .class_ := by
    cases isStruct <;> simp [typeKind, Token.isKeyword, hkeyword]
  have hhead : typeHead? t (name :: brace :: rest) = some (nameHead name brace false rest) := by
    rw [typeHead?, henum, if_neg (by decide)]
    exact classHead_name hname hbrace rest
  obtain ⟨y, hopen, hopens⟩ := reaches_type hx hkeyword (by cases isStruct <;> simp) hhead hbrace
  rw [henum, if_neg (by decide), hkind] at hopens
  refine ⟨y, hopen, ?_⟩
  rwa [classSymbols, declared_keyword, declared_name, declared_nil, ← show name.text = n.1 from htext]

/-! ## Enumerations -/

theorem opens_enum (region : Region) (e : EnumDecl) : OpensIn region.Fits .enum e.headSymbols := by
  intro x hx ts h brace hbrace rest
  obtain ⟨t, _, rfl, ht, -, hscoped⟩ := spells_cons_iff.mp h
  obtain ⟨us, _, rfl, hus, hnamed⟩ := spells_append_iff.mp hscoped
  obtain ⟨name, _, rfl, hname, htext, hnil⟩ := spells_cons_iff.mp hnamed
  obtain rfl := spells_nil_iff.mp hnil
  have henum : t.isKeyword .enumKw = true := beq_iff_eq.mpr ht
  have hhead : typeHead? t (us ++ name :: brace :: rest) = some (nameHead name brace e.isScoped rest) := by
    rw [typeHead?, if_pos henum]
    exact enumHead_name hname hbrace hus rest
  have hscopedDeclared : declared e.scopedSymbols us = [] := by
    refine declared_eq_nil (fun s hs => ?_) us
    unfold EnumDecl.scopedSymbols at hs
    split at hs
    · rw [List.mem_singleton.mp hs]
      exact nofun
    · exact absurd hs (by simp)
  obtain ⟨y, hopen, hopens⟩ := reaches_type hx ht (Or.inr (Or.inr rfl)) hhead hbrace
  rw [typeKind, henum, if_pos rfl, if_pos rfl] at hopens
  refine ⟨y, ?_, ?_⟩
  · rwa [List.cons_append, List.append_assoc, List.singleton_append]
  · rwa [EnumDecl.headSymbols, declared_keyword, declared_append hus, hscopedDeclared, List.nil_append,
      declared_name, declared_nil, ← show name.text = e.name.1 from htext]

/-- An enumerator is its name. -/
theorem reaches_variant (hx : Stands (· = .enum) x) (ht : t.kind = .identifier) (rest : List Token) :
    Reaches x (t :: rest) (x.addName .enumVariant t) (afterEnumerator 0 rest) := by
  have henum : x.current.kind = .enum := hx.current
  refine .of_statement ?_
  unfold Extraction.statement enumeratorStatement
  rw [ht, henum]
  dsimp only
  rw [if_pos (by decide), if_pos (isIdentifier_of_kind ht)]

/-- Names with commas between them are read up to the brace behind the last one. -/
theorem reads_variants (n : Name) (ns : List Name) {closer : Token} (hcloser : closer.kind = .punct .rbrace)
    (rest : List Token) :
    ReadsIn (· = .enum) (.name n .enumVariant :: EnumDecl.moreVariants ns) (closer :: rest) := by
  intro x hx ts h
  obtain ⟨name, us, rfl, hname, htext, hus⟩ := spells_cons_iff.mp h
  have hadd : Reads x (x.addName .enumVariant name) [(.enumVariant, name.text, name)] := Reads.add x _
  rw [declared_name, ← show name.text = n.1 from htext]
  -- the comma belongs to the name in front of it, so what is left always starts with a name
  induction ns generalizing x n us name with
  | nil =>
    obtain rfl := spells_nil_iff.mp hus
    refine ⟨x.addName .enumVariant name, ?_, by simpa using hadd⟩
    have hafter : afterEnumerator 0 (closer :: rest) = closer :: rest := by
      rw [afterEnumerator]
      simp [Token.isOneOf, Token.isPunct, hcloser]
    have hname := reaches_variant hx hname (closer :: rest)
    rwa [hafter] at hname
  | cons m ns ih =>
    obtain ⟨comma, _, rfl, hcomma, -, hnamed⟩ := spells_cons_iff.mp hus
    obtain ⟨next, vs, rfl, hnext, hnextText, hvs⟩ := spells_cons_iff.mp hnamed
    obtain ⟨y, hy, hreads⟩ := ih m _ (hadd.stands hx) next vs hnamed hnext hnextText hvs (Reads.add _ _)
    have hafter : afterEnumerator 0 (comma :: next :: (vs ++ closer :: rest)) =
        next :: (vs ++ closer :: rest) := by
      rw [afterEnumerator]
      simp [Token.isOneOf, Token.isPunct, hcomma, Symbol.kind, Sign.punct]
    refine ⟨y, ?_, ?_⟩
    · have hname := reaches_variant hx hname (comma :: next :: (vs ++ closer :: rest))
      rw [hafter] at hname
      exact hname.trans hy
    · rw [hnextText] at hreads
      exact hadd.trans hreads

/-! ## Programs -/

/-- Declarations are read up to their end, whatever follows them, and what they declare is recorded. -/
theorem reads_items (items : Items region) (rest : List Token) : ReadsIn region.Fits items.symbols rest := by
  induction items generalizing rest with
  | nil => exact .nil _ rest
  | @variable_ region v _ ih => exact .append (reads_variable region v) (ih rest)
  | prototype hregion f _ ih => exact .append (reads_prototype hregion f) (ih rest)
  | function f _ _ ihBody ih =>
    exact .append ((opens_function f).braced ihBody (Or.inl rfl) (by decide)) (ih rest)
  | namespace_ name _ _ ihInner ih =>
    exact .append ((opens_namespace .outer name).braced ihInner (Or.inr rfl) (by decide)) (ih rest)
  | @class_ region _ isStruct name _ _ ihMembers ih =>
    have hclass := (opens_class region isStruct name).braced_semicolon
      (fun t more _ => ihMembers (t :: more)) rfl
    exact .append hclass (ih rest)
  | @enum region _ e _ ih =>
    have henum := (opens_enum region e).braced_semicolon
      (fun _ more ht => reads_variants e.first e.more ht more) rfl
    exact .append henum (ih rest)
  | block _ _ ihInner ih =>
    exact .append ((opens_block _).braced ihInner (Or.inr rfl) (by decide)) (ih rest)

/-- The tokens of the code of a text start one behind the other. -/
theorem code_ordered (source : Text) :
    (Token.code (tokens source)).Pairwise fun a b => a.start < b.start := by
  have hordered := (tokens_ordered source).sublist (List.filter_sublist (p := Token.isCode))
  refine hordered.imp_of_mem fun ha _ h => ?_
  have := start_lt_stop (List.mem_filter.mp ha).1
  omega

/-- Marks in the order of their tokens, whichever way they have been put in that order. -/
theorem eq_of_perm_of_ordered {ms ns : List Mark} (hperm : ms.Perm ns)
    (hms : ms.Pairwise fun a b => a.2.2.start ≤ b.2.2.start)
    (hns : ns.Pairwise fun a b => a.2.2.start < b.2.2.start) : ms = ns := by
  have hnodup : (ns.map (·.2.2.start)).Nodup := List.pairwise_map.mpr (hns.imp Nat.ne_of_lt)
  refine List.Perm.eq_of_pairwise (fun a b ha hb hab hba => ?_) hms (hns.imp Nat.le_of_lt) hperm
  exact List.inj_on_of_nodup_map hnodup (hperm.mem_iff.mp ha) hb (Nat.le_antisymm hab hba)

/-- A program in any layout is spelled by the tokens of its code, and what is extracted is one entity for
each name that it declares, in the order of the program, with the kind that its production gives it. -/
theorem extract_program (program : Program) (layout : Layout program.symbols) :
    Spells (Token.code (tokens layout.text)) program.symbols ∧
      (extract (tokens layout.text)).entities.map Entity.mark =
        declared program.symbols (Token.code (tokens layout.text)) ∧
      (extract (tokens layout.text)).anomalies = [] := by
  set code := Token.code (tokens layout.text) with hcode
  have hspells : Spells code program.symbols := layout.spells_code
  set x := Extraction.initial (codeEnd (tokens layout.text)) with hx
  obtain ⟨y, hrun, hreads⟩ := reads_items program [] x ⟨_, rfl, Or.inl rfl⟩ code hspells
  -- there are no directives, so no macro is added to what reading the code has recorded
  have hread : Extraction.ofTokens (tokens layout.text) = y.endOpened (codeEnd (tokens layout.text)) := by
    unfold Extraction.ofTokens
    dsimp only
    rw [layout.directives_tokens, List.foldl_nil]
    refine congrArg (Extraction.endOpened · _) ?_
    have hread := hrun.run_eq
    rwa [List.append_nil, Extraction.run] at hread
  have hextract := extract_eq (tokens layout.text)
  rw [hread, endOpened_eq] at hextract
  refine ⟨hspells, ?_, ?_⟩
  · refine eq_of_perm_of_ordered ?_ ?_ ?_
    · rw [hextract]
      exact ((List.mergeSort_perm _ _).map _).trans hreads.marks
    · exact List.pairwise_map.mpr (sorted_entities_extract _)
    · have hordered := (code_ordered layout.text).sublist (declared_sublist program.symbols code)
      exact (List.pairwise_map (f := fun m : Mark => m.2.2)).mp hordered
  · rw [hextract]
    exact congrArg Array.toList hreads.anomalies

end Core

end HouseStyle
