import HouseStyle.Proofs.Recording
import HouseStyle.Proofs.RewrittenHeads

namespace HouseStyle

/-- A scope but for where it lies, and without the name of a function, which may be that of an operator. -/
def Scope.bare (s : Scope) : Scope :=
  { s with start := 0, stop := 0, name := if s.kind = .function then none else s.name }

/-- An entity but for what depends on how its tokens are written, and without the name of an operator or
the like. -/
def Entity.bare (e : Entity) : Entity :=
  { e with typeText := [], initializer := [], parameters := [], name := if e.isSpecial then [] else e.name }

namespace Rewriting

/-- A scope, rewritten. -/
def scope (w : Rewriting) (s : Scope) : Scope := { s.bare with name := s.bare.name.map w.name }

/-- An entity, rewritten. It becomes a scoped enumeration where `class` is put in behind its keyword. -/
def entity (w : Rewriting) (e : Entity) : Entity :=
  { e.bare with
    name := if e.isSpecial then [] else w.name e.name
    token := w.token e.token
    isScopedEnum := e.isScopedEnum || e.keyword.any w.scopes
    qualifier := e.qualifier.map w.name
    keyword := e.keyword.map w.token }

/-- Where a scope starts, and where it does after rewriting: at a token and what this becomes, or both are the
scope of the file. -/
inductive Starts (w : Rewriting) (code : List Token) (s s' : Scope) : Prop where
  | file (hold : s.kind = .file ∧ s.start = 0) (hnew : s'.start = 0)
  | token {t : Token} (h : t ∈ code) (hold : s.start = t.start) (hnew : s'.start = (w.token t).start)

/-- Where a scope ends that has been left, and where it does after rewriting. -/
inductive Stops (w : Rewriting) (code : List Token) (s s' : Scope) : Prop where
  | empty (h : code = []) (hold : s.stop = 0) (hnew : s'.stop = 0)
  | token {t : Token} (h : t ∈ code) (hold : s.stop = t.stop) (hnew : s'.stop = (w.last t).stop)

/-- A scope and what it is rewritten to. As long as it is open it does not matter where it ends. -/
structure ScopeFollows (w : Rewriting) (code : List Token) (isOpen : Prop) (s s' : Scope) : Prop where
  bare : s'.bare = w.scope s
  /-- But for functions, names of scopes are names of the code. -/
  named : s.kind ≠ .function → ∀ name, s.name = some name → ∃ t ∈ code, t.isIdentifier = true ∧ t.text = name
  apart : s.kind = .class_ → ∀ name, s.name = some name → w.Apart name
  display : Option.Rel (fun a b => ∃ t, DisplayMatches w code t a b) s.name s'.name
  start : Starts w code s s'
  stop : isOpen ∨ Stops w code s s'

/-- How the type of an entity is written and how it is after rewriting: tokens of the code, behind the name of
a class if they are declarators of it, and perhaps the sign of an array. -/
def Retypes (w : Rewriting) (code : List Token) (s s' : Text) : Prop :=
  ∃ (name : Option Text) (us : List Token) (isArray : Bool),
    (∀ n, name = some n → ∃ t ∈ code, t.isIdentifier = true ∧ t.text = n) ∧ us ⊆ code ∧
    s = name.getD [] ++ joinedText us ++ (if isArray then Text.ofString "[]" else []) ∧
    s' = (name.map w.name).getD [] ++ joinedText (w.code us) ++ (if isArray then Text.ofString "[]" else [])

/-- An entity and what it is rewritten to. -/
structure EntityFollows (w : Rewriting) (code : List Token) (e e' : Entity) : Prop where
  bare : e'.bare = w.entity e
  display : DisplayMatches w code e.token e.name e'.name
  typeText : Retypes w code e.typeText e'.typeText
  initializer : Rejoins w code e.initializer e'.initializer
  parameters : List.Forall₂ (ParameterMatches w code) e.parameters e'.parameters

/-- Most of an entity stays as it is. -/
theorem EntityFollows.eq {w : Rewriting} {code : List Token} {e e' : Entity} (h : EntityFollows w code e e') :
    e' = { e with
      name := e'.name, token := w.token e.token, isScopedEnum := e.isScopedEnum || e.keyword.any w.scopes
      qualifier := e.qualifier.map w.name, keyword := e.keyword.map w.token
      typeText := e'.typeText, initializer := e'.initializer, parameters := e'.parameters } := by
  have hbare := h.bare
  unfold Rewriting.entity at hbare
  cases e
  cases e'
  simp only [Entity.bare, Entity.mk.injEq] at hbare ⊢
  simp [hbare]

theorem EntityFollows.name_eq {w : Rewriting} {code : List Token} {e e' : Entity} (h : EntityFollows w code e e')
    (hspecial : e.isSpecial = false) : e'.name = w.name e.name := by
  have hspecial' : e'.isSpecial = e.isSpecial := by rw [h.eq]
  have hname : e'.bare.name = (w.entity e).name := by rw [h.bare]
  change (if e'.isSpecial then [] else e'.name) = if e.isSpecial then [] else w.name e.name at hname
  rwa [hspecial', hspecial, if_neg (by decide), if_neg (by decide)] at hname

/-- Reading has come as far in code as in what that is rewritten to. -/
structure Follows (w : Rewriting) (code : List Token) (x y : Extraction) : Prop where
  opened : y.opened = x.opened
  size : y.scopes.size = x.scopes.size
  scope : ∀ (i : Nat) (s s' : Scope), x.scopes[i]? = some s → y.scopes[i]? = some s' →
    ScopeFollows w code (i ∈ x.opened) s s'
  entities : List.Forall₂ (EntityFollows w code) x.entities.toList y.entities.toList
  anomalies : y.anomalies.toList = x.anomalies.toList.map fun a => (w.token a.1, w.last a.2)
  classNames : y.classNames = x.classNames.map w.name
  namespaceNames : y.namespaceNames = x.namespaceNames.map w.name

/-- A statement of rewritten code does what the statement it comes from does. -/
def Agrees (w : Rewriting) (code : List Token) (r s : Extraction × List Token) : Prop :=
  Follows w code r.1 s.1 ∧ s.2 = w.code r.2

variable {w : Rewriting} {code : List Token} {x y : Extraction}

/-! ## Texts -/

theorem rejoins_nil : Rejoins w code [] [] := ⟨[], List.nil_subset _, rfl, rfl⟩

theorem Rejoins.retypes {s s' : Text} (h : Rejoins w code s s') : Retypes w code s s' := by
  obtain ⟨us, hus, rfl, rfl⟩ := h
  exact ⟨none, us, false, by simp, hus, by simp, by simp⟩

/-- The type of a variable, or of one behind the brace of a class that may have a name. -/
theorem retypes_variable {name : Option Text} {type operators : List Token} (isArray : Bool)
    (hname : ∀ n, name = some n → ∃ t ∈ code, t.isIdentifier = true ∧ t.text = n) (htype : type ⊆ code)
    (hoperators : operators ⊆ code) :
    let written := if type.isEmpty then name.getD [] ++ joinedText operators else joinedText (type ++ operators)
    let written' := if (w.code type).isEmpty then (name.map w.name).getD [] ++ joinedText (w.code operators)
      else joinedText (w.code type ++ w.code operators)
    Retypes w code (if isArray then written ++ Text.ofString "[]" else written)
      (if isArray then written' ++ Text.ofString "[]" else written') := by
  have hsign : ∀ s : Text, (if isArray then s ++ Text.ofString "[]" else s) =
      s ++ if isArray then Text.ofString "[]" else [] := fun s => by
    cases isArray
    · exact (List.append_nil s).symm
    · rfl
  intro written written'
  rw [hsign, hsign]
  by_cases hempty : type.isEmpty = true
  · refine ⟨name, operators, isArray, hname, hoperators, ?_, ?_⟩
    · rw [show written = _ from if_pos hempty]
    · rw [show written' = _ from if_pos (by rw [isEmpty_code, hempty])]
  · refine ⟨none, type ++ operators, isArray, by simp, List.append_subset.mpr ⟨htype, hoperators⟩, ?_, ?_⟩
    · rw [show written = _ from if_neg hempty]
      rfl
    · rw [show written' = _ from if_neg (by rw [isEmpty_code]; exact hempty), ← code_append]
      rfl

/-- A name of the code, with nothing more known about it. -/
theorem EntityFollows.of_plain {e e' : Entity} (hbare : e'.bare = w.entity e)
    (hid : e.token.isIdentifier = true) (hspecial : e.isSpecial = false)
    (htype : e.typeText = []) (htype' : e'.typeText = [])
    (hinitializer : e.initializer = []) (hinitializer' : e'.initializer = [])
    (hparameters : e.parameters = []) (hparameters' : e'.parameters = []) : EntityFollows w code e e' where
  bare := hbare
  display := by
    have hspecial' : e'.bare.isSpecial = (w.entity e).isSpecial := by rw [hbare]
    have hname : e'.bare.name = (w.entity e).name := by rw [hbare]
    change e'.isSpecial = e.isSpecial at hspecial'
    unfold Rewriting.entity Entity.bare at hname
    simp only [hspecial', hspecial, Bool.false_eq_true, if_false] at hname
    rw [hname]
    exact .name hid _
  typeText := by
    rw [htype, htype']
    exact rejoins_nil.retypes
  initializer := by
    rw [hinitializer, hinitializer']
    exact rejoins_nil
  parameters := by
    rw [hparameters, hparameters']
    exact .nil

/-! ## Scopes -/

theorem ScopeFollows.mono {p q : Prop} {s s' : Scope} (h : ScopeFollows w code p s s') (hpq : p → q) :
    ScopeFollows w code q s s' := { h with stop := h.stop.imp hpq id }

theorem ScopeFollows.kind_eq {p : Prop} {s s' : Scope} (h : ScopeFollows w code p s s') : s'.kind = s.kind := by
  have hsame : s'.bare.kind = (w.scope s).kind := by rw [h.bare]
  exact hsame

theorem ScopeFollows.chained_eq {p : Prop} {s s' : Scope} (h : ScopeFollows w code p s s') :
    s'.chained = s.chained := by
  have hsame : s'.bare.chained = (w.scope s).chained := by rw [h.bare]
  exact hsame

theorem ScopeFollows.trailingAlias_eq {p : Prop} {s s' : Scope} (h : ScopeFollows w code p s s') :
    s'.trailingAlias = s.trailingAlias := by
  have hsame : s'.bare.trailingAlias = (w.scope s).trailingAlias := by rw [h.bare]
  exact hsame

/-- But for functions, the name of a scope is rewritten. -/
theorem ScopeFollows.name_eq {p : Prop} {s s' : Scope} (h : ScopeFollows w code p s s') (hkind : s.kind ≠ .function) :
    s'.name = s.name.map w.name := by
  have hname : s'.bare.name = (w.scope s).name := by rw [h.bare]
  unfold Rewriting.scope Scope.bare at hname
  dsimp only at hname
  rwa [h.kind_eq, if_neg hkind, if_neg hkind] at hname

/-- A scope that ends at a token of the code is ended. -/
theorem ScopeFollows.ended {p : Prop} {s s' : Scope} (h : ScopeFollows w code p s s') {t : Token} (ht : t ∈ code)
    (q : Prop) : ScopeFollows w code q { s with stop := t.stop } { s' with stop := (w.last t).stop } where
  bare := h.bare
  named := h.named
  apart := h.apart
  display := h.display
  start :=
    match h.start with
    | .file hold hnew => .file hold hnew
    | .token h hold hnew => .token h hold hnew
  stop := .inr (.token ht rfl rfl)

/-- A scope without a name that starts at a brace and is open. -/
theorem scopeFollows_open (kind : ScopeKind) (name : Option Token) {parent : Option Nat} {brace : Token}
    (chained trailingAlias : Bool) (hkind : kind ≠ .function)
    (hname : ∀ t, name = some t → t ∈ code ∧ t.isIdentifier = true)
    (hapart : kind = .class_ → ∀ t, name = some t → w.Apart t.text) (hbrace : brace ∈ code) {p : Prop} (hp : p) :
    ScopeFollows w code p
      ⟨kind, name.map (·.text), parent, brace.start, brace.start, chained, trailingAlias⟩
      ⟨kind, (name.map w.token).map (·.text), parent, (w.token brace).start, (w.token brace).start, chained,
        trailingAlias⟩ := by
  have htext : (name.map w.token).map (·.text) = (name.map (·.text)).map w.name := by
    cases name with
    | none => rfl
    | some t => exact congrArg some (w.text_name t (beq_iff_eq.mp (hname t rfl).2))
  refine ⟨?_, fun _ n hn => ?_, fun hclass n hn => ?_, ?_, .token hbrace rfl rfl, .inl hp⟩
  · unfold Rewriting.scope Scope.bare
    simp [hkind, htext]
  · obtain ⟨t, rfl, rfl⟩ := Option.map_eq_some_iff.mp hn
    exact ⟨t, (hname t rfl).1, (hname t rfl).2, rfl⟩
  · obtain ⟨t, rfl, rfl⟩ := Option.map_eq_some_iff.mp hn
    exact hapart hclass t rfl
  · rw [htext]
    cases name with
    | none => exact .none
    | some t => exact .some ⟨t, .name (hname t rfl).2 _⟩

namespace Follows

theorem currentIndex (h : Follows w code x y) : y.currentIndex = x.currentIndex := by
  unfold Extraction.currentIndex
  rw [h.opened]

/-- The scopes at an index. -/
theorem scope_cases (h : Follows w code x y) (i : Nat) :
    (x.scopes[i]? = none ∧ y.scopes[i]? = none) ∨ ∃ s s', x.scopes[i]? = some s ∧ y.scopes[i]? = some s' ∧
      ScopeFollows w code (i ∈ x.opened) s s' := by
  by_cases hi : i < x.scopes.size
  · have hi' : i < y.scopes.size := h.size ▸ hi
    have hs : x.scopes[i]? = some x.scopes[i] := Array.getElem?_eq_getElem hi
    have hs' : y.scopes[i]? = some y.scopes[i] := Array.getElem?_eq_getElem hi'
    exact .inr ⟨_, _, hs, hs', h.scope i _ _ hs hs'⟩
  · have hi' : ¬i < y.scopes.size := h.size ▸ hi
    exact .inl ⟨Array.getElem?_eq_none (Nat.le_of_not_lt hi), Array.getElem?_eq_none (Nat.le_of_not_lt hi')⟩

/-- An index without a scope stands for that of the file. -/
theorem scope_getD (h : Follows w code x y) (i : Nat) :
    ScopeFollows w code True (x.scopes.getD i ⟨.file, none, none, 0, 0, false, false⟩)
      (y.scopes.getD i ⟨.file, none, none, 0, 0, false, false⟩) := by
  rw [Array.getD_eq_getD_getElem?, Array.getD_eq_getD_getElem?]
  rcases h.scope_cases i with ⟨hx, hy⟩ | ⟨s, s', hx, hy, hscope⟩
  · rw [hx, hy]
    exact ⟨rfl, by simp, by simp, .none, .file ⟨rfl, rfl⟩ rfl, .inl trivial⟩
  · rw [hx, hy]
    exact hscope.mono fun _ => trivial

theorem scopes_bare (h : Follows w code x y) : y.scopes.map Scope.bare = x.scopes.map w.scope := by
  refine Array.ext_getElem? fun i => ?_
  rw [Array.getElem?_map, Array.getElem?_map]
  rcases h.scope_cases i with ⟨hx, hy⟩ | ⟨s, s', hx, hy, hscope⟩
  · rw [hx, hy]
    rfl
  · rw [hx, hy]
    exact congrArg some hscope.bare

end Follows

theorem ScopeFollows.matches {p : Prop} {s s' : Scope} (h : ScopeFollows w code p s s') : ScopeMatches w s s' :=
  ⟨h.kind_eq, fun hclass => h.name_eq (by rw [hclass]; simp), h.apart⟩

namespace Follows

theorem current (h : Follows w code x y) : ScopeMatches w x.current y.current := by
  unfold Extraction.current
  rw [h.currentIndex]
  exact (h.scope_getD _).matches

theorem inFunction (h : Follows w code x y) : y.inFunction = x.inFunction := by
  unfold Extraction.inFunction
  rw [h.current.kind]

theorem add (h : Follows w code x y) {e e' : Entity} (he : EntityFollows w code e e') :
    Follows w code (x.add e) (y.add e') :=
  { h with
    entities := by
      rw [Extraction.entities_add, Extraction.entities_add]
      exact List.rel_append h.entities (.cons he .nil) }

theorem noteAnomaly (h : Follows w code x y) (ts : List Token) :
    Follows w code (x.noteAnomaly ts) (y.noteAnomaly (w.code ts)) := by
  unfold Extraction.noteAnomaly
  rw [head_code, getLast_code]
  cases ts.head? with
  | none => exact h
  | some first =>
    cases ts.getLast? with
    | none => exact h
    | some last =>
      refine { h with anomalies := ?_ }
      simp [h.anomalies]

/-- A scope is added, and it may be entered. -/
theorem pushScope (h : Follows w code x y) (entered : Bool) {new new' : Scope}
    (hnew : ScopeFollows w code (entered = true) new new') :
    Follows w code
      { x with
        scopes := x.scopes.push new
        opened := if entered then x.scopes.size :: x.opened else x.opened }
      { y with
        scopes := y.scopes.push new'
        opened := if entered then y.scopes.size :: y.opened else y.opened } :=
  { h with
    opened := by rw [h.size, h.opened]
    size := by rw [Array.size_push, Array.size_push, h.size]
    scope := by
      intro i s s' hs hs'
      rw [Array.getElem?_push] at hs hs'
      rw [h.size] at hs'
      by_cases hi : i = x.scopes.size
      · rw [if_pos hi] at hs hs'
        obtain rfl := Option.some.inj hs
        obtain rfl := Option.some.inj hs'
        refine hnew.mono fun hentered => ?_
        rw [if_pos hentered, hi]
        exact List.mem_cons_self
      · rw [if_neg hi] at hs hs'
        refine (h.scope i s s' hs hs').mono fun hopen => ?_
        split
        · exact List.mem_cons_of_mem _ hopen
        · exact hopen }

theorem openScope (h : Follows w code x y) (kind : ScopeKind) {brace : Token} (hkind : kind ≠ .function)
    (hbrace : brace ∈ code) :
    Follows w code (x.openScope kind none brace.start) (y.openScope kind none (w.token brace).start) := by
  have hnew : ScopeFollows w code (true = true)
      ⟨kind, none, some x.currentIndex, brace.start, brace.start, false, false⟩
      ⟨kind, none, some y.currentIndex, (w.token brace).start, (w.token brace).start, false, false⟩ := by
    rw [h.currentIndex]
    exact scopeFollows_open kind none false false hkind (by simp) (by simp) hbrace rfl
  exact h.pushScope true hnew

/-- The innermost scope is left at a token of the code. -/
theorem leaveScope (h : Follows w code x y) {i : Nat} {outer : List Nat} (hopened : x.opened = i :: outer)
    {t : Token} (ht : t ∈ code) :
    Follows w code { x.endScope i t.stop with opened := outer }
      { y.endScope i (w.last t).stop with opened := outer } :=
  { h with
    opened := rfl
    size := by
      show (y.scopes.modify i _).size = (x.scopes.modify i _).size
      rw [Array.size_modify, Array.size_modify, h.size]
    scope := by
      intro j s s' hs hs'
      change (x.scopes.modify i _)[j]? = some s at hs
      change (y.scopes.modify i _)[j]? = some s' at hs'
      rw [Array.getElem?_modify] at hs hs'
      by_cases hj : i = j
      · rw [if_pos hj] at hs hs'
        obtain ⟨s₀, hs₀, rfl⟩ := Option.map_eq_some_iff.mp hs
        obtain ⟨s₀', hs₀', rfl⟩ := Option.map_eq_some_iff.mp hs'
        exact (h.scope j s₀ s₀' hs₀ hs₀').ended ht _
      · rw [if_neg hj] at hs hs'
        refine (h.scope j s s' hs hs').mono fun hopen => ?_
        rw [hopened] at hopen
        exact (List.mem_cons.mp hopen).resolve_left fun heq => hj heq.symm }

/-! ## Names -/

theorem addName (h : Follows w code x y) (kind : EntityKind) {t : Token} (ht : t.isIdentifier = true) :
    Follows w code (x.addName kind t) (y.addName kind (w.token t)) := by
  unfold Extraction.addName
  refine h.add (.of_plain ?_ ht rfl rfl rfl rfl rfl rfl rfl)
  unfold Rewriting.entity Entity.bare
  simp [h.currentIndex, w.text_name t (beq_iff_eq.mp ht)]

theorem addNames (h : Follows w code x y) (kind : EntityKind) {names : List Token}
    (hnames : ∀ t ∈ names, t.isIdentifier = true) :
    Follows w code (x.addNames kind names) (y.addNames kind (names.map w.token)) := by
  unfold Extraction.addNames
  induction names generalizing x y with
  | nil => exact h
  | cons t names ih =>
    rw [List.forall_mem_cons] at hnames
    exact ih (h.addName kind hnames.1) hnames.2

theorem addNamespaceNames (h : Follows w code x y) {names : List Token}
    (hnames : ∀ t ∈ names, t.isIdentifier = true) :
    Follows w code { x with namespaceNames := names.map (·.text) ++ x.namespaceNames }
      { y with namespaceNames := (names.map w.token).map (·.text) ++ y.namespaceNames } :=
  { h with
    namespaceNames := by
      dsimp only
      rw [List.map_append, h.namespaceNames, List.map_map, List.map_map]
      congr 1
      exact List.map_congr_left fun t ht => w.text_name t (beq_iff_eq.mp (hnames t ht)) }

/-! ## Functions and variables -/

/-- Variables of a type, or behind the brace of a class that may have a name. -/
theorem addVariables (h : Follows w code x y) (specifiers : Specifiers) {type : List Token} (name : Option Text)
    {declarators : List Declarator} (htype : type ⊆ code)
    (hname : ∀ n, name = some n → ∃ t ∈ code, t.isIdentifier = true ∧ t.text = n)
    (hnames : ∀ d ∈ declarators, d.name.isIdentifier = true)
    (hparts : ∀ d ∈ declarators, d.operators ⊆ code ∧ d.initializer ⊆ code) :
    Follows w code (x.addVariables specifiers type (name.getD []) declarators)
      (y.addVariables specifiers (w.code type) ((name.map w.name).getD []) (declarators.map w.declarator)) := by
  unfold Extraction.addVariables
  induction declarators generalizing x y with
  | nil => exact h
  | cons d declarators ih =>
    rw [List.forall_mem_cons] at hnames hparts
    obtain ⟨⟨hoperators, hinitializer⟩, hmore⟩ := hparts
    refine ih (h.add ?_) hnames.2 hmore
    have hconst : isConstObject (w.code type ++ w.code d.operators) = isConstObject (type ++ d.operators) := by
      rw [← code_append, isConstObject_code]
    have hkind : Extraction.variableKind y.current.kind specifiers (w.declarator d)
          (isConstObject (type ++ d.operators)) =
        Extraction.variableKind x.current.kind specifiers d (isConstObject (type ++ d.operators)) := by
      unfold Extraction.variableKind declarator
      rw [h.current.kind, List.isEmpty_map]
    refine ⟨?_, ?_, ?_, ⟨d.initializer, hinitializer, rfl, rfl⟩, .nil⟩
    · unfold Rewriting.entity Entity.bare
      simp only [declarator, hconst, w.text_name d.name (beq_iff_eq.mp hnames.1), h.currentIndex,
        Bool.false_eq_true, if_false, Option.map_none, Option.any_none, Bool.or_false]
      congr 1
    · show DisplayMatches w code d.name d.name.text (w.token d.name).text
      rw [w.text_name d.name (beq_iff_eq.mp hnames.1)]
      exact .name hnames.1 _
    · exact retypes_variable d.isArray hname htype hoperators

theorem contains_map_name (names : List Text) {name : Text} (h : w.Apart name) :
    (names.map w.name).contains (w.name name) = names.contains name := by
  rw [Bool.eq_iff_iff, List.contains_iff_mem, List.contains_iff_mem, List.mem_map]
  constructor
  · rintro ⟨other, hother, heq⟩
    exact h other heq.symm ▸ hother
  · exact fun hmem => ⟨name, hmem, rfl⟩

theorem functionKind (h : Follows w code x y) {qualifier : List Text} (hapart : ∀ s ∈ qualifier, w.Apart s) :
    y.functionKind (qualifier.map w.name) = x.functionKind qualifier := by
  unfold Extraction.functionKind
  rw [h.current.kind, List.getLast?_map]
  split
  · rfl
  · cases hlast : qualifier.getLast? with
    | none => rfl
    | some last =>
      have hlast := hapart last (List.mem_of_getLast? hlast)
      dsimp only [Option.map_some]
      rw [h.namespaceNames, h.classNames, contains_map_name _ hlast, contains_map_name _ hlast]

end Follows

theorem parameterTokens_code {f g : FunctionHead} (h : HeadMatches w code f g) :
    Extraction.parameterTokens g = w.code (Extraction.parameterTokens f) := by
  unfold Extraction.parameterTokens
  rw [h.afterOpener, parenthesised_code]
  cases parenthesised? f.afterOpener <;> rfl

theorem parameterTokens_subset {f g : FunctionHead} (h : HeadMatches w code f g) :
    Extraction.parameterTokens f ⊆ code := by
  have hafter := (List.cons_subset.mp h.list_subset).2
  unfold Extraction.parameterTokens
  cases he : parenthesised? f.afterOpener with
  | none => exact hafter
  | some e =>
    rw [enclosed?_append he, List.append_subset] at hafter
    exact hafter.1

/-- As long as no body follows, a function ends where its parameter list does. -/
theorem parameterStop_code {f g : FunctionHead} (h : HeadMatches w code f g) :
    ∃ t ∈ code, Extraction.parameterStop f = t.stop ∧ Extraction.parameterStop g = (w.last t).stop := by
  obtain ⟨hopener, hafter⟩ := List.cons_subset.mp h.list_subset
  unfold Extraction.parameterStop
  rw [h.afterOpener, h.opener, parenthesised_code, getLast_code]
  cases he : parenthesised? f.afterOpener with
  | some e =>
    rw [enclosed?_append he, List.append_subset, List.cons_subset] at hafter
    exact ⟨e.closer, hafter.2.1, rfl, by rw [last_of_isPunct (closer_isPunct he)]; rfl⟩
  | none =>
    cases hlast : f.afterOpener.getLast? with
    | some t => exact ⟨t, hafter (List.mem_of_getLast? hlast), rfl, rfl⟩
    | none => exact ⟨f.opener, hopener, rfl, by rw [last_of_isPunct h.opener_isPunct]; rfl⟩

/-- The parameters of a function, each recorded in its scope. -/
theorem parameterEntities_follow (index : Nat) {parameters parameters' : List Parameter}
    (h : List.Forall₂ (ParameterMatches w code) parameters parameters')
    (hnames : ∀ p ∈ parameters, ∀ t, p.name = some t → t.isIdentifier = true) :
    List.Forall₂ (EntityFollows w code) (Extraction.parameterEntities index parameters)
      (Extraction.parameterEntities index parameters') := by
  unfold Extraction.parameterEntities
  induction h with
  | nil => exact .nil
  | @cons p p' parameters parameters' hfirst _ ih =>
    rw [List.forall_mem_cons] at hnames
    have hrest := ih hnames.2
    rw [List.filterMap_cons, List.filterMap_cons, hfirst.name]
    cases hname : p.name with
    | none => exact hrest
    | some t =>
      have htext := w.text_name t (beq_iff_eq.mp (hnames.1 t hname))
      refine .cons ⟨?_, ?_, hfirst.typeText.retypes, rejoins_nil, .nil⟩ hrest
      · simp [entity, Entity.bare, htext, hfirst.isConst, hfirst.confidence]
      · show DisplayMatches w code t t.text (w.token t).text
        rw [htext]
        exact .name (hnames.1 t hname) _

/-- A name in front of a parameter list, or whatever else follows a function, is rewritten with it. -/
theorem Follows.functionEntity (h : Follows w code x y) (hdistinct : Distinct w code) {f g : FunctionHead}
    (hfg : HeadMatches w code f g) (hasBody : Bool) :
    EntityFollows w code (x.functionEntity f hasBody) (y.functionEntity g hasBody) := by
  have htrailer : (((parenthesised? g.afterOpener).map (·.after)).getD []).any
        (fun t => t.isWord "override" || t.isWord "final") =
      (((parenthesised? f.afterOpener).map (·.after)).getD []).any
        (fun t => t.isWord "override" || t.isWord "final") := by
    have hblind : Blind w fun t => t.isWord "override" || t.isWord "final" :=
      .of_keyword (fun t => by rw [isWord_token t (by decide), isWord_token t (by decide)])
        (by rintro t (hk | hk) <;> simp [Token.isWord, hk])
    rw [hfg.afterOpener, parenthesised_code, map_after_enclosed]
    cases (parenthesised? f.afterOpener).map (·.after) with
    | none => rfl
    | some after => exact any_code hblind after
  have hname : (if f.isSpecial then [] else g.display) = if f.isSpecial then [] else w.name f.display := by
    split
    · rfl
    next hs => exact hfg.display_name (by simpa using hs)
  refine ⟨?_, hfg.display, Rejoins.retypes ⟨f.type, hfg.type_subset, rfl, congrArg joinedText hfg.type⟩,
    rejoins_nil, ?_⟩
  · unfold Extraction.functionEntity Rewriting.entity Entity.bare
    simp only [hfg.name, hfg.isSpecial, hfg.specifiers, hfg.qualifier, h.functionKind hfg.qualifier_apart, h.currentIndex, h.size,
      htrailer, hname, Option.map_none, Option.any_none, Bool.or_false]
  · show List.Forall₂ _ (Parameter.readAll _) (Parameter.readAll _)
    rw [parameterTokens_code hfg]
    exact parameters_code hdistinct (parameterTokens_subset hfg)

theorem Follows.addFunction (h : Follows w code x y) (hdistinct : Distinct w code) {f g : FunctionHead}
    (hfg : HeadMatches w code f g) (hasBody : Bool) :
    Follows w code (x.addFunction f hasBody) (y.addFunction g hasBody) := by
  have hentity := h.functionEntity hdistinct hfg hasBody
  have hscope : ScopeFollows w code (hasBody = true)
      ⟨.function, some f.display, some x.currentIndex, f.opener.start, Extraction.parameterStop f, false, false⟩
      ⟨.function, some g.display, some y.currentIndex, g.opener.start, Extraction.parameterStop g, false, false⟩ := by
    obtain ⟨t, ht, hstop, hstop'⟩ := parameterStop_code hfg
    refine ⟨?_, fun hkind => absurd rfl hkind, by simp, .some ⟨f.name, hfg.display⟩,
      .token (List.cons_subset.mp hfg.list_subset).1 rfl (congrArg Token.start hfg.opener),
      .inr (.token ht hstop hstop')⟩
    unfold Rewriting.scope Scope.bare
    simp [h.currentIndex]
  rw [Extraction.addFunction_eq, Extraction.addFunction_eq]
  refine { h.pushScope hasBody hscope with entities := ?_ }
  have hparameters := parameterEntities_follow x.scopes.size
    (parameters_code hdistinct (parameterTokens_subset hfg)) (Parameter.names_readAll_sublist _).2
  rw [← parameterTokens_code hfg] at hparameters
  dsimp only
  rw [Array.toList_push, Array.toList_push, Array.toList_append, Array.toList_append, h.size]
  exact List.rel_append (List.rel_append h.entities hparameters) (.cons hentity .nil)

theorem Follows.addDeclaration (h : Follows w code x y) (hdistinct : Distinct w code) {d e : Declaration}
    (hd : DeclarationMatches w code (some d) (some e)) (hasBody : Bool) :
    Follows w code (x.addDeclaration d hasBody) (y.addDeclaration e hasBody) := by
  cases hd with
  | function hfg => exact h.addFunction hdistinct hfg hasBody
  | «variables» specifiers htype hnames hparts =>
    exact h.addVariables specifiers none htype (by simp) hnames hparts

theorem agrees_declarationOrExpression (h : Follows w code x y) (hdistinct : Distinct w code) {ts : List Token}
    (hapart : ∀ s ∈ qualifiers ts, w.Apart s) (hts : ts ⊆ code) :
    Agrees w code (x.declarationOrExpression ts) (y.declarationOrExpression (w.code ts)) := by
  obtain ⟨ender, happend, hbody⟩ := read_append ts
  have hhead : (Head.read ts).tokens ⊆ code ∧ ender ⊆ code := by
    rw [happend, List.append_subset, List.append_subset] at hts
    exact hts.1
  have hinfix : (Head.read ts).tokens <:+: ts := by
    rw [List.append_assoc] at happend
    exact List.IsPrefix.isInfix ⟨_, happend.symm⟩
  have hread := declaration_code h.current x.inFunction hhead.1 fun s hs => hapart s (qualifiers_subset hinfix hs)
  unfold Extraction.declarationOrExpression
  rw [read_code, h.inFunction]
  dsimp only
  rw [show (w.head (Head.read ts)).tokens = w.code (Head.read ts).tokens from rfl,
    show (w.head (Head.read ts)).rest = w.code (Head.read ts).rest from rfl,
    show (w.head (Head.read ts)).ending = w.ending (Head.read ts).ending from rfl]
  generalize Declaration.read? x.current x.inFunction (Head.read ts).tokens = d at hread ⊢
  generalize Declaration.read? y.current x.inFunction (w.code (Head.read ts).tokens) = e at hread ⊢
  -- with or without a body, and what is declared
  cases hending : (Head.read ts).ending with
  | body brace =>
    obtain ⟨rfl, -⟩ := hbody brace hending
    have hbrace : brace ∈ code := hhead.2 List.mem_cons_self
    cases hread with
    | none => exact ⟨h.openScope .block (by decide) hbrace, rfl⟩
    | function hfg => exact ⟨h.addFunction hdistinct hfg true, rfl⟩
    | «variables» specifiers htype hnames hparts =>
      exact ⟨(h.addDeclaration hdistinct (.variables specifiers htype hnames hparts) false).openScope .block
        (by decide) hbrace, rfl⟩
  | _ =>
    cases hread with
    | none =>
      have hskipped : Follows w code (if x.inFunction then x else x.noteAnomaly (Head.read ts).tokens)
          (if x.inFunction then y else y.noteAnomaly (w.code (Head.read ts).tokens)) := by
        split
        · exact h
        · exact h.noteAnomaly _
      exact ⟨hskipped, rfl⟩
    | function hfg => exact ⟨h.addFunction hdistinct hfg false, rfl⟩
    | «variables» specifiers htype hnames hparts =>
      exact ⟨h.addDeclaration hdistinct (.variables specifiers htype hnames hparts) false, rfl⟩

/-! ## Scopes that close -/

/-- A scope is left in both, or in neither. -/
inductive LeavesMatch (w : Rewriting) (code : List Token) :
    Option (Scope × Extraction) → Option (Scope × Extraction) → Prop where
  | none : LeavesMatch w code none none
  | some {s s' : Scope} {x y : Extraction} (hscope : ScopeFollows w code True s s') (h : Follows w code x y) :
    LeavesMatch w code (some (s, x)) (some (s', y))

theorem leave_go_matches {indices : List Nat} (h : Follows w code x y) (hopened : x.opened = indices) {t : Token}
    (ht : t ∈ code) :
    LeavesMatch w code (Extraction.leave.go t.stop x indices) (Extraction.leave.go (w.last t).stop y indices) := by
  induction indices generalizing x y with
  | nil => exact .none
  | cons i outer ih =>
    have hleft := h.leaveScope hopened ht
    have hscope := h.scope_getD i
    unfold Extraction.leave.go
    dsimp only
    generalize y.scopes.getD i ⟨.file, none, none, 0, 0, false, false⟩ = s' at hscope ⊢
    generalize x.scopes.getD i ⟨.file, none, none, 0, 0, false, false⟩ = s at hscope ⊢
    rw [hscope.chained_eq]
    split
    · have hgo := ih hleft rfl
      generalize Extraction.leave.go t.stop { x.endScope i t.stop with opened := outer } outer = a at hgo ⊢
      generalize Extraction.leave.go (w.last t).stop { y.endScope i (w.last t).stop with opened := outer } outer = b
        at hgo ⊢
      cases hgo with
      | none => exact .some hscope hleft
      | some hs h => exact .some hs h
    · exact .some hscope hleft

theorem leave_matches (h : Follows w code x y) {t : Token} (ht : t ∈ code) :
    LeavesMatch w code (x.leave t.stop) (y.leave (w.last t).stop) := by
  unfold Extraction.leave
  rw [h.opened]
  exact leave_go_matches h rfl ht

/-- The first identifiers of some parts. -/
theorem firstNames_code (parts : List (List Token)) :
    (parts.map w.code).filterMap (fun part => part.find? (·.isIdentifier)) =
      (parts.filterMap fun part => part.find? (·.isIdentifier)).map w.token := by
  rw [List.filterMap_map, List.map_filterMap]
  congr 1
  funext part
  exact find_isIdentifier_code part

theorem agrees_trailingDeclarators (h : Follows w code x y) {closed closed' : Scope}
    (hclosed : ScopeFollows w code True closed closed') (hkind : closed.kind ≠ .function) {ts : List Token}
    (hts : ts ⊆ code) :
    Agrees w code (x.trailingDeclarators closed ts) (y.trailingDeclarators closed' (w.code ts)) := by
  have hhead : (Head.read ts).tokens ⊆ code := by
    obtain ⟨ender, happend, -⟩ := read_append ts
    rw [happend, List.append_subset, List.append_subset] at hts
    exact hts.1.1
  unfold Extraction.trailingDeclarators
  cases ts with
  | nil => exact ⟨h, rfl⟩
  | cons t rest =>
    rw [code_cons]
    dsimp only
    rw [isIdentifier_token, isOneOf_token, ← code_cons, read_code, hclosed.trailingAlias_eq]
    split
    · exact ⟨h, rfl⟩
    split
    · refine ⟨?_, rfl⟩
      rw [show (w.head (Head.read (t :: rest))).tokens = w.code (Head.read (t :: rest)).tokens from rfl,
        allCommaParts_code, firstNames_code]
      refine h.addNames .typeAlias fun u hu => ?_
      obtain ⟨part, -, hpart⟩ := List.mem_filterMap.mp hu
      exact List.find?_some hpart
    · refine ⟨?_, rfl⟩
      rw [show (w.head (Head.read (t :: rest))).tokens = w.code (Head.read (t :: rest)).tokens from rfl,
        declarators_code, hclosed.name_eq hkind]
      exact h.addVariables {} _ (List.nil_subset _) (hclosed.named hkind) (Declarator.names_readAll_sublist _).2
        fun d hd => (Declarator.parts_readAll_subset _ d hd).imp (List.Subset.trans · hhead)
          (List.Subset.trans · hhead)

theorem agrees_closeScope (h : Follows w code x y) {brace : Token} (hbrace : brace.isPunct .rbrace = true)
    {ts : List Token} (hts : brace :: ts ⊆ code) :
    Agrees w code (x.closeScope brace ts) (y.closeScope (w.token brace) (w.code ts)) := by
  obtain ⟨hmem, htail⟩ := List.cons_subset.mp hts
  have hleave := leave_matches h hmem
  have hstray := h.noteAnomaly [brace]
  rw [code_cons, behind_of_isPunct hbrace, code_nil] at hstray
  rw [last_of_isPunct hbrace] at hleave
  unfold Extraction.closeScope
  generalize x.leave brace.stop = a at hleave ⊢
  generalize y.leave (w.token brace).stop = b at hleave ⊢
  cases hleave with
  | none => exact ⟨hstray, rfl⟩
  | some hscope h =>
    dsimp only
    rw [hscope.kind_eq]
    split
    next hkind =>
      refine agrees_trailingDeclarators h hscope (fun hfunction => ?_) htail
      rw [hfunction] at hkind
      exact absurd hkind (by decide)
    next => exact ⟨h, rfl⟩

/-! ## Namespaces, templates and aliases -/

theorem Follows.openNamespaces (h : Follows w code x y) (chained : Bool) {brace : Token} (hbrace : brace ∈ code)
    {names : List Token} (hnames : ∀ t ∈ names, t.isIdentifier = true) (hcode : names ⊆ code) :
    Follows w code (x.openNamespaces chained brace.start names)
      (y.openNamespaces chained (w.token brace).start (names.map w.token)) := by
  induction names generalizing x y chained with
  | nil => exact h
  | cons name names ih =>
    rw [List.forall_mem_cons] at hnames
    rw [List.cons_subset] at hcode
    have hnoted := Follows.addNamespaceNames (h.addName .namespace_ hnames.1)
      (show ∀ t ∈ [name], t.isIdentifier = true by simpa using hnames.1)
    have hnew : ScopeFollows w code (true = true)
        ⟨.namespace_, some name.text, some x.currentIndex, brace.start, brace.start, chained, false⟩
        ⟨.namespace_, some (w.token name).text, some y.currentIndex, (w.token brace).start, (w.token brace).start,
          chained, false⟩ := by
      rw [h.currentIndex]
      exact scopeFollows_open .namespace_ (some name) chained false (by decide)
        (by rintro t ⟨⟩; exact ⟨hcode.1, hnames.1⟩) (by simp) hbrace rfl
    exact ih (hnoted.pushScope true hnew) true hnames.2 hcode.2

theorem agrees_namespaceStatement (h : Follows w code x y) {ts : List Token} (hts : ts ⊆ code) :
    Agrees w code (x.namespaceStatement ts) (y.namespaceStatement (w.code ts)) := by
  obtain ⟨⟨front, happend, hfront⟩, hnames⟩ := Extraction.namespaceNamesAt_append ts
  unfold Extraction.namespaceStatement
  rw [namespaceNamesAt_code]
  dsimp only
  have hcode : (Extraction.namespaceNamesAt ts).1 ⊆ code ∧ (Extraction.namespaceNamesAt ts).2 ⊆ code := by
    rw [happend, List.append_subset] at hts
    exact ⟨List.Subset.trans hfront.subset hts.1, hts.2⟩
  generalize (Extraction.namespaceNamesAt ts).2 = after at hcode ⊢
  cases after with
  | nil => exact ⟨h, rfl⟩
  | cons t rest =>
    have hbrace : t ∈ code := hcode.2 List.mem_cons_self
    rw [code_cons]
    dsimp only
    rw [isPunct_token, isPunct_token, ← code_cons, List.isEmpty_map]
    split
    · exact ⟨(h.addNames .namespace_ hnames).addNamespaceNames hnames, afterStatement_code _⟩
    split
    next ht =>
      rw [behind_of_isPunct ht]
      split
      · exact ⟨h.openScope .namespace_ (by decide) hbrace, rfl⟩
      · exact ⟨h.openNamespaces false hbrace hnames hcode.1, rfl⟩
    next => exact ⟨h, afterStatement_code _⟩

theorem templateParameters_code (parts : List (List Token)) :
    (parts.map w.code).filterMap templateParameter? = (parts.filterMap templateParameter?).map w.token := by
  rw [List.filterMap_map, List.map_filterMap]
  congr 1
  funext part
  exact templateParameter_code part

theorem agrees_templateStatement (h : Follows w code x y) {first : Token} (hfirst : first.kind ≠ .keyword .enumKw)
    (ts : List Token) :
    Agrees w code (x.templateStatement (first :: ts)) (y.templateStatement (w.code (first :: ts))) := by
  have hskip : Agrees w code (x, afterStatement (first :: ts)) (y, afterStatement (w.code (first :: ts))) :=
    ⟨h, afterStatement_code _⟩
  rw [code_cons, behind_of_ne hfirst] at hskip ⊢
  cases ts with
  | nil => exact hskip
  | cons t rest =>
    unfold Extraction.templateStatement
    rw [code_cons] at hskip ⊢
    dsimp only
    rw [isPunct_token]
    split
    next ht =>
      rw [behind_of_isPunct ht, angled_code]
      cases angled? 0 rest with
      | none => exact ⟨h, rfl⟩
      | some a =>
        refine ⟨?_, rfl⟩
        dsimp only [Option.map_some, angled]
        rw [allCommaParts_code, templateParameters_code]
        refine h.addNames .templateParameter fun t ht => ?_
        obtain ⟨part, -, hpart⟩ := List.mem_filterMap.mp ht
        exact (mem_of_templateParameter hpart).2
    next => exact hskip

theorem usingStatement_eq (x : Extraction) (first : Token) (ts : List Token) :
    x.usingStatement (first :: ts) =
      (match ts with
        | [] => x
        | name :: rest =>
          if name.isIdentifier && rest.head?.any (·.isPunct .eq) then x.addName .typeAlias name else x,
        afterStatement (first :: ts)) := by
  match ts with
  | [] => rfl
  | [name] => simp [Extraction.usingStatement]
  | name :: sign :: rest => rfl

theorem agrees_usingStatement (h : Follows w code x y) {first : Token} (hfirst : first.kind ≠ .keyword .enumKw)
    (ts : List Token) :
    Agrees w code (x.usingStatement (first :: ts)) (y.usingStatement (w.code (first :: ts))) := by
  have hafter := afterStatement_code (w := w) (first :: ts)
  rw [code_cons, behind_of_ne hfirst] at hafter ⊢
  rw [usingStatement_eq, usingStatement_eq]
  refine ⟨?_, hafter⟩
  cases ts with
  | nil => exact h
  | cons name rest =>
    rw [code_cons]
    dsimp only
    rw [isIdentifier_token]
    cases hid : name.isIdentifier with
    | false => exact h
    | true =>
      rw [behind_of_isIdentifier hid, head_any_code (by simp)]
      split
      · exact h.addName .typeAlias hid
      · exact h

/-! ## Classes and enumerations -/

/-- Some tokens are read after a rewriting as before it: `class` is put in behind no `enum` that has it
already, and names that are compared stay apart from all others. -/
structure Fits (w : Rewriting) (ts : List Token) : Prop where
  unscoped : ∀ t rest, t :: rest <:+ ts → w.scopes t = true → rest.head?.any scopesEnum = false
  apart : ∀ s ∈ comparedNames ts, w.Apart s

theorem Fits.of_suffix {ts us : List Token} (h : Fits w ts) (hus : us <:+ ts) : Fits w us where
  unscoped t rest hsuffix := h.unscoped t rest (hsuffix.trans hus)
  apart s hs := h.apart s (comparedNames_subset hus hs)

theorem Fits.qualifiers_apart {ts us : List Token} (h : Fits w ts) (hus : us <:+: ts) :
    ∀ s ∈ qualifiers us, w.Apart s := fun s hs => h.apart s (qualifiers_subset_comparedNames hus hs)

/-- A statement of rewritten code is recognised exactly where the one it comes from is. -/
inductive AgreesIf (w : Rewriting) (code : List Token) :
    Option (Extraction × List Token) → Option (Extraction × List Token) → Prop where
  | none : AgreesIf w code none none
  | some {r s : Extraction × List Token} (h : Agrees w code r s) : AgreesIf w code (some r) (some s)

theorem AgreesIf.getD {o p : Option (Extraction × List Token)} {r s : Extraction × List Token}
    (h : AgreesIf w code o p) (hrs : Agrees w code r s) : Agrees w code (o.getD r) (p.getD s) := by
  cases h with
  | none => exact hrs
  | some h => exact h

theorem Follows.addType (h : Follows w code x y) (keyword : Token) {head : Extraction.TypeHead}
    (hname : ∀ t, head.name = some t → t.isIdentifier = true) (bodyScope : Option Nat) :
    Follows w code (x.addType keyword head bodyScope)
      (y.addType (w.token keyword) (w.typeHead (w.scopes keyword) head) bodyScope) := by
  unfold Extraction.addType typeHead
  cases hn : head.name with
  | none => exact h
  | some name =>
    dsimp only [Option.map_some]
    split
    · exact h
    · refine h.add (.of_plain ?_ (hname name hn) rfl rfl rfl rfl rfl rfl rfl)
      unfold Rewriting.entity Entity.bare
      simp [h.currentIndex, w.text_name name (beq_iff_eq.mp (hname name hn))]

theorem Follows.openType (h : Follows w code x y) (inTypedef : Bool) {keyword : Token}
    {head : Extraction.TypeHead} (hname : ∀ t, head.name = some t → t ∈ code ∧ t.isIdentifier = true)
    (hapart : keyword.isKeyword .enumKw = false → ∀ t, head.name = some t → w.Apart t.text)
    (hbrace : head.terminator ∈ code) :
    Follows w code (x.openType inTypedef keyword head)
      (y.openType inTypedef (w.token keyword) (w.typeHead (w.scopes keyword) head)) := by
  have hnew : ScopeFollows w code (true = true)
      ⟨if keyword.isKeyword .enumKw then .enum else .class_, head.name.map (·.text), some x.currentIndex,
        head.terminator.start, head.terminator.start, false, inTypedef⟩
      ⟨if keyword.isKeyword .enumKw then .enum else .class_, (head.name.map w.token).map (·.text),
        some y.currentIndex, (w.token head.terminator).start, (w.token head.terminator).start, false, inTypedef⟩ := by
    rw [h.currentIndex]
    refine scopeFollows_open _ _ false inTypedef (by split <;> simp) hname (fun hclass => ?_) hbrace rfl
    split at hclass
    · exact absurd hclass (by simp)
    next hno => exact hapart (by simpa using hno)
  have hnoted : (if keyword.isKeyword .enumKw || head.isSpecialization then []
        else ((head.name.map w.token).map (·.text)).toList) =
      (if keyword.isKeyword .enumKw || head.isSpecialization then []
        else (head.name.map (·.text)).toList).map w.name := by
    split
    · rfl
    · cases hn : head.name with
      | none => rfl
      | some name => exact congrArg (fun n => [n]) (w.text_name name (beq_iff_eq.mp (hname name hn).2))
  have hdeclared := h.addType keyword (fun t ht => (hname t ht).2) (some x.scopes.size)
  have hentered := h.pushScope true hnew
  rw [Extraction.openType_eq_addType, Extraction.openType_eq_addType, h.size, isKeyword_token]
  refine ⟨congrArg (x.scopes.size :: ·) h.opened, hentered.size, hentered.scope, hdeclared.entities,
    hdeclared.anomalies, ?_, hdeclared.namespaceNames⟩
  exact (congrArg₂ (· ++ ·) hnoted h.classNames).trans List.map_append.symm

/-- A type that is no enumeration is a class. -/
theorem isKeywordIn_of_not_enum {t : Token} (h : t.isKeywordIn [.structKw, .classKw, .unionKw, .enumKw] = true)
    (hno : t.isKeyword .enumKw = false) : t.isKeywordIn [.classKw, .structKw, .unionKw] = true := by
  unfold Token.isKeywordIn at h ⊢
  cases hk : t.kind with
  | keyword k =>
    rw [Token.isKeyword, hk] at hno
    rw [hk] at h
    cases k <;> first | rfl | exact absurd h (by decide) | exact absurd hno (by decide)
  | _ => exact absurd h (by simp [hk])

theorem agrees_typeStatement (h : Follows w code x y) (inTypedef : Bool) {keyword : Token} {ts : List Token}
    (hkeyword : keyword.isKeywordIn [.structKw, .classKw, .unionKw, .enumKw] = true)
    (hfits : Fits w (keyword :: ts)) (hts : ts ⊆ code) :
    AgreesIf w code (x.typeStatement? inTypedef keyword ts)
      (y.typeStatement? inTypedef (w.token keyword) (w.behind keyword (w.code ts))) := by
  unfold Extraction.typeStatement?
  rw [typeHead_code (hfits.unscoped keyword ts List.suffix_rfl)]
  cases hhead : Extraction.typeHead? keyword ts with
  | none => exact .none
  | some head =>
    obtain ⟨⟨front, happend, hfront⟩, hid⟩ := Extraction.takenFrom_typeHead hhead
    rw [happend, List.append_subset, List.cons_subset] at hts
    have hname : ∀ t, head.name = some t → t ∈ code ∧ t.isIdentifier = true := fun t ht =>
      ⟨hts.1 (hfront.subset (by simp [ht])), hid t ht⟩
    dsimp only [Option.map_some]
    unfold Extraction.readType?
    rw [show (w.typeHead (w.scopes keyword) head).terminator = w.token head.terminator from rfl,
      show (w.typeHead (w.scopes keyword) head).name = head.name.map w.token from rfl,
      show (w.typeHead (w.scopes keyword) head).rest = w.behind head.terminator (w.code head.rest) from rfl,
      isPunct_token, isPunct_token, Option.isSome_map]
    split
    next hsemicolon =>
      rw [behind_of_isPunct (Bool.and_eq_true_iff.mp (Bool.and_eq_true_iff.mp hsemicolon).1).1]
      exact .some ⟨h.addType keyword hid none, rfl⟩
    next =>
      split
      next hbrace =>
        rw [behind_of_isPunct hbrace]
        refine .some ⟨h.openType inTypedef hname (fun hno t ht => hfits.apart _ ?_) hts.2.1, rfl⟩
        rw [Extraction.typeHead?, hno, if_neg (by decide)] at hhead
        exact mem_comparedNames_of_head (isKeywordIn_of_not_enum hkeyword hno) hhead hbrace ht
      next => exact .none

/-- The name that a `typedef` declares, told from the tokens after the keyword. -/
def typedefName? (ts : List Token) : Option Token :=
  match Extraction.pointerAlias? ts with
  | some name => some name
  | none => if 1 < ts.length then ((commaParts ts).1.filter (·.isIdentifier)).getLast? else none

theorem plainTypedef_eq (x : Extraction) (ts : List Token) :
    x.plainTypedef ts =
      (x.addNames .typeAlias (typedefName? ((Head.read ts).tokens.drop 1)).toList, (Head.read ts).rest) := rfl

theorem isIdentifier_of_typedefName {ts : List Token} {t : Token} (h : typedefName? ts = some t) :
    t.isIdentifier = true := by
  unfold typedefName? at h
  split at h
  next hname => exact Option.some.inj h ▸ (Extraction.mem_of_pointerAlias hname).2
  next =>
    split at h
    · exact (List.mem_filter.mp (List.mem_of_getLast? h)).2
    · exact absurd h (by simp)

theorem typedefName_code (ts : List Token) : typedefName? (w.code ts) = (typedefName? ts).map w.token := by
  unfold typedefName?
  rw [pointerAlias_code]
  cases Extraction.pointerAlias? ts with
  | some name => rfl
  | none =>
    dsimp only [Option.map_none]
    rw [commaParts_code, getLast_isIdentifier_code]
    match ts with
    | [] => rfl
    | [t] =>
      rcases w.behind_cases t with ht | ⟨hk, -⟩
      · simp [ht]
      · -- an `enum` on its own is no name, with or without `class`
        have hparts : (commaParts [t]).1.filter (·.isIdentifier) = [] := by
          simp [commaParts, partsFrom, hk, Token.isIdentifier]
        rw [hparts]
        simp
    | t :: u :: rest =>
      have hlen : 1 < (w.code (t :: u :: rest)).length := by
        rcases w.behind_cases t with ht | ⟨-, ht⟩ <;> simp [ht]
      rw [if_pos hlen, if_pos (by simp)]

theorem agrees_plainTypedef (h : Follows w code x y) {first : Token} {k : Keyword} (hfirst : first.kind = .keyword k)
    (hk : k ≠ .enumKw) (ts : List Token) :
    Agrees w code (x.plainTypedef (first :: ts)) (y.plainTypedef (w.code (first :: ts))) := by
  have hhead : Head.read (first :: ts) = (Head.readFrom {} (some first) 0 ts).prepend [first] := by
    unfold Head.read
    rw [readFrom_eq, step_keyword hfirst]
  have htokens : (w.head ((Head.readFrom {} (some first) 0 ts).prepend [first])).tokens.drop 1 =
      w.code (Head.readFrom {} (some first) 0 ts).tokens := by
    rw [head_prepend, code_cons, behind_of_ne (by rw [hfirst]; simpa using hk)]
    rfl
  rw [plainTypedef_eq, plainTypedef_eq, read_code, hhead, htokens, typedefName_code]
  refine ⟨?_, rfl⟩
  show Follows w code (x.addNames .typeAlias (typedefName? (Head.readFrom {} (some first) 0 ts).tokens).toList) _
  cases hname : typedefName? (Head.readFrom {} (some first) 0 ts).tokens with
  | none => exact h
  | some t => exact h.addNames .typeAlias (show ∀ u ∈ [t], _ by simpa using isIdentifier_of_typedefName hname)

theorem agrees_typedefStatement (h : Follows w code x y) {first : Token} {k : Keyword} (hfirst : first.kind = .keyword k)
    (hk : k ≠ .enumKw) {ts : List Token} (hfits : Fits w ts) (hts : ts ⊆ code) :
    Agrees w code (x.typedefStatement (first :: ts)) (y.typedefStatement (w.code (first :: ts))) := by
  have hplain := agrees_plainTypedef h hfirst hk ts
  rw [code_cons, behind_of_ne (by rw [hfirst]; simpa using hk)] at hplain ⊢
  cases ts with
  | nil => exact hplain
  | cons keyword rest =>
    rw [code_cons] at hplain ⊢
    unfold Extraction.typedefStatement
    dsimp only
    rw [isKeywordIn_token]
    split
    next hkeyword => exact (agrees_typeStatement h true hkeyword hfits (List.cons_subset.mp hts).2).getD hplain
    next => exact hplain

/-! ## Enumerators and control flow -/

theorem afterEnumerator_behind (depth : Nat) (t : Token) (ts : List Token) :
    Extraction.afterEnumerator depth (w.behind t ts) = Extraction.afterEnumerator depth ts := by
  unfold behind
  split
  · simp [Extraction.afterEnumerator, Token.isOneOf, Token.isPunct, w.kind_inserted]
  · rfl

theorem afterEnumerator_code (depth : Nat) (ts : List Token) :
    Extraction.afterEnumerator depth (w.code ts) = w.code (Extraction.afterEnumerator depth ts) := by
  induction ts generalizing depth with
  | nil => rfl
  | cons t ts ih =>
    rw [code_cons, Extraction.afterEnumerator.eq_def, Extraction.afterEnumerator.eq_def depth (t :: ts)]
    simp only [isOneOf_token, isPunct_token, afterEnumerator_behind, ih]
    split
    · rfl
    split
    · rfl
    split
    · cases depth with
      | zero => rfl
      | succ depth => rfl
    split
    next hcomma => rw [behind_of_isPunct (Bool.and_eq_true_iff.mp hcomma).1]
    next => rfl

theorem agrees_enumeratorStatement (h : Follows w code x y) (t : Token) (ts : List Token) :
    Agrees w code (x.enumeratorStatement t ts) (y.enumeratorStatement (w.token t) (w.behind t (w.code ts))) := by
  refine ⟨?_, ?_⟩
  · unfold Extraction.enumeratorStatement
    dsimp only
    rw [isIdentifier_token]
    split
    next ht => exact h.addName .enumVariant ht
    next => exact h
  · exact (afterEnumerator_behind 0 t _).trans (afterEnumerator_code 0 ts)

theorem forInitializer_code (inside : List Token) :
    Extraction.forInitializer (w.code inside) = w.code (Extraction.forInitializer inside) := by
  unfold Extraction.forInitializer
  rw [partsFrom_code, partsFrom_code]
  dsimp only
  rw [List.isEmpty_map]
  split <;> rfl

theorem afterLabel_code (ts : List Token) : Extraction.afterLabel (w.code ts) = w.code (Extraction.afterLabel ts) := by
  have hblind : Blind w fun t => !t.isOneOf [.colon, .semicolon, .lbrace, .rbrace] := (blind_isOneOf _).not
  unfold Extraction.afterLabel
  rw [dropWhile_code hblind]
  cases ts.dropWhile (!·.isOneOf [.colon, .semicolon, .lbrace, .rbrace]) with
  | nil => rfl
  | cons t rest =>
    rw [code_cons]
    dsimp only
    rw [isPunct_token]
    split
    next ht => rw [behind_of_isPunct ht]
    next => rfl

theorem agrees_conditionStatement (h : Follows w code x y) (hdistinct : Distinct w code) (isFor : Bool)
    {ts : List Token} (hapart : ∀ s ∈ qualifiers ts, w.Apart s) (hts : ts ⊆ code) :
    Agrees w code (x.conditionStatement isFor ts) (y.conditionStatement isFor (w.code ts)) := by
  -- the optional `constexpr` is dropped in both
  have hstart : (if (w.code ts).head?.any (·.isKeyword .constexprKw) then (w.code ts).drop 1 else w.code ts) =
      w.code (if ts.head?.any (·.isKeyword .constexprKw) then ts.drop 1 else ts) := by
    rw [head_any_code (by simp)]
    split
    next hc => exact drop_code (by rintro t hk; simp [Token.isKeyword, hk]) hc
    next => rfl
  have hfrom : (if ts.head?.any (·.isKeyword .constexprKw) then ts.drop 1 else ts) ⊆ code := by
    split
    · exact List.Subset.trans (List.drop_subset _ _) hts
    · exact hts
  have hsuffix : (if ts.head?.any (·.isKeyword .constexprKw) then ts.drop 1 else ts) <:+ ts := by
    split
    · exact List.drop_suffix _ _
    · exact List.suffix_rfl
  unfold Extraction.conditionStatement
  rw [hstart]
  generalize (if ts.head?.any (·.isKeyword .constexprKw) then ts.drop 1 else ts) = us at hfrom hsuffix ⊢
  cases us with
  | nil => exact ⟨h, rfl⟩
  | cons t rest =>
    rw [code_cons]
    dsimp only
    rw [isPunct_token]
    split
    · exact ⟨h, rfl⟩
    next ht =>
      rw [behind_of_isPunct (by simpa using ht), parenthesised_code]
      cases he : parenthesised? rest with
      | none => exact ⟨h, rfl⟩
      | some e =>
        dsimp only [Option.map_some, enclosed]
        split
        · -- only a `for` declares something in its brackets
          have hinside : e.inside ⊆ code := by
            rw [enclosed?_append he, List.cons_subset, List.append_subset] at hfrom
            exact hfrom.2.1
          have hinfix : Extraction.forInitializer e.inside <:+: ts := by
            have hclosed := enclosed?_append he
            refine ((Extraction.forInitializer_isPrefix _).isInfix.trans ?_).trans hsuffix.isInfix
            exact ⟨[t], e.closer :: e.after, by rw [hclosed]; rfl⟩
          have hread := declaration_code h.current true
            (List.Subset.trans (Extraction.forInitializer_isPrefix e.inside).subset hinside)
            fun s hs => hapart s (qualifiers_subset hinfix hs)
          rw [forInitializer_code]
          generalize Declaration.read? x.current true (Extraction.forInitializer e.inside) = a at hread ⊢
          generalize Declaration.read? y.current true (w.code (Extraction.forInitializer e.inside)) = b
            at hread ⊢
          cases hread with
          | none => exact ⟨h, rfl⟩
          | function hfg => exact ⟨h.addFunction hdistinct hfg false, rfl⟩
          | «variables» specifiers htype hnames hparts =>
            exact ⟨h.addDeclaration hdistinct (.variables specifiers htype hnames hparts) false, rfl⟩
        · exact ⟨h, rfl⟩

theorem agrees_controlStatement (h : Follows w code x y) (hdistinct : Distinct w code) (keyword : Keyword)
    {ts : List Token} (hapart : ∀ s ∈ qualifiers ts, w.Apart s) (hts : ts ⊆ code) :
    AgreesIf w code (x.controlStatement? keyword ts) (y.controlStatement? keyword (w.code ts)) := by
  unfold Extraction.controlStatement?
  split
  case h_1 | h_2 | h_3 => exact .some ⟨h, rfl⟩
  case h_4 | h_5 => exact .some ⟨h, afterLabel_code ts⟩
  case h_6 => exact .some (agrees_conditionStatement h hdistinct true hapart hts)
  case h_7 | h_8 | h_9 | h_10 => exact .some (agrees_conditionStatement h hdistinct false hapart hts)
  case h_11 => exact .none

/-! ## Statements -/

theorem agrees_linkage (h : Follows w code x y) {ts : List Token} (hts : ts ⊆ code) :
    Agrees w code (x.linkage ts) (y.linkage (w.code ts)) := by
  unfold Extraction.linkage
  cases ts with
  | nil => exact ⟨h, rfl⟩
  | cons t rest =>
    rw [code_cons]
    dsimp only
    rw [isPunct_token]
    split
    next ht =>
      rw [behind_of_isPunct ht]
      exact ⟨h.openScope .linkage (by decide) (hts List.mem_cons_self), rfl⟩
    next => exact ⟨h, rfl⟩

theorem agrees_keywordStatement (h : Follows w code x y) (hdistinct : Distinct w code) {k : Keyword} {t : Token}
    (ht : t.kind = .keyword k) {rest : List Token} (hfits : Fits w (t :: rest)) (hts : t :: rest ⊆ code) :
    Agrees w code (x.keywordStatement k t rest) (y.keywordStatement k (w.token t) (w.behind t (w.code rest))) := by
  have hrest : rest ⊆ code := (List.cons_subset.mp hts).2
  -- a keyword that does not start a statement of its own, or not with what stands behind it
  have hother : Agrees w code
      (if x.inFunction then (x.controlStatement? k rest).getD (x.declarationOrExpression (t :: rest))
        else x.declarationOrExpression (t :: rest))
      (if y.inFunction then
          (y.controlStatement? k (w.behind t (w.code rest))).getD
            (y.declarationOrExpression (w.token t :: w.behind t (w.code rest)))
        else y.declarationOrExpression (w.token t :: w.behind t (w.code rest))) := by
    have hplain := agrees_declarationOrExpression h hdistinct (hfits.qualifiers_apart List.infix_rfl) hts
    rw [h.inFunction]
    split
    · by_cases hk : k = .enumKw
      · subst hk
        exact hplain
      · rw [code_cons] at hplain
        rw [behind_of_ne (by rw [ht]; simpa using hk)] at hplain ⊢
        have hinfix : rest <:+: t :: rest := (List.suffix_cons _ _).isInfix
        exact (agrees_controlStatement h hdistinct k (hfits.qualifiers_apart hinfix) hrest).getD hplain
    · exact hplain
  have hskip : Agrees w code (x, afterStatement (t :: rest))
      (y, afterStatement (w.token t :: w.behind t (w.code rest))) := ⟨h, afterStatement_code (t :: rest)⟩
  -- only behind `enum` a token is left out
  have hbehind : k ≠ .enumKw → w.behind t (w.code rest) = w.code rest := fun hk =>
    behind_of_ne (by rw [ht]; simpa using hk) _
  unfold Extraction.keywordStatement
  dsimp only
  split
  case h_19 => exact hother
  case h_1 =>
    rw [hbehind (by decide)] at hother ⊢
    rw [head_any_code (by simp)]
    split
    next hnext =>
      rw [drop_code (by rintro u hk; simp [Token.isKeyword, hk]) hnext]
      exact agrees_namespaceStatement h (List.Subset.trans (List.drop_subset _ _) hrest)
    next => exact hother
  case h_2 =>
    rw [hbehind (by decide)]
    exact agrees_namespaceStatement h hrest
  case h_3 => exact agrees_templateStatement h (by rw [ht]; simp) rest
  case h_4 => exact agrees_usingStatement h (by rw [ht]; simp) rest
  case h_5 => exact agrees_typedefStatement h ht (by decide) (hfits.of_suffix (List.suffix_cons _ _)) hrest
  case h_6 | h_7 | h_8 =>
    rw [hbehind (by decide)] at hother ⊢
    rw [head_any_code (by simp)]
    split
    next hnext =>
      rw [drop_code (by rintro u hk; simp [Token.isPunct, hk]) hnext]
      exact ⟨h, rfl⟩
    next => exact hother
  case h_9 =>
    have hliteral : ∀ u : Token, ((w.token u).isLiteral && (w.token u).text.head? == some (.scalar '"')) =
        (u.isLiteral && u.text.head? == some (.scalar '"')) := by
      intro u
      rw [isLiteral_token]
      cases hu : u.isLiteral with
      | false => rfl
      | true => rw [w.quoted_token u (beq_iff_eq.mp hu)]
    rw [hbehind (by decide)] at hother ⊢
    rw [head_any_code hliteral]
    split
    next hnext =>
      rw [drop_code (by rintro u hk; simp [Token.isLiteral, hk]) hnext]
      exact agrees_linkage h (List.Subset.trans (List.drop_subset _ _) hrest)
    next => exact hother
  case h_10 | h_11 | h_12 | h_13 | h_14 => exact hskip
  case h_15 | h_16 | h_17 | h_18 =>
    exact (agrees_typeStatement h false (by simp [Token.isKeywordIn, ht]) hfits hrest).getD hother

theorem agrees_statement (h : Follows w code x y) (hdistinct : Distinct w code) {t : Token} {rest : List Token}
    (hfits : Fits w (t :: rest)) (hts : t :: rest ⊆ code) :
    Agrees w code (x.statement t rest) (y.statement (w.token t) (w.behind t (w.code rest))) := by
  have hplain : Agrees w code
      (if x.current.kind == .enum then x.enumeratorStatement t rest else x.declarationOrExpression (t :: rest))
      (if y.current.kind == .enum then y.enumeratorStatement (w.token t) (w.behind t (w.code rest))
        else y.declarationOrExpression (w.token t :: w.behind t (w.code rest))) := by
    rw [h.current.kind]
    split
    · exact agrees_enumeratorStatement h t rest
    · exact agrees_declarationOrExpression h hdistinct (hfits.qualifiers_apart List.infix_rfl) hts
  unfold Extraction.statement
  rw [w.kind_token]
  cases hk : t.kind with
  | punct p =>
    have hbehind : w.behind t (w.code rest) = w.code rest := behind_of_ne (by rw [hk]; simp) _
    cases p with
    | rbrace =>
      rw [hbehind]
      exact agrees_closeScope h (by rw [Token.isPunct, hk]; rfl) hts
    | semicolon =>
      rw [hbehind]
      exact ⟨h, rfl⟩
    | lbrace =>
      rw [hbehind]
      exact ⟨h.openScope .block (by decide) (hts List.mem_cons_self), rfl⟩
    | _ => exact hplain
  | keyword k =>
    dsimp only
    rw [h.current.kind]
    split
    · exact agrees_enumeratorStatement h t rest
    · exact agrees_keywordStatement h hdistinct hk hfits hts
  | _ => exact hplain

/-- Reading rewritten code comes to the state that reading the code comes to. -/
theorem follows_run (h : Follows w code x y) (hdistinct : Distinct w code) {ts : List Token} (hfits : Fits w ts)
    (hts : ts ⊆ code) : Follows w code (x.run ts) (y.run (w.code ts)) := by
  induction hlen : ts.length using Nat.strongRecOn generalizing x y ts with
  | ind n ih =>
    subst hlen
    cases ts with
    | nil => simpa [Extraction.run] using h
    | cons t rest =>
      obtain ⟨hstate, hrest⟩ := agrees_statement h hdistinct hfits hts
      have hsuffix := Extraction.suffix_statement x t rest
      rw [code_cons, Extraction.run, Extraction.run, hrest]
      exact ih _ (Nat.lt_succ_of_le hsuffix.length_le) hstate
        (hfits.of_suffix (hsuffix.trans (List.suffix_cons t rest)))
        (List.Subset.trans (hsuffix.trans (List.suffix_cons t rest)).subset hts) rfl

/-- Before the first token. -/
theorem follows_initial (w : Rewriting) (code : List Token) :
    Follows w code (Extraction.initial ((code.getLast?.map (·.stop)).getD 0))
      (Extraction.initial (((w.code code).getLast?.map (·.stop)).getD 0)) where
  opened := rfl
  size := rfl
  scope := by
    rw [getLast_code]
    intro i s s' hs hs'
    cases i with
    | succ i => exact absurd hs (by simp [Extraction.initial])
    | zero =>
      obtain rfl := Option.some.inj hs
      obtain rfl := Option.some.inj hs'
      refine ⟨rfl, fun _ _ hname => (Option.some_ne_none _ hname.symm).elim,
        fun hclass => absurd (show ScopeKind.file = .class_ from hclass) (by decide), .none,
        .file ⟨rfl, rfl⟩ rfl, .inr ?_⟩
      cases hlast : code.getLast? with
      | none => exact .empty (List.getLast?_eq_none_iff.mp hlast) rfl rfl
      | some t => exact .token (List.mem_of_getLast? hlast) rfl rfl
  entities := .nil
  anomalies := rfl
  classNames := rfl
  namespaceNames := rfl

/-- The scopes that are open end where the code does. -/
theorem Follows.endOpened (h : Follows w code x y) (hopened : code = [] → x.opened = []) :
    Follows w code { x.endOpened ((code.getLast?.map (·.stop)).getD 0) with opened := [] }
      { y.endOpened (((w.code code).getLast?.map (·.stop)).getD 0) with opened := [] } := by
  rw [Extraction.endOpened_eq, Extraction.endOpened_eq, h.opened, getLast_code]
  refine { h with opened := rfl, size := ?_, scope := fun i s s' hs hs' => ?_ }
  · dsimp only
    rw [Extraction.size_endScopes, Extraction.size_endScopes, h.size]
  · dsimp only at hs hs'
    rw [Extraction.getElem?_endScopes] at hs hs'
    by_cases hi : i ∈ x.opened
    · rw [if_pos hi] at hs hs'
      obtain ⟨s₀, hs₀, rfl⟩ := Option.map_eq_some_iff.mp hs
      obtain ⟨s₀', hs₀', rfl⟩ := Option.map_eq_some_iff.mp hs'
      cases hlast : code.getLast? with
      | none =>
        rw [hopened (List.getLast?_eq_none_iff.mp hlast)] at hi
        exact absurd hi List.not_mem_nil
      | some t => exact (h.scope i s₀ s₀' hs₀ hs₀').ended (List.mem_of_getLast? hlast) _
    · rw [if_neg hi] at hs hs'
      exact (h.scope i s s' hs hs').mono fun hopen => absurd hopen hi

end Rewriting

end HouseStyle
