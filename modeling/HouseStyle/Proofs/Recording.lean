import HouseStyle.Proofs.Steps

/-!
# What one step records

For each step of reading (`Extraction.Takes`) this file says what it makes of the entities, of the
scopes and of the scopes that are open. Nothing that has been recorded is changed afterwards, but for
the ends of the scopes that are left.

- `addFunction_eq`: the parameters of a function are recorded before the function itself.
- `openType_eq`, `openNamespaces_cons`: a type or a namespace comes with its scope.
- `leave_eq`: leaving a scope ends some of the open ones, the innermost first.
-/

namespace HouseStyle

namespace Extraction

variable (x : Extraction)

@[simp] theorem entities_add (e : Entity) : (x.add e).entities.toList = x.entities.toList ++ [e] :=
  Array.toList_push

/-- The entity of a variable. -/
def variableEntity (x : Extraction) (specifiers : Specifiers) (type : List Token) (typeName : Text)
    (d : Declarator) : Entity :=
  let typeTokens := type ++ d.operators
  let isConst := isConstObject typeTokens
  let written := if type.isEmpty then typeName ++ joinedText d.operators else joinedText typeTokens
  { kind := variableKind x.current.kind specifiers d isConst
    name := d.name.text, token := d.name, scope := x.currentIndex, isConst
    isStatic := specifiers.isStatic, isConstexpr := specifiers.isConstexpr
    storage := specifiers.storage
    typeText := if d.isArray then written ++ Text.ofString "[]" else written
    initializer := joinedText d.initializer, qualifier := d.qualifier
    confidence := d.confidence }

/-! ## Functions -/

/-- The tokens of the parameter list of a function; one that is not closed takes all. -/
def parameterTokens (f : FunctionHead) : List Token :=
  ((parenthesised? f.afterOpener).map (·.inside)).getD f.afterOpener

/-- Where the scope of a function ends as long as no body follows. -/
def parameterStop (f : FunctionHead) : Nat :=
  (((parenthesised? f.afterOpener).map (·.closer)).getD (f.afterOpener.getLast?.getD f.opener)).stop

/-- The entities of the parameters of a function. -/
def parameterEntities (index : Nat) (parameters : List Parameter) : List Entity :=
  parameters.filterMap fun p => p.name.map fun name =>
    { kind := .parameter, name := name.text, token := name, scope := index
      typeText := p.typeText, isConst := p.isConst, confidence := p.confidence }

/-- The entity of a function. -/
def functionEntity (x : Extraction) (f : FunctionHead) (hasBody : Bool) : Entity :=
  { kind := x.functionKind f.qualifier
    name := f.display, token := f.name, scope := x.currentIndex
    isStatic := f.specifiers.isStatic, isConstexpr := f.specifiers.isConstexpr
    isSpecial := f.isSpecial
    isOverride := (((parenthesised? f.afterOpener).map (·.after)).getD []).any fun t =>
      t.isWord "override" || t.isWord "final"
    storage := f.specifiers.storage, typeText := joinedText f.type
    parameters := Parameter.readAll (parameterTokens f)
    isDefinition := hasBody, qualifier := f.qualifier, bodyScope := some x.scopes.size }

/-- Parameters are recorded one after another, and nothing else is. -/
theorem foldl_addParameter (index : Nat) {record : Extraction → Parameter → Extraction}
    (hnone : ∀ y p, p.name = none → record y p = y)
    (hsome : ∀ y p name, p.name = some name → record y p = y.add
      { kind := .parameter, name := name.text, token := name, scope := index
        typeText := p.typeText, isConst := p.isConst, confidence := p.confidence })
    (parameters : List Parameter) (y : Extraction) :
    parameters.foldl record y =
      { y with entities := y.entities ++ (parameterEntities index parameters).toArray } := by
  induction parameters generalizing y with
  | nil => simp [parameterEntities]
  | cons p parameters ih =>
    rw [List.foldl_cons, ih]
    unfold parameterEntities
    rw [List.filterMap_cons]
    cases hp : p.name with
    | none =>
      rw [hnone y p hp]
      rfl
    | some name =>
      rw [hsome y p name hp]
      simp only [add, Option.map_some, Extraction.mk.injEq, and_true, true_and]
      rw [← Array.toList_inj]
      simp

theorem addFunction_eq (f : FunctionHead) (hasBody : Bool) :
    x.addFunction f hasBody =
      { x with
        scopes := x.scopes.push ⟨.function, some f.display, some x.currentIndex, f.opener.start,
          parameterStop f, false, false⟩
        opened := if hasBody then x.scopes.size :: x.opened else x.opened
        entities := (x.entities ++ (parameterEntities x.scopes.size
          (Parameter.readAll (parameterTokens f))).toArray).push (functionEntity x f hasBody) } := by
  unfold addFunction
  dsimp only
  rw [foldl_addParameter x.scopes.size]
  · cases hasBody <;> rfl
  · intro y p hp
    simp only [hp]
  · intro y p name hp
    simp only [hp]

/-- The parameters of a function are recorded before it. -/
theorem entities_addFunction (f : FunctionHead) (hasBody : Bool) :
    (x.addFunction f hasBody).entities.toList =
      x.entities.toList ++ parameterEntities x.scopes.size (Parameter.readAll (parameterTokens f)) ++
        [functionEntity x f hasBody] := by
  rw [addFunction_eq]
  simp

theorem scopes_addFunction (f : FunctionHead) (hasBody : Bool) :
    (x.addFunction f hasBody).scopes =
      x.scopes.push ⟨.function, some f.display, some x.currentIndex, f.opener.start, parameterStop f,
        false, false⟩ := by
  rw [addFunction_eq]

theorem opened_addFunction (f : FunctionHead) (hasBody : Bool) :
    (x.addFunction f hasBody).opened = if hasBody then x.scopes.size :: x.opened else x.opened := by
  rw [addFunction_eq]

/-! ## Types and namespaces -/

/-- The entity that the head of a class or an enumeration declares, if it has a name of its own. -/
def typeEntity? (x : Extraction) (keyword : Token) (head : TypeHead) (bodyScope : Option Nat) :
    Option Entity :=
  if head.isSpecialization then none
  else
    head.name.map fun name =>
      { kind := if keyword.isKeyword .enumKw then .enum
          else if keyword.isKeyword .classKw then .class_ else .struct_
        name := name.text, token := name, scope := x.currentIndex
        isScopedEnum := head.isScopedEnum, keyword := some keyword, bodyScope }

theorem addType_eq (keyword : Token) (head : TypeHead) (bodyScope : Option Nat) :
    x.addType keyword head bodyScope =
      { x with entities := x.entities ++ (x.typeEntity? keyword head bodyScope).toArray } := by
  unfold addType typeEntity?
  cases head.name <;> cases head.isSpecialization <;> simp [add]

theorem entities_addType (keyword : Token) (head : TypeHead) (bodyScope : Option Nat) :
    (x.addType keyword head bodyScope).entities.toList =
      x.entities.toList ++ (x.typeEntity? keyword head bodyScope).toList := by
  rw [addType_eq]
  simp

/-- A type is declared, its scope is entered, and the name of a class is noted. -/
theorem openType_eq_addType (inTypedef : Bool) (keyword : Token) (head : TypeHead) :
    x.openType inTypedef keyword head =
      { x.addType keyword head (some x.scopes.size) with
        scopes := x.scopes.push ⟨if keyword.isKeyword .enumKw then .enum else .class_,
          head.name.map (·.text), some x.currentIndex, head.terminator.start, head.terminator.start,
          false, inTypedef⟩
        opened := x.scopes.size :: x.opened
        classNames := (if keyword.isKeyword .enumKw || head.isSpecialization then []
          else (head.name.map (·.text)).toList) ++ x.classNames } := by
  unfold openType addType
  cases hname : head.name with
  | none => cases keyword.isKeyword .enumKw <;> cases head.isSpecialization <;> rfl
  | some name => cases keyword.isKeyword .enumKw <;> cases head.isSpecialization <;> rfl

/-- The scope of a class or an enumeration, entered. -/
theorem openType_eq (inTypedef : Bool) (keyword : Token) (head : TypeHead) :
    ∃ classNames, x.openType inTypedef keyword head =
      { x with
        scopes := x.scopes.push ⟨if keyword.isKeyword .enumKw then .enum else .class_,
          head.name.map (·.text), some x.currentIndex, head.terminator.start, head.terminator.start,
          false, inTypedef⟩
        opened := x.scopes.size :: x.opened
        entities := x.entities ++ (x.typeEntity? keyword head (some x.scopes.size)).toArray
        classNames } := by
  rw [openType_eq_addType, addType_eq]
  exact ⟨_, rfl⟩

theorem entities_openType (inTypedef : Bool) (keyword : Token) (head : TypeHead) :
    (x.openType inTypedef keyword head).entities.toList =
      x.entities.toList ++ (x.typeEntity? keyword head (some x.scopes.size)).toList := by
  obtain ⟨classNames, heq⟩ := openType_eq x inTypedef keyword head
  rw [heq]
  simp

/-- A namespace is declared, and its scope is entered, before the names inside it. -/
theorem openNamespaces_cons (chained : Bool) (start : Nat) (name : Token) (names : List Token) :
    ∃ namespaceNames, x.openNamespaces chained start (name :: names) =
      openNamespaces
        { x with
          scopes := x.scopes.push ⟨.namespace_, some name.text, some x.currentIndex, start, start,
            chained, false⟩
          opened := x.scopes.size :: x.opened
          entities := x.entities.push
            { kind := .namespace_, name := name.text, token := name, scope := x.currentIndex }
          namespaceNames } true start names :=
  ⟨name.text :: x.namespaceNames, rfl⟩

/-! ## Scopes that are left -/

/-- Some scopes with their ends set. -/
def endScopes (scopes : Array Scope) (indices : List Nat) (stop : Nat) : Array Scope :=
  indices.foldl (fun scopes i => scopes.modify i fun s => { s with stop }) scopes

@[simp] theorem size_endScopes (scopes : Array Scope) (indices : List Nat) (stop : Nat) :
    (endScopes scopes indices stop).size = scopes.size := by
  unfold endScopes
  induction indices generalizing scopes with
  | nil => rfl
  | cons i indices ih => rw [List.foldl_cons, ih, Array.size_modify]

/-- Only the ends of these scopes are changed. -/
theorem getElem?_endScopes (scopes : Array Scope) (indices : List Nat) (stop j : Nat) :
    (endScopes scopes indices stop)[j]? =
      if j ∈ indices then scopes[j]?.map fun s => { s with stop } else scopes[j]? := by
  unfold endScopes
  induction indices generalizing scopes with
  | nil => simp
  | cons i indices ih =>
    rw [List.foldl_cons, ih, Array.getElem?_modify]
    by_cases hj : j ∈ indices
    · rw [if_pos hj, if_pos (List.mem_cons_of_mem i hj)]
      split
      · cases scopes[j]? <;> rfl
      · rfl
    · rw [if_neg hj]
      by_cases hi : i = j
      · rw [if_pos hi, if_pos (hi ▸ List.mem_cons_self)]
      · rw [if_neg hi, if_neg (by simpa [hj] using Ne.symm hi)]

theorem foldl_endScope (indices : List Nat) (stop : Nat) :
    indices.foldl (·.endScope · stop) x = { x with scopes := endScopes x.scopes indices stop } := by
  induction indices generalizing x with
  | nil => rfl
  | cons i indices ih => rw [List.foldl_cons, ih]; rfl

theorem endOpened_eq (fileEnd : Nat) :
    x.endOpened fileEnd = { x with scopes := endScopes x.scopes x.opened fileEnd } :=
  foldl_endScope x x.opened fileEnd

variable {x}

theorem leave_go_eq {y : Extraction} {closed : Scope} {stop : Nat} {indices : List Nat}
    (h : leave.go stop x indices = some (closed, y)) :
    ∃ left kept, indices = left ++ kept ∧ left ≠ [] ∧
      y = { x with scopes := endScopes x.scopes left stop, opened := kept } := by
  induction indices generalizing x closed y with
  | nil => exact absurd h (by simp [leave.go])
  | cons i outer ih =>
    have hone : ∃ left kept, i :: outer = left ++ kept ∧ left ≠ [] ∧
        { x.endScope i stop with opened := outer } =
          { x with scopes := endScopes x.scopes left stop, opened := kept } :=
      ⟨[i], outer, rfl, by simp, rfl⟩
    unfold leave.go at h
    dsimp only at h
    split at h
    · -- the parents go too, if there are any
      cases hgo : leave.go stop { x.endScope i stop with opened := outer } outer with
      | none =>
        rw [hgo] at h
        obtain ⟨-, rfl⟩ := Prod.mk.inj (Option.some.inj h)
        exact hone
      | some r =>
        rw [hgo] at h
        obtain rfl := Option.some.inj h
        obtain ⟨left, kept, rfl, -, rfl⟩ := ih hgo
        exact ⟨i :: left, kept, rfl, by simp, rfl⟩
    · obtain ⟨-, rfl⟩ := Prod.mk.inj (Option.some.inj h)
      exact hone

/-- Leaving a scope ends some of the open ones, the innermost first. -/
theorem leave_eq {y : Extraction} {closed : Scope} {stop : Nat}
    (h : x.leave stop = some (closed, y)) :
    ∃ left kept, x.opened = left ++ kept ∧ left ≠ [] ∧
      y = { x with scopes := endScopes x.scopes left stop, opened := kept } :=
  leave_go_eq h

end Extraction

end HouseStyle
