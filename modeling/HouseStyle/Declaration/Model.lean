import HouseStyle.Declaration.Declarator

/-!
# The declaration model of a file

What a file declares, and the tree of scopes it is declared in. Scopes are known by their index;
scope 0 is the file itself.
-/

namespace HouseStyle

/-- What a scope encloses. -/
inductive ScopeKind where
  | file
  | namespace_
  /-- An `extern` block with a language. -/
  | linkage
  | class_
  | enum
  | function
  | block
  deriving DecidableEq, Repr

namespace ScopeKind

/-- Names declared in such a scope are visible at namespace level. -/
def isNamespaceLevel (k : ScopeKind) : Bool := k == .file || k == .namespace_ || k == .linkage

/-- Names declared in such a scope are local to a function. -/
def isLocal (k : ScopeKind) : Bool := k == .function || k == .block

end ScopeKind

/-- A scope, with the offsets at which it starts and ends. -/
structure Scope where
  kind : ScopeKind
  name : Option Text
  parent : Option Nat
  start : Nat
  stop : Nat
  /-- Closing this scope also closes its parent, as in `namespace a::b`. -/
  chained : Bool
  /-- The declarators after its closing brace name types, as in `typedef struct`. -/
  trailingAlias : Bool
  deriving DecidableEq, Repr

/-- What an entity is. -/
inductive EntityKind where
  | class_
  | struct_
  | enum
  | enumVariant
  | function
  | method
  | variable_
  | parameter
  | constant
  | namespace_
  | templateParameter
  | macro_
  | typeAlias
  deriving DecidableEq, Repr

/-- The word for a kind of entity. -/
def EntityKind.label : EntityKind → String
  | .class_ => "class"
  | .struct_ => "struct"
  | .enum => "enum"
  | .enumVariant => "enum_variant"
  | .function => "function"
  | .method => "method"
  | .variable_ => "variable"
  | .parameter => "parameter"
  | .constant => "constant"
  | .namespace_ => "namespace"
  | .templateParameter => "template_parameter"
  | .macro_ => "macro"
  | .typeAlias => "type_alias"

/-- A declared name. -/
structure Entity where
  kind : EntityKind
  name : Text
  /-- The token that declares it. -/
  token : Token
  /-- The scope it is declared in. -/
  scope : Nat
  isConst : Bool := false
  isStatic : Bool := false
  isConstexpr : Bool := false
  isScopedEnum : Bool := false
  /-- A constructor, a destructor or an operator, whose name is not free. -/
  isSpecial : Bool := false
  isOverride : Bool := false
  storage : Option Storage := none
  typeText : Text := []
  initializer : Text := []
  parameters : List Parameter := []
  isDefinition : Bool := false
  /-- The segments in front of a qualified name. -/
  qualifier : List Text := []
  confidence : Confidence := .high
  /-- The `class`, `struct` or `enum` that introduces it. -/
  keyword : Option Token := none
  /-- The scope that its braces or its parameter list open. -/
  bodyScope : Option Nat := none
  deriving DecidableEq, Repr

namespace Entity

/-- The offset of its name. -/
def start (e : Entity) : Nat := e.token.start

/-- The offset just past its name. -/
def stop (e : Entity) : Nat := e.token.stop

/-- What its name is qualified with, as it is written. -/
def qualifierText (e : Entity) : Option Text :=
  if e.qualifier.isEmpty then none else some (Text.join (Text.ofString "::") e.qualifier)

@[simp]
theorem isSome_qualifierText (e : Entity) : e.qualifierText.isSome = !e.qualifier.isEmpty := by
  cases h : e.qualifier.isEmpty <;> simp [qualifierText, h]

/-- The order of entities in a model: by offset, then by the word for their kind. -/
def precedes (a b : Entity) : Bool :=
  a.start < b.start || (a.start == b.start && decide (a.kind.label ≤ b.kind.label))

end Entity

/-- The declared names of one file and the scopes they live in. -/
structure Model where
  entities : List Entity
  scopes : Array Scope
  /-- The first and the last token of each stretch that was not understood. -/
  anomalies : List (Token × Token)
  deriving Repr

namespace Model

/-- A scope and the scopes around it, innermost first. `room` bounds how many there may be. -/
def chainFrom (scopes : Array Scope) : (room : Nat) → Nat → List Nat
  | 0, _ => []
  | room + 1, i =>
    i :: match scopes[i]?.bind (·.parent) with
      | some p => chainFrom scopes room p
      | none => []

/-- The indices of a scope and of the scopes around it, ending at the file. -/
def chain (m : Model) (i : Nat) : List Nat := chainFrom m.scopes m.scopes.size i

/-- The scope with an index. -/
def scope? (m : Model) (i : Nat) : Option Scope := m.scopes[i]?

/-- The entities declared directly in a scope. -/
def entitiesIn (m : Model) (i : Nat) : List Entity := m.entities.filter (·.scope == i)

/-- The entities of that name. -/
def entitiesNamed (m : Model) (name : Text) : List Entity := m.entities.filter (·.name == name)

/-- Whether a name can be seen only inside one function: a parameter, or a name declared in a
function body. All scopes on the way outward are there (`WellScoped.exists_scope_of_mem_chain`). -/
def isLocal (m : Model) (e : Entity) : Bool :=
  e.kind == .parameter || (m.chain e.scope).any fun i => (m.scope? i).any (·.kind.isLocal)

end Model

end HouseStyle
