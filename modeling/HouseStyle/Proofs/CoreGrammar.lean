import HouseStyle.Proofs.Layouts

/-!
# A core of the language

The declarations that are left of C++ when every type is fundamental and nothing is a template: namespaces,
classes, enumerations, functions with bodies of declarations and blocks, and variables. `Items` are their
syntax trees, and `Items.symbols` is how they are written. What may stand where depends on the `Region`
around it: there are functions in classes, but no bodies, and no classes in functions.

Every name in a program declares something, and `Symbol.name` carries what: the method, the constant or
whatever else the production makes of it. So `declared` reads off the symbols what a program declares, at
which of the tokens that spell it.
-/

namespace HouseStyle.Core

/-! ## Types, variables and functions -/

/-- Where a declaration stands. -/
inductive Region where
  /-- In a namespace, or in the file itself. -/
  | outer
  | class_
  /-- In the body of a function. -/
  | body
  deriving DecidableEq

/-- A word of the name of a fundamental type. -/
abbrev TypeWord := { k : Keyword // k.isTypeName = true }

/-- A fundamental type, or a pointer to one. -/
structure PlainType where
  isConst : Bool
  first : TypeWord
  more : List TypeWord
  stars : Nat

namespace PlainType

/-- The words of a type as it is written. -/
def words (t : PlainType) : List Keyword :=
  (if t.isConst then [.constKw] else []) ++ t.first.1 :: t.more.map (·.1)

/-- A type as it is written. -/
def symbols (t : PlainType) : List Symbol := t.words.map .keyword ++ List.replicate t.stars (.sign .star)

/-- An object of the type cannot be changed. What the word `const` is about is a pointer's target. -/
def isConstant (t : PlainType) : Bool := t.isConst && t.stars == 0

end PlainType

/-- A word in front of the type of a variable. -/
inductive StorageWord where
  | static
  | constexpr
  deriving DecidableEq

/-- The keyword that it is. -/
def StorageWord.keyword : StorageWord → Keyword
  | .static => .staticKw
  | .constexpr => .constexprKw

/-- A variable. -/
structure VariableDecl where
  storage : List StorageWord
  type : PlainType
  name : Name
  initializer : Option Numeral

namespace VariableDecl

/-- A variable is a constant if it is `constexpr`, or constant in a namespace, or constant and static in a
class. -/
def kind (region : Region) (v : VariableDecl) : EntityKind :=
  if .constexpr ∈ v.storage ∨ v.type.isConstant ∧ region = .outer ∨
      v.type.isConstant ∧ region = .class_ ∧ .static ∈ v.storage then .constant
  else .variable_

/-- The initializer of a variable as it is written. -/
def initializerSymbols (v : VariableDecl) : List Symbol :=
  match v.initializer with
  | none => []
  | some n => [.sign .eq, .number n]

/-- A variable as it is written. -/
def symbols (region : Region) (v : VariableDecl) : List Symbol :=
  v.storage.map (.keyword ·.keyword) ++ v.type.symbols ++
    .name v.name (v.kind region) :: v.initializerSymbols

end VariableDecl

/-- A parameter of a function. -/
structure ParameterDecl where
  type : PlainType
  name : Name

/-- A parameter as it is written. -/
def ParameterDecl.symbols (p : ParameterDecl) : List Symbol := p.type.symbols ++ [.name p.name .parameter]

/-- A function without its body. -/
structure Signature where
  type : PlainType
  name : Name
  parameters : List ParameterDecl

namespace Signature

/-- The parameters of a function as they are written. -/
def parameterSymbols (f : Signature) : List Symbol :=
  match f.parameters with
  | [] => []
  | p :: ps => p.symbols ++ ps.flatMap fun p => .sign .comma :: p.symbols

/-- What a function is in a region. -/
def kind (region : Region) : EntityKind := if region = .class_ then .method else .function

/-- A function as it is written in a region, without its body. -/
def symbols (region : Region) (f : Signature) : List Symbol :=
  f.type.symbols ++ .name f.name (kind region) :: .sign .lparen :: (f.parameterSymbols ++ [.sign .rparen])

end Signature

/-- An enumeration. -/
structure EnumDecl where
  isScoped : Bool
  name : Name
  first : Name
  more : List Name

namespace EnumDecl

/-- The names of an enumeration behind the first one as they are written. -/
def moreVariants (ns : List Name) : List Symbol := ns.flatMap fun n => [.sign .comma, .name n .enumVariant]

/-- The names of an enumeration as they are written. -/
def variantSymbols (e : EnumDecl) : List Symbol := .name e.first .enumVariant :: moreVariants e.more

/-- The word behind `enum`, if there is one. -/
def scopedSymbols (e : EnumDecl) : List Symbol := if e.isScoped then [.keyword .classKw] else []

/-- What stands in front of the braces of an enumeration. -/
def headSymbols (e : EnumDecl) : List Symbol := .keyword .enumKw :: (e.scopedSymbols ++ [.name e.name .enum])

end EnumDecl

/-- What stands in front of the braces of a class. -/
def classSymbols (isStruct : Bool) (name : Name) : List Symbol :=
  [.keyword (if isStruct then .structKw else .classKw), .name name (if isStruct then .struct_ else .class_)]

/-! ## Programs -/

/-- Declarations one after another, and the blocks among them in the body of a function. -/
inductive Items : Region → Type where
  | nil {region : Region} : Items region
  | variable_ {region : Region} (v : VariableDecl) (rest : Items region) : Items region
  | prototype {region : Region} (hregion : region ≠ .body) (f : Signature) (rest : Items region) :
    Items region
  | function (f : Signature) (body : Items .body) (rest : Items .outer) : Items .outer
  | namespace_ (name : Name) (inner rest : Items .outer) : Items .outer
  | class_ {region : Region} (hregion : region ≠ .body) (isStruct : Bool) (name : Name)
    (members : Items .class_) (rest : Items region) : Items region
  | enum {region : Region} (hregion : region ≠ .body) (e : EnumDecl) (rest : Items region) : Items region
  | block (inner rest : Items .body) : Items .body

/-- Symbols in braces, with what stands in front of them. -/
def braced (front inside : List Symbol) : List Symbol := front ++ .sign .lbrace :: (inside ++ [.sign .rbrace])

/-- Declarations as they are written. -/
def Items.symbols : {region : Region} → Items region → List Symbol
  | _, .nil => []
  | region, .variable_ v rest => v.symbols region ++ [.sign .semicolon] ++ rest.symbols
  | region, .prototype _ f rest => f.symbols region ++ [.sign .semicolon] ++ rest.symbols
  | _, .function f body rest => braced (f.symbols .outer) body.symbols ++ rest.symbols
  | _, .namespace_ name inner rest =>
    braced [.keyword .namespaceKw, .name name .namespace_] inner.symbols ++ rest.symbols
  | _, .class_ _ isStruct name members rest =>
    braced (classSymbols isStruct name) members.symbols ++ [.sign .semicolon] ++ rest.symbols
  | _, .enum _ e rest => braced e.headSymbols e.variantSymbols ++ [.sign .semicolon] ++ rest.symbols
  | _, .block inner rest => braced [] inner.symbols ++ rest.symbols

/-- A whole program. -/
abbrev Program := Items .outer

/-- What is declared, its name, and the token that declares it. -/
abbrev Mark := EntityKind × Text × Token

/-- What symbols declare at the tokens that spell them. -/
def declared (symbols : List Symbol) (ts : List Token) : List Mark :=
  (symbols.zip ts).filterMap fun
    | (.name n kind, t) => some (kind, n.1, t)
    | _ => none

/-! ## Spelled symbols -/

section

variable {s : Symbol} {front back symbols : List Symbol} {t : Token} {ts us : List Token}

theorem spells_nil_iff : Spells ts [] ↔ ts = [] := List.map_eq_nil_iff

theorem spells_cons_iff :
    Spells ts (s :: symbols) ↔
      ∃ t us, ts = t :: us ∧ t.kind = s.kind ∧ t.text = s.text ∧ Spells us symbols := by
  unfold Spells
  rw [List.map_cons, List.map_eq_cons_iff]
  simp only [Prod.mk.injEq, and_assoc]

theorem spells_append_iff :
    Spells ts (front ++ back) ↔ ∃ us vs, ts = us ++ vs ∧ Spells us front ∧ Spells vs back := by
  unfold Spells
  rw [List.map_append, List.map_eq_append_iff]

theorem Spells.length_eq (h : Spells ts symbols) : ts.length = symbols.length := by
  have := congrArg List.length h
  rwa [List.length_map, List.length_map] at this

/-- What is spelled has the kinds of the symbols. -/
theorem Spells.kinds (h : Spells ts symbols) : ts.map (·.kind) = symbols.map (·.kind) := by
  have := congrArg (List.map Prod.fst) h
  rwa [List.map_map, List.map_map] at this

@[simp] theorem declared_nil (symbols : List Symbol) : declared symbols [] = [] := by
  unfold declared
  rw [List.zip_nil_right]
  rfl

@[simp] theorem declared_name (n : Name) (kind : EntityKind) :
    declared (.name n kind :: symbols) (t :: ts) = (kind, n.1, t) :: declared symbols ts := rfl

@[simp] theorem declared_keyword (k : Keyword) :
    declared (.keyword k :: symbols) (t :: ts) = declared symbols ts := rfl

@[simp] theorem declared_sign (s : Sign) :
    declared (.sign s :: symbols) (t :: ts) = declared symbols ts := rfl

/-- Where no name is there is no declaration. -/
theorem declared_eq_nil (h : ∀ s ∈ symbols, ∀ n kind, s ≠ .name n kind) (ts : List Token) :
    declared symbols ts = [] := by
  refine List.filterMap_eq_nil_iff.mpr fun p hp => ?_
  obtain ⟨s, t⟩ := p
  have hs := h s (List.of_mem_zip hp).1
  cases s with
  | name n kind => exact absurd rfl (hs n kind)
  | _ => rfl

theorem declared_append (h : Spells ts front) :
    declared (front ++ back) (ts ++ us) = declared front ts ++ declared back us := by
  unfold declared
  rw [List.zip_append h.length_eq.symm, List.filterMap_append]

/-- Each declaration has a token of its own, in the order of the tokens. -/
theorem declared_sublist (symbols : List Symbol) (ts : List Token) :
    ((declared symbols ts).map (·.2.2)).Sublist ts := by
  induction symbols generalizing ts with
  | nil => exact List.nil_sublist ts
  | cons s symbols ih =>
    cases ts with
    | nil => simp
    | cons t ts =>
      cases s with
      | name n kind => exact (ih ts).cons_cons t
      | _ => exact (ih ts).cons t

theorem declared_type (type : PlainType) (ts : List Token) : declared type.symbols ts = [] := by
  refine declared_eq_nil (fun s hs => ?_) ts
  rcases List.mem_append.mp hs with hs | hs
  · obtain ⟨k, -, rfl⟩ := List.mem_map.mp hs
    exact nofun
  · rw [List.eq_of_mem_replicate hs]
    exact nofun

end

end HouseStyle.Core
