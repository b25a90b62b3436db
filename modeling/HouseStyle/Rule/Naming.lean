import HouseStyle.Name.Style
import HouseStyle.Rule.Basic

/-!
# Casing of names

Every declared name is written in the style of its kind. A violation suggests the name in that
style and renames every token of the old name in the file. The rename is applied without asking
only where it is safe: the new name is not in use, the old one stands for one kind of entity and is
not used in directives, and every use of it can mean that entity.
-/

namespace HouseStyle

namespace EntityKind

/-- The style in which the names of a kind are written. -/
def style : EntityKind → Style
  | .class_ | .struct_ | .enum | .enumVariant | .typeAlias | .templateParameter => .upperCamel
  | .function | .method | .variable_ | .parameter | .namespace_ => .lowerSnake
  | .constant | .macro_ => .upperSnake

/-- The words for a kind at the start of a message. -/
def heading : EntityKind → String
  | .class_ => "Class"
  | .struct_ => "Struct"
  | .enum => "Enum"
  | .enumVariant => "Enumerator"
  | .function => "Function"
  | .method => "Method"
  | .variable_ => "Variable"
  | .parameter => "Parameter"
  | .constant => "Constant"
  | .namespace_ => "Namespace"
  | .templateParameter => "Template parameter"
  | .macro_ => "Macro"
  | .typeAlias => "Type alias"

end EntityKind

/-- Whether an entity is a data member: a variable declared in a class, or one whose name is
qualified. An entity of the file has a scope (`Model.exists_isDataMember_eq`). -/
def Model.isDataMember (m : Model) (e : Entity) : Bool :=
  e.kind == .variable_ && (e.qualifierText.isSome || (m.scope? e.scope).any (·.kind == .class_))

namespace NamingRule

/-- What is known about the rule. -/
def info : RuleInfo where
  id := "naming-casing"
  title := "Identifier casing"
  description := "Types, enumerators and template parameters use UpperCamelCase; functions, " ++
    "variables, parameters and namespaces use lower_snake_case; constants and macros use " ++
    "UPPER_SNAKE_CASE."
  category := .naming
  severity := .error
  fixable := true
  example? := some "class http_server;      // -> HttpServer\nint MAX_count = 5;      // -> max_count\n"

/-- A glyph that starts a word of a directive. -/
def startsWord (g : Glyph) : Bool := g.satisfies fun c => c.isAlpha || c == '_'

/-- A glyph of a word of a directive. -/
def continuesWord (g : Glyph) : Bool := g.satisfies fun c => c.isAlphanum || c == '_'

/-- The words of ASCII letters, digits and underscores in a text; `word` has been read backwards,
and no word starts with a digit. -/
def wordsFrom (word : Text) : Text → List Text
  | [] => if word.isEmpty then [] else [word.reverse]
  | g :: t =>
    if word.isEmpty then if startsWord g then wordsFrom [g] t else wordsFrom [] t
    else if continuesWord g then wordsFrom (g :: word) t
    else word.reverse :: wordsFrom [] t

/-- The names that are used in a file, as far as a rename has to know them. -/
structure Uses where
  /-- The identifiers of the code. -/
  identifiers : List Text
  /-- The words of the directives. -/
  directiveWords : List Text
  /-- The names that may stand in front of a `::`. -/
  scopeNames : List Text
  deriving Repr

/-- The names under which other names are declared: of classes, enumerations and namespaces, of
scopes, and those that qualify an entity. -/
def declaringNames (m : Model) : List Text :=
  (m.entities.filter fun e =>
      e.kind == .class_ || e.kind == .struct_ || e.kind == .enum || e.kind == .namespace_).map (·.name)
    ++ m.scopes.toList.filterMap (·.name) ++ m.entities.flatMap (·.qualifier)

/-- The uses of names in a file. -/
def Uses.ofFile (f : SourceFile) : Uses where
  identifiers := (f.code.filter (·.isIdentifier)).map (·.text)
  directiveWords := f.directives.flatMap fun t => wordsFrom [] t.text
  scopeNames := declaringNames f.model

/-- Whether a name is left alone: it is allowed, it is not free to choose, or it was not read with
certainty. -/
def isExempt (config : NamingConfig) (e : Entity) : Bool :=
  (config.allow.map Text.ofString).contains e.name || e.isSpecial || e.isOverride ||
    (e.kind == .function && e.name == Text.ofString "main") ||
    (e.confidence == .low && !config.checkLowConfidence)

/-- Whether a use of a name can mean an entity, judged by the tokens before it, read backwards. A
member access reaches only members, and a qualified name only what is declared under a name of
this file. -/
def mayMean (isMember : Bool) (scopeNames : List Text) : List Token → Bool
  | [] => true
  | p :: before =>
    if p.isOneOf [.dot, .arrow, .dotStar, .arrowStar] then isMember
    else if p.isPunct .scope then
      match before with
      | [] => true
      | q :: _ =>
        if q.isIdentifier then scopeNames.contains q.text else !q.isPunct .greater
    else true

/-- Whether every use of a name among some tokens can mean one entity; `before` are the tokens in
front of them, read backwards. -/
def usesMayMean (name : Text) (isMember : Bool) (scopeNames : List Text) (before : List Token) :
    List Token → Bool
  | [] => true
  | t :: ts =>
    (!(t.isIdentifier && t.text == name) || mayMean isMember scopeNames before) &&
      usesMayMean name isMember scopeNames (t :: before) ts

/-- Whether all entities of a name are of one kind. -/
def hasOneKind (m : Model) (name : Text) : Bool :=
  match m.entitiesNamed name with
  | [] => false
  | e :: others => others.all (·.kind == e.kind)

/-- Whether an entity can be renamed in the whole file without asking. In a run over several files
only local names can. -/
def isSafe (f : SourceFile) (uses : Uses) (e : Entity) (newName : Text) : Bool :=
  let isMember := e.kind == .method || f.model.isDataMember e
  !(f.model.entitiesIn e.scope).any (·.name == newName) &&
    !uses.identifiers.contains newName && !uses.directiveWords.contains newName &&
    !uses.directiveWords.contains e.name && hasOneKind f.model e.name &&
    (!f.isOneOfMany || f.model.isLocal e) &&
    usesMayMean e.name isMember uses.scopeNames [] f.code

/-- The edits that give every token of a name another one. -/
def rename (code : List Token) (name newName : Text) : List Edit :=
  (code.filter fun t => t.isIdentifier && t.text == name).map fun t =>
    ⟨t.start, t.stop, newName⟩

/-- The violation of an entity, if its name is not written in its style. -/
def checkEntity (f : SourceFile) (uses : Uses) (e : Entity) : Option Violation :=
  let style := e.kind.style
  let isMember := f.model.isDataMember e
  let accepted :=
    if isMember || e.kind == .macro_ then style.acceptsTrailing e.name else style.accepts e.name
  if isExempt f.config.naming e || accepted then none
  else
    let newName? := if isMember then style.convertTrailing? e.name else style.convert? e.name
    let heading := if isMember then "Data member" else e.kind.heading
    let problem : List Text := [heading, " `", e.name, "` should be ", style.label]
    some <|
      match newName? with
      | none => info.violation (problem ++ [Text.ofString "."]) (f.tokenLocation e.token) none [] false []
      | some newName =>
        info.violation (problem ++ [Text.ofString " (`", newName, Text.ofString "`)."])
          (f.tokenLocation e.token) (some ["rename to `", newName, "`"])
          (rename f.code e.name newName) (isSafe f uses e newName) []

/-- The check. -/
def check (f : SourceFile) : List Violation :=
  let uses := Uses.ofFile f
  f.model.entities.filterMap (checkEntity f uses)

end NamingRule

end HouseStyle
