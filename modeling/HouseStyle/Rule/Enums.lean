import HouseStyle.Rule.Basic

/-!
# Unscoped enumerations

An enumeration should be an `enum class`. It is turned into one without asking only if no
enumerator of it is used without qualification, as far as the run can see.
-/

namespace HouseStyle.UnscopedEnumRule

/-- What is known about the rule. -/
def info : RuleInfo where
  id := "unscoped-enum"
  title := "Unscoped enum"
  description := "Plain enums leak their enumerators into the enclosing scope and convert to int; " ++
    "use `enum class`."
  category := .typeSafety
  severity := .warning
  fixable := true
  example? := some "enum Color { Red, Green };  // -> enum class Color { Red, Green };\n"

/-- The first token among some that uses one of the names outside a scope and is neither qualified
nor a member; `before` is the token in front. -/
def unqualifiedUse? (names : List Text) (body : Scope) (before : Option Token) :
    List Token → Option Token
  | [] => none
  | t :: ts =>
    if t.isIdentifier && names.contains t.text && !(body.start ≤ t.start && t.start < body.stop) &&
        !before.any (·.isOneOf [.scope, .dot, .arrow]) then some t
    else unqualifiedUse? names body (some t) ts

/-- The first use of an enumerator without qualification outside the braces of the enumeration. The
braces of an enumeration of the file have a scope (`UnscopedEnumRule.exists_leak_eq`). -/
def leak? (f : SourceFile) (bodyIndex : Nat) : Option Token :=
  match f.model.scope? bodyIndex with
  | none => none
  | some body =>
    let names := ((f.model.entitiesIn bodyIndex).filter (·.kind == .enumVariant)).map (·.name)
    if names.isEmpty then none else unqualifiedUse? names body none f.code

/-- Why an enumeration is not changed without asking, if there is a reason. -/
def obstacle? (f : SourceFile) (bodyIndex : Nat) : Option (List Text) :=
  match leak? f bodyIndex with
  | some use =>
    some ["enumerator `", use.text, "` is used unqualified on line ", Text.ofNat use.line]
  | none =>
    if f.isOneOfMany then some ["other files in this check may use its enumerators unqualified"]
    else none

/-- The violation of an entity, if it is an unscoped enumeration with braces. -/
def checkEntity (f : SourceFile) (e : Entity) : Option Violation :=
  if e.kind != .enum || e.isScopedEnum then none
  else
    match e.bodyScope, e.keyword with
    | some bodyIndex, some keyword =>
      let obstacle := obstacle? f bodyIndex
      let excuse : List Text :=
        match obstacle with
        | some reason => [Text.ofString " Not fixed automatically: "] ++ reason ++ [Text.ofString "."]
        | none => []
      let problem : List Text :=
        ["Enum `", e.name, "` is unscoped; declare it as `enum class ", e.name, "`."]
      some (info.violation (problem ++ excuse)
        (f.tokenLocation e.token) (some ["enum class ", e.name])
        [⟨keyword.stop, keyword.stop, Text.ofString " class"⟩] obstacle.isNone [])
    | _, _ => none

/-- The check. -/
def check (f : SourceFile) : List Violation := f.model.entities.filterMap (checkEntity f)

end HouseStyle.UnscopedEnumRule
