import HouseStyle.Declaration.TypeText
import HouseStyle.Rule.Naming

/-!
# Owning raw pointers

A raw pointer owns memory if it receives memory that has just been allocated or is released. The
rule looks for the first piece of evidence: in the initializer of the pointer, and then at every
use of its name where the pointer can be seen.
-/

namespace HouseStyle

/-- Whether an entity holds a value of its own. -/
def Entity.isObject (e : Entity) : Bool :=
  e.kind == .variable_ || e.kind == .parameter || e.kind == .constant

namespace OwnershipRule

/-- What is known about the rule. -/
def info : RuleInfo where
  id := "no-owning-raw-pointer"
  title := "Owning raw pointer"
  description := "A raw pointer that receives memory from new/malloc or is released with " ++
    "delete/free owns that memory; use std::unique_ptr, std::shared_ptr or a container instead."
  category := .resource
  severity := .warning
  example? := some "Widget* w = new Widget();  // -> auto w = std::make_unique<Widget>();\n"

/-- The functions that allocate memory. -/
def allocators : List String := ["malloc", "calloc", "realloc", "strdup"]

/-- Whether a word stands at the front of a text; the glyph `before` must not go on as part of it.
The answer is the text after it. -/
def afterWholeWord? (before : Option Glyph) (word : String) (t : Text) : Option Text :=
  if before.any TypeText.isWordGlyph then none else Text.dropLead? (Text.ofString word) t

/-- Whether an allocation starts at the front of a text, after the glyph `before`. -/
def allocatesAt (before : Option Glyph) (t : Text) : Bool :=
  (match afterWholeWord? before "new" t with
    | some rest => !rest.head?.any TypeText.isWordGlyph
    | none => false) ||
  allocators.any fun word =>
    match afterWholeWord? before word t with
    | some rest => (rest.dropWhile (Glyph.satisfies Blank.isBlank)).head? == some (.scalar '(')
    | none => false

/-- Whether the text of an initializer allocates memory. -/
def allocatesText (before : Option Glyph) : Text → Bool
  | [] => false
  | g :: t => allocatesAt before (g :: t) || allocatesText (some g) t

/-- The first token of a list that allocates memory. -/
def allocation? : List Token → Option Token
  | [] => none
  | t :: ts =>
    if t.isKeyword .newKw then some t
    else if allocators.any t.isWord && ts.head?.any (·.isPunct .lparen) then some t
    else allocation? ts

/-- The tokens of an expression: those up to a semicolon, a comma or a closing bracket of the
brackets around it. -/
def expression (depth : Nat) : List Token → List Token
  | [] => []
  | t :: ts =>
    if t.isOneOf [.lparen, .lbracket, .lbrace] then t :: expression (depth + 1) ts
    else if t.isOneOf [.rparen, .rbracket, .rbrace] then
      match depth with
      | 0 => []
      | depth + 1 => t :: expression depth ts
    else if t.isOneOf [.semicolon, .comma] && depth == 0 then []
    else t :: expression depth ts

/-- The first token that allocates memory in the expression after the next token. -/
def source? (after : List Token) : Option Token := allocation? (expression 0 (after.drop 1))

/-- The tokens before a use without those of `this->` and of `[]` next to it; all of them are read
backwards. -/
def withoutThis : List Token → List Token
  | p :: q :: before =>
    if p.isPunct .arrow && q.isKeyword .thisKw then before else p :: q :: before
  | before => before

/-- The tokens before a use without those of `[]` next to it. -/
def withoutBounds : List Token → List Token
  | p :: q :: before =>
    if p.isPunct .rbracket && q.isPunct .lbracket then before else p :: q :: before
  | before => before

/-- The token that releases the memory of a use: `delete` in front of it, or `free` when the use
alone is its argument. -/
def release? (before after : List Token) : Option Token :=
  match withoutBounds (withoutThis before) with
  | [] => none
  | p :: rest =>
    if p.isKeyword .deleteKw then some p
    else
      match rest with
      | [] => none
      | q :: _ =>
        if p.isPunct .lparen && q.isWord "free" && after.head?.any (·.isPunct .rparen) then some q
        else none

/-- What shows that a pointer owns memory, and the token that does. -/
structure Evidence where
  what : List Text
  token : Option Token
  deriving DecidableEq, Repr

/-- Whether a use of a name is one of the pointer itself, judged by the tokens before it, read
backwards: it is no member of another object than `this`. -/
def isOwnUse : List Token → Bool
  | [] => true
  | p :: before =>
    !p.isPunct .dot && !(p.isPunct .arrow && !before.head?.any (·.isKeyword .thisKw))

/-- The evidence of one use of a pointer, between the tokens before it, read backwards, and the
tokens after it. -/
def evidenceAt? (e : Entity) (isMember : Bool) (before : List Token) (use : Token)
    (after : List Token) : Option Evidence :=
  let assigned? :=
    if after.head?.any (·.isPunct .eq) && decide (e.token.start < use.start) then
      (source? after).map fun t => Evidence.mk ["assigned an allocation"] (some t)
    else none
  let initialized? :=
    if after.head?.any (·.isOneOf [.lparen, .lbrace]) && before.head?.any (·.isOneOf [.colon, .comma]) &&
        isMember then
      (source? after).map fun t => Evidence.mk ["initialized from an allocation"] (some t)
    else none
  let released? := (release? before after).map fun t =>
    Evidence.mk ["released with `", t.text, "`"] (some t)
  assigned?.or (initialized?.or released?)

/-- The first evidence among the uses of a pointer in a list of tokens; `before` are the tokens in
front of it, read backwards. -/
def evidenceFrom? (e : Entity) (isMember : Bool) (before : List Token) : List Token → Option Evidence
  | [] => none
  | t :: ts =>
    let here? :=
      if t.isIdentifier && t.text == e.name && isOwnUse before then
        evidenceAt? e isMember before t ts
      else none
    here?.or (evidenceFrom? e isMember (t :: before) ts)

/-- The tokens of the code where an entity can be seen: a data member everywhere, anything else in
the scope that declares it. An entity of the file has a scope
(`OwnershipRule.exists_visibleCode_eq`). -/
def visibleCode (f : SourceFile) (e : Entity) : List Token :=
  if f.model.isDataMember e then f.code
  else
    match f.model.scope? e.scope with
    | none => []
    | some s => f.code.filter fun t => s.start ≤ t.start && t.start < s.stop

/-- What shows that a pointer owns memory. -/
def evidence? (f : SourceFile) (e : Entity) : Option Evidence :=
  if allocatesText none e.initializer then some ⟨["initialized from an allocation"], none⟩
  else evidenceFrom? e (f.model.isDataMember e) [] (visibleCode f e)

/-- The violation of an entity, if it is a raw pointer that owns memory. -/
def checkEntity (f : SourceFile) (e : Entity) : Option Violation :=
  if !e.isObject || e.confidence == .low || !TypeText.isBarePointer e.typeText then none
  else
    (evidence? f e).map fun evidence =>
      let subject : List Text := ["Raw pointer `", e.name, "` (", e.typeText, ") owns memory: it is "]
      info.violation (subject ++ evidence.what ++ [Text.ofString "."])
        (f.tokenLocation e.token)
        (some ["use std::unique_ptr, std::shared_ptr or a standard container"]) [] false
        (evidence.token.map f.tokenLocation).toList

/-- The check. -/
def check (f : SourceFile) : List Violation := f.model.entities.filterMap (checkEntity f)

end OwnershipRule

end HouseStyle
