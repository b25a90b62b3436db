import HouseStyle.Declaration.Head
import HouseStyle.Declaration.Model

/-!
# What one head declares

`Declaration.read?` decides what the head of a statement declares, if anything: a function, or
variables. It looks at nothing but the head and the scope it stands in.
-/

namespace HouseStyle

/-- The head of a function: its name, and its parameter list with what follows it. -/
structure FunctionHead where
  name : Token
  /-- The name as it is shown; that of a destructor or operator is more than its token. -/
  display : Text
  qualifier : List Text
  /-- The tokens of the return type. -/
  type : List Token
  isSpecial : Bool
  specifiers : Specifiers
  /-- The bracket that opens the parameter list. -/
  opener : Token
  /-- The tokens after that bracket, to the end of the head. -/
  afterOpener : List Token
  deriving DecidableEq, Repr

/-- What a head declares. -/
inductive Declaration where
  | function (head : FunctionHead)
  | variables (specifiers : Specifiers) (type : List Token) (declarators : List Declarator)
  deriving DecidableEq, Repr

namespace Keyword

/-- The keywords that begin an expression and no parameter. -/
def beginsExpression : Keyword → Bool
  | .thisKw | .nullptrKw | .trueKw | .falseKw | .newKw | .sizeofKw | .alignofKw | .typeidKw => true
  | _ => false

end Keyword

namespace Declaration

/-- The symbol of an operator, its parameter list's opening bracket and the tokens after that,
given the tokens after the word `operator`. -/
def operatorSymbol? (ts : List Token) : Option (Text × Token × List Token) :=
  match ts with
  | a :: b :: c :: rest =>
    if a.isPunct .lparen && b.isPunct .rparen && c.isPunct .lparen then
      some (a.text ++ b.text, c, rest)
    else upToBracket ts
  | _ => upToBracket ts
where
  /-- The text up to the next opening bracket; a semicolon or brace refuses it. -/
  upToBracket : List Token → Option (Text × Token × List Token)
    | [] => none
    | t :: ts =>
      if t.isPunct .lparen then some ([], t, ts)
      else if t.isOneOf [.semicolon, .lbrace, .rbrace] then none
      else (upToBracket ts).map fun (symbol, opener, rest) => (t.text ++ symbol, opener, rest)

/-- The head of an operator function whose word `operator` has been read. -/
def operator? (specifiers : Specifiers) (type : List Token) (word : Token) (ts : List Token) :
    Option Declaration :=
  (operatorSymbol? ts).map fun (symbol, opener, rest) =>
    .function {
      name := word, display := Text.ofString "operator" ++ symbol, qualifier := [], type
      isSpecial := true, specifiers, opener, afterOpener := rest }

/-- The head of a function without a return type: a conversion or other operator, a constructor
or a destructor. -/
def special? (scope : Scope) (specifiers : Specifiers) (ts : List Token) : Option Declaration :=
  match ts with
  | [] => none
  | t :: rest =>
    if t.isKeyword .operatorKw then operator? specifiers [] t rest
    else
      match qualifiedName? ts with
      | none => none
      | some name =>
        match name.rest with
        | [] => none
        | opener :: afterOpener =>
          let declared (qualifier : List Text) : Declaration :=
            .function {
              name := name.last, display := name.base, qualifier, type := [], isSpecial := true
              specifiers, opener, afterOpener }
          if !opener.isPunct .lparen then none
          else if name.base.head? == some (.scalar '~') then some (declared name.qualifier)
          else if name.qualifier.getLast? == some name.base then some (declared name.qualifier)
          else if name.qualifier.isEmpty && scope.kind == .class_ && scope.name == some name.base
            then some (declared [])
          else none

/-- Whether a part of a list in round brackets cannot be a parameter. -/
def isArgument (part : List Token) : Bool :=
  match part with
  | [] => false
  | t :: _ =>
    let unfit :=
      match t.kind with
      | .literal => true
      | .keyword k => k.beginsExpression
      | .punct p => !(p == .scope || p == .lbracket || p == .ellipsis)
      | _ => false
    unfit || (afterType? (afterSpecifiers part)).isNone

/-- Whether the brackets after a name hold the arguments of an initializer and not a parameter
list, given the tokens after the opening one. In a class they never do; inside a function they
always do. -/
def isDirectInitializer (scope : Scope) (inFunction : Bool) (afterOpener : List Token) : Bool :=
  if scope.kind == .class_ then false
  else if inFunction then true
  else
    match parenthesised? afterOpener with
    | none => false
    | some e => !e.inside.isEmpty && (allCommaParts e.inside).any isArgument

/-- Whether the tokens after a type start a declarator in round brackets. -/
def startsNested : List Token → Bool
  | t :: u :: rest =>
    t.isPunct .lparen &&
      (u.isOneOf [.star, .amp, .scope] || (u.isIdentifier && (rest.head?.any (·.isPunct .scope))))
  | _ => false

/-- The variables declared after a type, if any. -/
def variables? (specifiers : Specifiers) (type ts : List Token) : Option Declaration :=
  let declarators := Declarator.readAll ts
  if declarators.isEmpty then none else some (.variables specifiers type declarators)

/-- What the tokens after the specifiers and the type of a head declare. -/
def typed? (scope : Scope) (inFunction : Bool) (specifiers : Specifiers) (type ts : List Token) :
    Option Declaration :=
  match ts with
  | [] => none
  | t :: rest =>
    if t.isKeyword .operatorKw then operator? specifiers type t rest
    else if t.isPunct .scope && rest.head?.any (·.isKeyword .operatorKw) then
      match rest with
      | word :: after => operator? specifiers type word after
      | [] => none
    else if startsNested ts then variables? specifiers type ts
    else if !t.isIdentifier then none
    else
      match qualifiedName? ts with
      | none => none
      | some name =>
        match name.rest with
        | opener :: afterOpener =>
          if opener.isPunct .lparen && !isDirectInitializer scope inFunction afterOpener then
            some (.function {
              name := name.last, display := name.last.text, qualifier := name.qualifier, type
              isSpecial := false, specifiers, opener, afterOpener })
          else variables? specifiers type ts
        | [] => variables? specifiers type ts

/-- What a head declares in a scope; `inFunction` says that it stands in a function body. -/
def read? (scope : Scope) (inFunction : Bool) (head : List Token) : Option Declaration :=
  let (specifiers, ts) := specifiers head
  match special? scope specifiers ts with
  | some declaration => some declaration
  | none =>
    match afterType? ts with
    | none => none
    | some rest => typed? scope inFunction specifiers (tokensBefore ts rest) rest

end Declaration

end HouseStyle
