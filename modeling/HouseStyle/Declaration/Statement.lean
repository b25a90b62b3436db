import HouseStyle.Declaration.Reading

/-!
# Reading one statement

`Extraction.statement` reads the statement at the front of a list of tokens. It keeps the stack of
open scopes in step with the braces and records what is declared. Nothing is an error: what matches
no known shape is skipped up to the next boundary of a statement, and noted as an anomaly where
declarations were expected.

Each statement is a function from the tokens at hand to the new state and the tokens left over.
-/

namespace HouseStyle

/-- What has been read of a file so far. -/
structure Extraction where
  scopes : Array Scope
  /-- The scopes that are open inside the file, innermost first. -/
  opened : List Nat := []
  entities : Array Entity := #[]
  anomalies : Array (Token × Token) := #[]
  /-- The names of all classes that have been opened. -/
  classNames : List Text := []
  /-- The names of all namespaces and namespace aliases. -/
  namespaceNames : List Text := []
  deriving Repr

namespace Extraction

/-- Before the first token of a file that ends at an offset. -/
def initial (fileEnd : Nat) : Extraction :=
  { scopes := #[⟨.file, none, none, 0, fileEnd, false, false⟩] }

/-- The index of the innermost open scope. -/
def currentIndex (x : Extraction) : Nat := x.opened.headD 0

/-- The innermost open scope. -/
def current (x : Extraction) : Scope :=
  x.scopes.getD x.currentIndex ⟨.file, none, none, 0, 0, false, false⟩

/-- Whether reading stands inside a function. -/
def inFunction (x : Extraction) : Bool := x.current.kind.isLocal

/-- A new scope inside the current one, which is not entered yet. Its index is the number of
scopes before. -/
def addScope (x : Extraction) (kind : ScopeKind) (name : Option Text) (start stop : Nat)
    (chained trailingAlias : Bool) : Extraction :=
  { x with scopes := x.scopes.push ⟨kind, name, some x.currentIndex, start, stop, chained, trailingAlias⟩ }

/-- Enters a scope. -/
def enter (x : Extraction) (index : Nat) : Extraction := { x with opened := index :: x.opened }

/-- A new scope inside the current one, entered. -/
def openScope (x : Extraction) (kind : ScopeKind) (name : Option Text) (start : Nat) : Extraction :=
  (x.addScope kind name start start false false).enter x.scopes.size

/-- Sets where a scope ends. -/
def endScope (x : Extraction) (index stop : Nat) : Extraction :=
  { x with scopes := x.scopes.modify index fun s => { s with stop } }

/-- Records an entity. -/
def add (x : Extraction) (e : Entity) : Extraction := { x with entities := x.entities.push e }

/-- Records a name declared in the current scope, with nothing more known about it. -/
def addName (x : Extraction) (kind : EntityKind) (name : Token) : Extraction :=
  x.add { kind, name := name.text, token := name, scope := x.currentIndex }

/-- Records the names declared in the current scope. -/
def addNames (x : Extraction) (kind : EntityKind) (names : List Token) : Extraction :=
  names.foldl (·.addName kind ·) x

/-- Notes a stretch of tokens that was not understood. -/
def noteAnomaly (x : Extraction) (ts : List Token) : Extraction :=
  match ts.head?, ts.getLast? with
  | some first, some last => { x with anomalies := x.anomalies.push (first, last) }
  | _, _ => x

/-! ## Functions and variables -/

/-- The kind of a variable. A constant is `constexpr`, or constant at namespace level and not
qualified, or constant and static in a class; a name that is uncertain is no constant. -/
def variableKind (scope : ScopeKind) (specifiers : Specifiers) (d : Declarator) (isConst : Bool) :
    EntityKind :=
  if d.confidence == .high &&
      (specifiers.isConstexpr || (isConst && scope.isNamespaceLevel && d.qualifier.isEmpty) ||
        (isConst && specifiers.isStatic && scope == .class_)) then .constant
  else .variable_

/-- Records variables of a type. Variables that follow the brace of a class or enumeration have no
type tokens, and the name of that class stands for them. -/
def addVariables (x : Extraction) (specifiers : Specifiers) (type : List Token) (typeName : Text)
    (declarators : List Declarator) : Extraction :=
  declarators.foldl (fun x d =>
    let typeTokens := type ++ d.operators
    let isConst := isConstObject typeTokens
    let written := if type.isEmpty then typeName ++ joinedText d.operators else joinedText typeTokens
    x.add {
      kind := variableKind x.current.kind specifiers d isConst
      name := d.name.text, token := d.name, scope := x.currentIndex, isConst
      isStatic := specifiers.isStatic, isConstexpr := specifiers.isConstexpr
      storage := specifiers.storage
      typeText := if d.isArray then written ++ Text.ofString "[]" else written
      initializer := joinedText d.initializer, qualifier := d.qualifier
      confidence := d.confidence }) x

/-- The kind of a function. Outside a class a qualified name belongs to a class, unless the last
segment before it is known to name a namespace and no class. -/
def functionKind (x : Extraction) (qualifier : List Text) : EntityKind :=
  if x.current.kind == .class_ then .method
  else
    match qualifier.getLast? with
    | none => .function
    | some last =>
      if x.namespaceNames.contains last && !x.classNames.contains last then .function else .method

/-- Records a function and its parameters. Its scope starts at the parameter list; `hasBody` says
that a body follows, and then the scope is entered. -/
def addFunction (x : Extraction) (f : FunctionHead) (hasBody : Bool) : Extraction :=
  let closed := parenthesised? f.afterOpener
  let inside := (closed.map (·.inside)).getD f.afterOpener
  let trailer := (closed.map (·.after)).getD []
  let stop := ((closed.map (·.closer)).getD (f.afterOpener.getLast?.getD f.opener)).stop
  let index := x.scopes.size
  let parameters := Parameter.readAll inside
  let inner := x.addScope .function (some f.display) f.opener.start stop false false
  let withParameters := parameters.foldl (fun y p =>
    match p.name with
    | none => y
    | some name =>
      y.add { kind := .parameter, name := name.text, token := name, scope := index
              typeText := p.typeText, isConst := p.isConst, confidence := p.confidence }) inner
  let y := withParameters.add {
    kind := x.functionKind f.qualifier
    name := f.display, token := f.name, scope := x.currentIndex
    isStatic := f.specifiers.isStatic, isConstexpr := f.specifiers.isConstexpr
    isSpecial := f.isSpecial
    isOverride := trailer.any fun t => t.isWord "override" || t.isWord "final"
    storage := f.specifiers.storage, typeText := joinedText f.type, parameters
    isDefinition := hasBody, qualifier := f.qualifier, bodyScope := some index }
  if hasBody then y.enter index else y

/-- Records what a head declares. -/
def addDeclaration (x : Extraction) (d : Declaration) (hasBody : Bool) : Extraction :=
  match d with
  | .function f => x.addFunction f hasBody
  | .variables specifiers type declarators => x.addVariables specifiers type [] declarators

/-- A declaration or an expression. A body that is no function's is a block. -/
def declarationOrExpression (x : Extraction) (ts : List Token) : Extraction × List Token :=
  let head := Head.read ts
  let declared := Declaration.read? x.current x.inFunction head.tokens
  match head.ending, declared with
  | .body _, some (.function f) => (x.addFunction f true, head.rest)
  | .body brace, some d => ((x.addDeclaration d false).openScope .block none brace.start, head.rest)
  | .body brace, none => (x.openScope .block none brace.start, head.rest)
  | _, some d => (x.addDeclaration d false, head.rest)
  | _, none => (if x.inFunction then x else x.noteAnomaly head.tokens, head.rest)

/-! ## Scopes that close -/

/-- Leaves the innermost scope, and its parents as long as it is chained to them. The answer holds
the last scope that was left; none if only the file is open. -/
def leave (x : Extraction) (stop : Nat) : Option (Scope × Extraction) :=
  go x x.opened
where
  /-- The same with the open scopes given. -/
  go (x : Extraction) : List Nat → Option (Scope × Extraction)
    | [] => none
    | index :: outer =>
      let closed := x.scopes.getD index ⟨.file, none, none, 0, 0, false, false⟩
      let y := { x.endScope index stop with opened := outer }
      if closed.chained then (go y outer).orElse fun _ => some (closed, y)
      else some (closed, y)

/-- The declarators after the closing brace of a class or an enumeration. -/
def trailingDeclarators (x : Extraction) (closed : Scope) (ts : List Token) :
    Extraction × List Token :=
  match ts with
  | [] => (x, [])
  | t :: _ =>
    if !(t.isIdentifier || t.isOneOf [.star, .amp]) then (x, ts)
    else
      let head := Head.read ts
      if closed.trailingAlias then
        (x.addNames .typeAlias ((allCommaParts head.tokens).filterMap fun part => part.find? (·.isIdentifier)),
          head.rest)
      else
        (x.addVariables {} [] (closed.name.getD []) (Declarator.readAll head.tokens), head.rest)

/-- A closing brace. -/
def closeScope (x : Extraction) (brace : Token) (ts : List Token) : Extraction × List Token :=
  match x.leave brace.stop with
  | none => (x.noteAnomaly [brace], ts)
  | some (closed, y) =>
    if closed.kind == .class_ || closed.kind == .enum then y.trailingDeclarators closed ts
    else (y, ts)

/-! ## Namespaces, templates and aliases -/

/-- The tokens from which the name of a namespace goes on: those after a `::`, and after the word
`inline` behind it. -/
def afterNamespaceSign? : List Token → Option (List Token)
  | [] => none
  | c :: rest =>
    if c.isPunct .scope then
      some (if rest.head?.any (·.isKeyword .inlineKw) then rest.drop 1 else rest)
    else none

theorem length_afterNamespaceSign_lt {ts after : List Token} (h : afterNamespaceSign? ts = some after) :
    after.length < ts.length := by
  unfold afterNamespaceSign? at h
  split at h
  · simp at h
  · split at h
    · simp only [Option.some.injEq] at h
      subst h
      split
      · simp only [List.length_drop, List.length_cons]
        omega
      · simp
    · simp at h

/-- The names between the `::` of a namespace, each of which may be `inline`, and the tokens after
them. -/
def namespaceNamesAt (ts : List Token) : List Token × List Token :=
  match ts with
  | [] => ([], [])
  | t :: rest =>
    if t.isIdentifier then
      match _h : afterNamespaceSign? rest with
      | some next => (t :: (namespaceNamesAt next).1, (namespaceNamesAt next).2)
      | none => ([t], rest)
    else ([], t :: rest)
termination_by ts.length
decreasing_by
  all_goals have := length_afterNamespaceSign_lt _h
  all_goals simp only [List.length_cons]
  all_goals omega

/-- Opens the scopes of a namespace; every one but the first is chained to the one before. -/
def openNamespaces (x : Extraction) (chained : Bool) (start : Nat) : List Token → Extraction
  | [] => x
  | name :: names =>
    let y := x.addName .namespace_ name
    let y := { y with namespaceNames := name.text :: y.namespaceNames }
    let z := (y.addScope .namespace_ (some name.text) start start chained false).enter y.scopes.size
    z.openNamespaces true start names

/-- A namespace or a namespace alias, after its keyword. -/
def namespaceStatement (x : Extraction) (ts : List Token) : Extraction × List Token :=
  let (names, after) := namespaceNamesAt ts
  match after with
  | [] => (x, [])
  | t :: rest =>
    if t.isPunct .eq then
      let y := x.addNames .namespace_ names
      ({ y with namespaceNames := names.map (·.text) ++ y.namespaceNames }, afterStatement after)
    else if t.isPunct .lbrace then
      if names.isEmpty then (x.openScope .namespace_ none t.start, rest)
      else (x.openNamespaces false t.start names, rest)
    else (x, afterStatement after)

/-- A template header or an explicit instantiation; `ts` starts with the keyword. -/
def templateStatement (x : Extraction) (ts : List Token) : Extraction × List Token :=
  match ts with
  | _ :: t :: rest =>
    if t.isPunct .less then
      match angled? 0 rest with
      | none => (x, rest)
      | some a =>
        (x.addNames .templateParameter ((allCommaParts a.inside).filterMap templateParameter?), a.after)
    else (x, afterStatement ts)
  | _ => (x, afterStatement ts)

/-- A `using` declaration; `ts` starts with the keyword. -/
def usingStatement (x : Extraction) (ts : List Token) : Extraction × List Token :=
  match ts with
  | _ :: name :: sign :: _ =>
    (if name.isIdentifier && sign.isPunct .eq then x.addName .typeAlias name else x, afterStatement ts)
  | _ => (x, afterStatement ts)

/-! ## Classes and enumerations -/

/-- The tokens from the last of several identifiers in a row, the words before which are export
macros. The word `final` is never taken for the name. -/
def afterExportMacros : List Token → List Token
  | t :: u :: rest =>
    if t.isIdentifier && u.isIdentifier && !u.isWord "final" then afterExportMacros (u :: rest)
    else t :: u :: rest
  | ts => ts

/-- The last segment of the name of a class that starts with `name`, and the tokens after it. -/
def lastSegment (name : Token) : List Token → Token × List Token
  | c :: u :: rest =>
    if c.isPunct .scope && u.isIdentifier then lastSegment u rest else (name, c :: u :: rest)
  | ts => (name, ts)

/-- The head of a class or an enumeration. -/
structure TypeHead where
  name : Option Token
  /-- The name has template arguments, so that it declares nothing. -/
  isSpecialization : Bool
  isScopedEnum : Bool
  /-- The token after the head. -/
  terminator : Token
  rest : List Token
  deriving DecidableEq, Repr

/-- The tokens after the bases of a class or the underlying type of an enumeration, if there are
any. -/
def afterBases (ts : List Token) : List Token :=
  if ts.head?.any (·.isPunct .colon) then ts.dropWhile (!·.isOneOf [.lbrace, .semicolon, .rbrace])
  else ts

/-- The end of a head: the bases or the underlying type are passed over. -/
def TypeHead.finish? (name : Option Token) (isSpecialization isScopedEnum : Bool)
    (ts : List Token) : Option TypeHead :=
  match afterBases ts with
  | [] => none
  | terminator :: rest => some { name, isSpecialization, isScopedEnum, terminator, rest }

/-- The tokens without the word `final` at their front. -/
def afterFinal (ts : List Token) : List Token :=
  if ts.head?.any (·.isWord "final") then ts.drop 1 else ts

/-- The head of a class, after its keyword. -/
def classHead? (ts : List Token) : Option TypeHead :=
  match afterExportMacros (afterSpecifiers ts) with
  | [] => none
  | t :: rest =>
    if t.isIdentifier then
      let (name, after) := lastSegment t rest
      if after.head?.any (·.isPunct .less) then
        match angled? 0 (after.drop 1) with
        | none => none
        | some a => TypeHead.finish? (some name) true false (afterFinal a.after)
      else TypeHead.finish? (some name) false false (afterFinal after)
    else TypeHead.finish? none false false (afterFinal (t :: rest))

/-- The head of an enumeration, after its keyword and, if it is scoped, after `class`. -/
def enumHeadFrom? (isScoped : Bool) (ts : List Token) : Option TypeHead :=
  match afterSpecifiers ts with
  | [] => none
  | t :: rest =>
    if t.isIdentifier then TypeHead.finish? (some t) false isScoped rest
    else TypeHead.finish? none false isScoped (t :: rest)

/-- The head of an enumeration, after its keyword. -/
def enumHead? (ts : List Token) : Option TypeHead :=
  if ts.head?.any fun t => t.isKeyword .classKw || t.isKeyword .structKw then
    enumHeadFrom? true (ts.drop 1)
  else enumHeadFrom? false ts

/-- The head of a class or an enumeration, after its keyword. -/
def typeHead? (keyword : Token) (ts : List Token) : Option TypeHead :=
  if keyword.isKeyword .enumKw then enumHead? ts else classHead? ts

/-- Records the class or enumeration that a head declares, if it has a name of its own. -/
def addType (x : Extraction) (keyword : Token) (head : TypeHead) (bodyScope : Option Nat) :
    Extraction :=
  match head.name with
  | none => x
  | some name =>
    if head.isSpecialization then x
    else
      x.add {
        kind := if keyword.isKeyword .enumKw then .enum
          else if keyword.isKeyword .classKw then .class_ else .struct_
        name := name.text, token := name, scope := x.currentIndex
        isScopedEnum := head.isScopedEnum, keyword := some keyword, bodyScope }

/-- Opens the braces of a class or an enumeration. -/
def openType (x : Extraction) (inTypedef : Bool) (keyword : Token) (head : TypeHead) :
    Extraction :=
  let isEnum := keyword.isKeyword .enumKw
  let start := head.terminator.start
  let index := x.scopes.size
  let inner := x.addScope (if isEnum then .enum else .class_) (head.name.map (·.text)) start start
    false inTypedef
  let recorded := inner.addType keyword head (some index)
  let known :=
    match head.name with
    | some name =>
      if isEnum || head.isSpecialization then recorded
      else { recorded with classNames := name.text :: recorded.classNames }
    | none => recorded
  known.enter index

/-- What a head of a class or an enumeration does: it declares only, or it opens braces, whose scope
is then entered. None if it is followed by neither; then it is part of another declaration.
`inTypedef` says that `typedef` stands in front, and then what follows the braces are aliases. -/
def readType? (x : Extraction) (inTypedef : Bool) (keyword : Token) (head : TypeHead) :
    Option Extraction :=
  if head.terminator.isPunct .semicolon && head.name.isSome && !inTypedef then
    some (x.addType keyword head none)
  else if head.terminator.isPunct .lbrace then some (x.openType inTypedef keyword head)
  else none

/-- A class or an enumeration, after its keyword. -/
def typeStatement? (x : Extraction) (inTypedef : Bool) (keyword : Token) (ts : List Token) :
    Option (Extraction × List Token) :=
  match typeHead? keyword ts with
  | none => none
  | some head => (x.readType? inTypedef keyword head).map fun y => (y, head.rest)

/-- The name of a function pointer type: the first identifier after `(*`. -/
def pointerAlias? : List Token → Option Token
  | a :: b :: c :: rest =>
    if a.isPunct .lparen && b.isPunct .star && c.isIdentifier then some c
    else pointerAlias? (b :: c :: rest)
  | _ => none

/-- A `typedef` of something other than a class with braces; `ts` starts with the keyword. -/
def plainTypedef (x : Extraction) (ts : List Token) : Extraction × List Token :=
  let head := Head.read ts
  let tokens := head.tokens.drop 1
  let alias? :=
    match pointerAlias? tokens with
    | some name => some name
    | none =>
      if 1 < tokens.length then ((commaParts tokens).1.filter Token.isIdentifier).getLast? else none
  (x.addNames .typeAlias alias?.toList, head.rest)

/-- A `typedef`; `ts` starts with the keyword. -/
def typedefStatement (x : Extraction) (ts : List Token) : Extraction × List Token :=
  match ts with
  | _ :: keyword :: rest =>
    if keyword.isKeywordIn [.structKw, .classKw, .unionKw, .enumKw] then
      (x.typeStatement? true keyword rest).getD (x.plainTypedef ts)
    else x.plainTypedef ts
  | _ => x.plainTypedef ts

/-! ## Enumerators and control flow -/

/-- The tokens after the enumerator that is being read: those after the comma that ends it, or from
the brace that ends the enumeration. -/
def afterEnumerator (depth : Nat) : List Token → List Token
  | [] => []
  | t :: ts =>
    if t.isOneOf [.lparen, .lbracket, .lbrace] then afterEnumerator (depth + 1) ts
    else if t.isOneOf [.rparen, .rbracket] then afterEnumerator (depth - 1) ts
    else if t.isPunct .rbrace then
      match depth with
      | 0 => t :: ts
      | depth + 1 => afterEnumerator depth ts
    else if t.isPunct .comma && depth == 0 then ts
    else afterEnumerator depth ts

/-- An enumerator, or whatever else stands between the commas of an enumeration; `t` is its first
token. -/
def enumeratorStatement (x : Extraction) (t : Token) (ts : List Token) : Extraction × List Token :=
  (if t.isIdentifier then x.addName .enumVariant t else x, afterEnumerator 0 ts)

/-- The first part of the header of a `for`: up to the semicolon, or up to the colon if there is no
semicolon. -/
def forInitializer (inside : List Token) : List Token :=
  let (first, others) := partsFrom .semicolon false 0 0 inside
  if others.isEmpty then (partsFrom .colon false 0 0 inside).1 else first

/-- The tokens from which a label goes on after `case` or `default`. -/
def afterLabel (ts : List Token) : List Token :=
  match ts.dropWhile (!·.isOneOf [.colon, .semicolon, .lbrace, .rbrace]) with
  | [] => []
  | t :: rest => if t.isPunct .colon then rest else t :: rest

/-- The head of a statement of control flow that takes a condition, after its keyword. -/
def conditionStatement (x : Extraction) (isFor : Bool) (ts : List Token) : Extraction × List Token :=
  match if ts.head?.any (·.isKeyword .constexprKw) then ts.drop 1 else ts with
  | [] => (x, [])
  | t :: rest =>
    if !t.isPunct .lparen then (x, t :: rest)
    else
      match parenthesised? rest with
      | none => (x, [])
      | some e =>
        if isFor then
          match Declaration.read? x.current true (forInitializer e.inside) with
          | some d => (x.addDeclaration d false, e.after)
          | none => (x, e.after)
        else (x, e.after)

/-- A statement of control flow: only its keyword and its condition are read here, and what it
controls is read as statements of its own. None if the keyword begins no such statement. -/
def controlStatement? (x : Extraction) (keyword : Keyword) (ts : List Token) :
    Option (Extraction × List Token) :=
  match keyword with
  | .elseKw | .doKw | .tryKw => some (x, ts)
  | .caseKw | .defaultKw => some (x, afterLabel ts)
  | .forKw => some (x.conditionStatement true ts)
  | .ifKw | .whileKw | .switchKw | .catchKw => some (x.conditionStatement false ts)
  | _ => none

/-! ## Statements -/

/-- A linkage specification such as `extern "C"`, after its two tokens. -/
def linkage (x : Extraction) (ts : List Token) : Extraction × List Token :=
  match ts with
  | [] => (x, [])
  | t :: rest =>
    if t.isPunct .lbrace then (x.openScope .linkage none t.start, rest) else (x, t :: rest)

/-- A statement that starts with a keyword, which is not part of an enumeration. -/
def keywordStatement (x : Extraction) (keyword : Keyword) (t : Token) (rest : List Token) :
    Extraction × List Token :=
  let next := rest.head?
  let other : Extraction × List Token :=
    if x.inFunction then
      (x.controlStatement? keyword rest).getD (x.declarationOrExpression (t :: rest))
    else x.declarationOrExpression (t :: rest)
  match keyword with
  | .inlineKw =>
    if next.any (·.isKeyword .namespaceKw) then x.namespaceStatement (rest.drop 1) else other
  | .namespaceKw => x.namespaceStatement rest
  | .templateKw => x.templateStatement (t :: rest)
  | .usingKw => x.usingStatement (t :: rest)
  | .typedefKw => x.typedefStatement (t :: rest)
  | .publicKw | .privateKw | .protectedKw =>
    if next.any (·.isPunct .colon) then (x, rest.drop 1) else other
  | .externKw =>
    if next.any fun u => u.isLiteral && u.text.head? == some (.scalar '"') then
      x.linkage (rest.drop 1)
    else other
  | .staticAssertKw | .friendKw | .conceptKw | .asmKw | .exportKw => (x, afterStatement (t :: rest))
  | .classKw | .structKw | .unionKw | .enumKw => (x.typeStatement? false t rest).getD other
  | _ => other

/-- One statement, whose first token is `t`. -/
def statement (x : Extraction) (t : Token) (rest : List Token) : Extraction × List Token :=
  match t.kind with
  | .punct .rbrace => x.closeScope t rest
  | .punct .semicolon => (x, rest)
  | .punct .lbrace => (x.openScope .block none t.start, rest)
  | kind =>
    if x.current.kind == .enum then x.enumeratorStatement t rest
    else
      match kind with
      | .keyword k => x.keywordStatement k t rest
      | _ => x.declarationOrExpression (t :: rest)

end Extraction

end HouseStyle
