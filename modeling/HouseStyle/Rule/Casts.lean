import HouseStyle.Rule.Ownership

/-!
# Casts

A type in round brackets in front of an operand is a cast in the style of C. It is told from a call,
a declaration and a bracketed expression by the token before it, by what is in the brackets and by
what follows them.
-/

namespace HouseStyle.CastRule

/-- What is known about the rule. -/
def info : RuleInfo where
  id := "no-c-style-cast"
  title := "C-style cast"
  description := "C-style casts silently pick between static, const and reinterpret casts; " ++
    "spell out static_cast or reinterpret_cast. `(void)expr` is accepted."
  category := .typeSafety
  severity := .warning
  example? := some "double ratio = (double)count / total;  // -> static_cast<double>(count)\n"

/-- The keywords after which brackets hold no cast. -/
def rulesOutCast (k : Keyword) : Bool :=
  k.isTypeName ||
    match k with
    | .sizeofKw | .alignofKw | .alignasKw | .decltypeKw | .noexceptKw | .typeidKw | .operatorKw
    | .staticAssertKw | .ifKw | .whileKw | .forKw | .switchKw | .catchKw | .requiresKw => true
    | _ => false

/-- Whether brackets after a token can be those of a cast. -/
def mayPrecede (t : Token) : Bool :=
  match t.kind with
  | .identifier => false
  | .literal => false
  | .punct p => !(p == .rparen || p == .rbracket || p == .greater)
  | .keyword k => !rulesOutCast k
  | _ => true

/-- The most tokens that the brackets of a cast may have, both of them counted. -/
def maxTokens : Nat := 64

/-- The tokens up to the closing bracket, that bracket and the tokens after it. `room` is how many
tokens may still be read, `depth` how many brackets have opened since. -/
def closing? (room depth : Nat) : List Token → Option Enclosed
  | [] => none
  | t :: ts =>
    match room with
    | 0 => none
    | room + 1 =>
      if t.isPunct .lparen then (closing? room (depth + 1) ts).map (.cons t)
      else if t.isPunct .rparen then
        match depth with
        | 0 => some ⟨[], t, ts⟩
        | depth + 1 => (closing? room depth ts).map (.cons t)
      else if t.isOneOf [.semicolon, .lbrace, .rbrace] then none
      else (closing? room depth ts).map (.cons t)

/-- Whether a token can start the operand of a cast. A sign in front of it counts only where the
brackets cannot hold a variable. -/
def startsOperand (allowSign : Bool) (t : Token) : Bool :=
  match t.kind with
  | .identifier => true
  | .literal => true
  | .keyword k =>
    match k with
    | .thisKw | .nullptrKw | .trueKw | .falseKw | .sizeofKw | .alignofKw | .newKw
    | .staticCastKw => true
    | _ => false
  | .punct p =>
    match p with
    | .lparen => true
    | .minus | .plus | .bang | .tilde | .star | .amp | .plusPlus | .minusMinus => allowSign
    | _ => false
  | _ => false

/-- Whether an operand is its first token alone, given the tokens from it on. -/
def isSingleToken : List Token → Bool
  | [] => false
  | t :: after =>
    (t.isIdentifier || t.isLiteral) &&
      !after.head?.any (·.isOneOf
        [.lparen, .lbracket, .dot, .arrow, .scope, .plusPlus, .minusMinus, .less])

/-- A text without its spaces. -/
def withoutSpaces (t : Text) : Text := t.filter (· != .scalar ' ')

/-- What is known about the names of a file. -/
structure Names where
  /-- The names that stand for values. -/
  values : List Text
  /-- The type of each variable, that of the first declaration first. -/
  types : List (Text × Text)
  deriving Repr

/-- The names of a file. -/
def Names.ofModel (m : Model) : Names where
  values := (m.entities.filter fun e => e.isObject || e.kind == .function || e.kind == .method).map
    (·.name)
  types := (m.entities.filter (·.isObject)).map fun e => (e.name, e.typeText)

/-- The cast to write: between two different pointer types it is a reinterpretation. -/
def castWord (names : Names) (target : Text) (operand : Token) : String :=
  let operandType? := if operand.isIdentifier then names.types.lookup operand.text else none
  match operandType? with
  | none => "static_cast"
  | some type =>
    if TypeText.isBarePointer target && TypeText.isBarePointer type &&
        withoutSpaces type != withoutSpaces target then "reinterpret_cast"
    else "static_cast"

/-- The violation of the brackets that `opener` opens, if they are a cast. -/
def checkAt (f : SourceFile) (names : Names) (opener : Token) (after : List Token) :
    Option Violation :=
  match closing? (maxTokens - 1) 0 after with
  | none => none
  | some e =>
    match e.inside, e.after with
    | [], _ => none
    | _, [] => none
    | first :: more, operand :: _ =>
      let isName := more.isEmpty && first.isIdentifier
      if (more.isEmpty && first.isKeyword .voidKw) || afterType? e.inside != some [] ||
          (isName && names.values.contains first.text) || !startsOperand (!isName) operand then none
      else
        let target := joinedText e.inside
        let cast := Text.ofString (castWord names target operand)
        let single := isSingleToken e.after
        let written := fun (inner : Text) => [cast, Text.ofString "<", target, ">(", inner, ")"]
        some (info.violation
          ["C-style cast to `", target, "`; use ", cast, "<", target, ">(...)."]
          (f.location opener.start e.closer.stop)
          (some (written (if single then operand.text else Text.ofString "...")))
          (if single then [⟨opener.start, operand.stop, (written operand.text).flatten⟩] else []) false [])

/-- The violations among some tokens, of which `before` is the one in front. -/
def checkFrom (f : SourceFile) (names : Names) (before : Option Token) : List Token → List Violation
  | [] => []
  | t :: ts =>
    let here? := if t.isPunct .lparen && before.all mayPrecede then checkAt f names t ts else none
    here?.toList ++ checkFrom f names (some t) ts

/-- The check. -/
def check (f : SourceFile) : List Violation := checkFrom f (Names.ofModel f.model) none f.code

end HouseStyle.CastRule
