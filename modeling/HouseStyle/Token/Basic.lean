import HouseStyle.Text.Glyph

/-!
# Tokens

The vocabulary of C++: keywords, punctuators, and the tokens a source text is made of. A token
keeps the slice of source it stands for and both of its ends.

There is no punctuator of several characters that starts with `>`, so two template argument lists
that end together always end in two tokens.
-/

namespace HouseStyle

/-- The keywords of C++. -/
inductive Keyword where
  | alignasKw | alignofKw | andKw | andEqKw | asmKw | autoKw | bitandKw | bitorKw | boolKw
  | breakKw | caseKw | catchKw | charKw | char8TKw | char16TKw | char32TKw | classKw | complKw
  | conceptKw | constKw | constevalKw | constexprKw | constinitKw | constCastKw | continueKw
  | coAwaitKw | coReturnKw | coYieldKw | decltypeKw | defaultKw | deleteKw | doKw | doubleKw
  | dynamicCastKw | elseKw | enumKw | explicitKw | exportKw | externKw | falseKw | floatKw
  | forKw | friendKw | gotoKw | ifKw | inlineKw | intKw | longKw | mutableKw | namespaceKw
  | newKw | noexceptKw | notKw | notEqKw | nullptrKw | operatorKw | orKw | orEqKw | privateKw
  | protectedKw | publicKw | registerKw | reinterpretCastKw | requiresKw | returnKw | shortKw
  | signedKw | sizeofKw | staticKw | staticAssertKw | staticCastKw | structKw | switchKw
  | templateKw | thisKw | threadLocalKw | throwKw | trueKw | tryKw | typedefKw | typeidKw
  | typenameKw | unionKw | unsignedKw | usingKw | virtualKw | voidKw | volatileKw | wcharTKw
  | whileKw | xorKw | xorEqKw
  deriving DecidableEq, Repr

namespace Keyword

/-- How a keyword is written. -/
def spelling : Keyword → String
  | .alignasKw => "alignas"
  | .alignofKw => "alignof"
  | .andKw => "and"
  | .andEqKw => "and_eq"
  | .asmKw => "asm"
  | .autoKw => "auto"
  | .bitandKw => "bitand"
  | .bitorKw => "bitor"
  | .boolKw => "bool"
  | .breakKw => "break"
  | .caseKw => "case"
  | .catchKw => "catch"
  | .charKw => "char"
  | .char8TKw => "char8_t"
  | .char16TKw => "char16_t"
  | .char32TKw => "char32_t"
  | .classKw => "class"
  | .complKw => "compl"
  | .conceptKw => "concept"
  | .constKw => "const"
  | .constevalKw => "consteval"
  | .constexprKw => "constexpr"
  | .constinitKw => "constinit"
  | .constCastKw => "const_cast"
  | .continueKw => "continue"
  | .coAwaitKw => "co_await"
  | .coReturnKw => "co_return"
  | .coYieldKw => "co_yield"
  | .decltypeKw => "decltype"
  | .defaultKw => "default"
  | .deleteKw => "delete"
  | .doKw => "do"
  | .doubleKw => "double"
  | .dynamicCastKw => "dynamic_cast"
  | .elseKw => "else"
  | .enumKw => "enum"
  | .explicitKw => "explicit"
  | .exportKw => "export"
  | .externKw => "extern"
  | .falseKw => "false"
  | .floatKw => "float"
  | .forKw => "for"
  | .friendKw => "friend"
  | .gotoKw => "goto"
  | .ifKw => "if"
  | .inlineKw => "inline"
  | .intKw => "int"
  | .longKw => "long"
  | .mutableKw => "mutable"
  | .namespaceKw => "namespace"
  | .newKw => "new"
  | .noexceptKw => "noexcept"
  | .notKw => "not"
  | .notEqKw => "not_eq"
  | .nullptrKw => "nullptr"
  | .operatorKw => "operator"
  | .orKw => "or"
  | .orEqKw => "or_eq"
  | .privateKw => "private"
  | .protectedKw => "protected"
  | .publicKw => "public"
  | .registerKw => "register"
  | .reinterpretCastKw => "reinterpret_cast"
  | .requiresKw => "requires"
  | .returnKw => "return"
  | .shortKw => "short"
  | .signedKw => "signed"
  | .sizeofKw => "sizeof"
  | .staticKw => "static"
  | .staticAssertKw => "static_assert"
  | .staticCastKw => "static_cast"
  | .structKw => "struct"
  | .switchKw => "switch"
  | .templateKw => "template"
  | .thisKw => "this"
  | .threadLocalKw => "thread_local"
  | .throwKw => "throw"
  | .trueKw => "true"
  | .tryKw => "try"
  | .typedefKw => "typedef"
  | .typeidKw => "typeid"
  | .typenameKw => "typename"
  | .unionKw => "union"
  | .unsignedKw => "unsigned"
  | .usingKw => "using"
  | .virtualKw => "virtual"
  | .voidKw => "void"
  | .volatileKw => "volatile"
  | .wcharTKw => "wchar_t"
  | .whileKw => "while"
  | .xorKw => "xor"
  | .xorEqKw => "xor_eq"

/-- All keywords. -/
def all : List Keyword := [
  .alignasKw, .alignofKw, .andKw, .andEqKw, .asmKw, .autoKw, .bitandKw, .bitorKw, .boolKw,
  .breakKw, .caseKw, .catchKw, .charKw, .char8TKw, .char16TKw, .char32TKw, .classKw, .complKw,
  .conceptKw, .constKw, .constevalKw, .constexprKw, .constinitKw, .constCastKw, .continueKw,
  .coAwaitKw, .coReturnKw, .coYieldKw, .decltypeKw, .defaultKw, .deleteKw, .doKw, .doubleKw,
  .dynamicCastKw, .elseKw, .enumKw, .explicitKw, .exportKw, .externKw, .falseKw, .floatKw,
  .forKw, .friendKw, .gotoKw, .ifKw, .inlineKw, .intKw, .longKw, .mutableKw, .namespaceKw,
  .newKw, .noexceptKw, .notKw, .notEqKw, .nullptrKw, .operatorKw, .orKw, .orEqKw, .privateKw,
  .protectedKw, .publicKw, .registerKw, .reinterpretCastKw, .requiresKw, .returnKw, .shortKw,
  .signedKw, .sizeofKw, .staticKw, .staticAssertKw, .staticCastKw, .structKw, .switchKw,
  .templateKw, .thisKw, .threadLocalKw, .throwKw, .trueKw, .tryKw, .typedefKw, .typeidKw,
  .typenameKw, .unionKw, .unsignedKw, .usingKw, .virtualKw, .voidKw, .volatileKw, .wcharTKw,
  .whileKw, .xorKw, .xorEqKw]

/-- The text of a keyword. -/
def text (k : Keyword) : Text := Text.ofString k.spelling

/-- The keyword with this text. -/
def ofText? (t : Text) : Option Keyword := all.find? fun k => k.text == t

/-- Keywords that name a fundamental type or a part of one. -/
def isTypeName : Keyword → Bool
  | .voidKw | .boolKw | .charKw | .char8TKw | .char16TKw | .char32TKw | .wcharTKw | .shortKw
  | .intKw | .longKw | .signedKw | .unsignedKw | .floatKw | .doubleKw | .autoKw => true
  | _ => false

end Keyword

/-- The operators and punctuators of C++. -/
inductive Punct where
  | spaceship | shiftLeftEq | arrowStar | ellipsis | scope | arrow | plusPlus | minusMinus
  | shiftLeft | lessEq | eqEq | bangEq | ampAmp | barBar | plusEq | minusEq | starEq | slashEq
  | percentEq | ampEq | barEq | caretEq | dotStar | hashHash | lbrace | rbrace | lbracket
  | rbracket | lparen | rparen | less | greater | semicolon | colon | comma | dot | question
  | tilde | bang | percent | caret | amp | star | minus | plus | eq | bar | slash | hash
  deriving DecidableEq, Repr

namespace Punct

/-- How a punctuator is written. -/
def spelling : Punct → String
  | .spaceship => "<=>"
  | .shiftLeftEq => "<<="
  | .arrowStar => "->*"
  | .ellipsis => "..."
  | .scope => "::"
  | .arrow => "->"
  | .plusPlus => "++"
  | .minusMinus => "--"
  | .shiftLeft => "<<"
  | .lessEq => "<="
  | .eqEq => "=="
  | .bangEq => "!="
  | .ampAmp => "&&"
  | .barBar => "||"
  | .plusEq => "+="
  | .minusEq => "-="
  | .starEq => "*="
  | .slashEq => "/="
  | .percentEq => "%="
  | .ampEq => "&="
  | .barEq => "|="
  | .caretEq => "^="
  | .dotStar => ".*"
  | .hashHash => "##"
  | .lbrace => "\x7b"
  | .rbrace => "\x7d"
  | .lbracket => "["
  | .rbracket => "]"
  | .lparen => "("
  | .rparen => ")"
  | .less => "<"
  | .greater => ">"
  | .semicolon => ";"
  | .colon => ":"
  | .comma => ","
  | .dot => "."
  | .question => "?"
  | .tilde => "~"
  | .bang => "!"
  | .percent => "%"
  | .caret => "^"
  | .amp => "&"
  | .star => "*"
  | .minus => "-"
  | .plus => "+"
  | .eq => "="
  | .bar => "|"
  | .slash => "/"
  | .hash => "#"

/-- All punctuators, each before those that are a beginning of it. -/
def all : List Punct := [
  .spaceship, .shiftLeftEq, .arrowStar, .ellipsis, .scope, .arrow, .plusPlus, .minusMinus,
  .shiftLeft, .lessEq, .eqEq, .bangEq, .ampAmp, .barBar, .plusEq, .minusEq, .starEq, .slashEq,
  .percentEq, .ampEq, .barEq, .caretEq, .dotStar, .hashHash, .lbrace, .rbrace, .lbracket,
  .rbracket, .lparen, .rparen, .less, .greater, .semicolon, .colon, .comma, .dot, .question,
  .tilde, .bang, .percent, .caret, .amp, .star, .minus, .plus, .eq, .bar, .slash, .hash]

/-- The text of a punctuator. -/
def text (p : Punct) : Text := Text.ofString p.spelling

/-- The longest punctuator that a text starts with. -/
def leading? (t : Text) : Option Punct := all.find? fun p => p.text.isPrefixOf t

/-- The punctuator that closes a round, square or curly bracket. -/
def closer? : Punct → Option Punct
  | .lparen => some .rparen
  | .lbracket => some .rbracket
  | .lbrace => some .rbrace
  | _ => none

/-- A round, square or curly bracket that opens. -/
def opens (p : Punct) : Bool := p == .lparen || p == .lbracket || p == .lbrace

/-- A round, square or curly bracket that closes. -/
def closes (p : Punct) : Bool := p == .rparen || p == .rbracket || p == .rbrace

end Punct

/-- What a token is. -/
inductive TokenKind where
  | identifier
  | keyword (k : Keyword)
  /-- A number, a character or a string. -/
  | literal
  | punct (p : Punct)
  | comment
  | directive
  /-- A character or byte that starts no token of the language. -/
  | unknown
  deriving DecidableEq, Repr

/-- A token of a source text. Lines and columns count from 1; `stop` and the end column are
those just past the last glyph. -/
structure Token where
  kind : TokenKind
  text : Text
  start : Nat
  stop : Nat
  line : Nat
  column : Nat
  endLine : Nat
  endColumn : Nat
  deriving DecidableEq, Repr

namespace Token

/-- The token is the given punctuator. -/
def isPunct (t : Token) (p : Punct) : Bool := t.kind == .punct p

/-- The token is one of the given punctuators. -/
def isOneOf (t : Token) (ps : List Punct) : Bool :=
  match t.kind with
  | .punct p => ps.contains p
  | _ => false

/-- The token is a punctuator. -/
def isAnyPunct (t : Token) : Bool :=
  match t.kind with
  | .punct _ => true
  | _ => false

/-- The token is the given keyword. -/
def isKeyword (t : Token) (k : Keyword) : Bool := t.kind == .keyword k

/-- The token is one of the given keywords. -/
def isKeywordIn (t : Token) (ks : List Keyword) : Bool :=
  match t.kind with
  | .keyword k => ks.contains k
  | _ => false

/-- The token is an identifier. -/
def isIdentifier (t : Token) : Bool := t.kind == .identifier

/-- The token is the identifier written `word`. -/
def isWord (t : Token) (word : String) : Bool :=
  t.kind == .identifier && t.text == Text.ofString word

/-- The token is a literal. -/
def isLiteral (t : Token) : Bool := t.kind == .literal

/-- The token is a comment. -/
def isComment (t : Token) : Bool := t.kind == .comment

/-- The token is a preprocessor directive. -/
def isDirective (t : Token) : Bool := t.kind == .directive

/-- The token is neither a comment nor a directive. -/
def isCode (t : Token) : Bool := !t.isComment && !t.isDirective

/-- The tokens without comments and preprocessor directives. -/
def code (tokens : List Token) : List Token := tokens.filter isCode

end Token

end HouseStyle
