import HouseStyle.Text.Case
import HouseStyle.Token.Basic

/-!
# Casing styles

The three ways in which names are written, as a check (`Style.accepts`) and as a conversion
(`Style.convert?`). Both see a name as a list of words: underscores part words, and so does a
change of case.
-/

namespace HouseStyle

/-- A way to write a name of several words. -/
inductive Style where
  | upperCamel
  | lowerSnake
  | upperSnake
  deriving DecidableEq, Repr

namespace Style

/-- The name of a style, written in that style. -/
def label : Style → String
  | .upperCamel => "UpperCamelCase"
  | .lowerSnake => "lower_snake_case"
  | .upperSnake => "UPPER_SNAKE_CASE"

/-! ## Words -/

/-- A capital letter of ASCII. -/
def isUpper (g : Glyph) : Bool := g.satisfies Char.isUpper

/-- A small letter of ASCII. -/
def isLower (g : Glyph) : Bool := g.satisfies Char.isLower

/-- A digit of ASCII. -/
def isDigit (g : Glyph) : Bool := g.satisfies Char.isDigit

/-- A letter or digit of ASCII. -/
def isAlphanum (g : Glyph) : Bool := g.satisfies Char.isAlphanum

/-- Whether a word ends between `left` and `right`: before a capital letter after a small one or
a digit, and before the last of several capital letters when a small one follows, so that
`HTTPServer` is two words. -/
def wordEnds (left right : Glyph) (next : Option Glyph) : Bool :=
  isUpper right && (isLower left || isDigit left || (isUpper left && next.any isLower))

/-- The words of the rest of a name, when `word` has been read backwards so far. -/
def wordsFrom (word : Text) : Text → List Text
  | [] => if word.isEmpty then [] else [word.reverse]
  | g :: rest =>
    if g = .scalar '_' || g = .scalar ' ' then
      if word.isEmpty then wordsFrom [] rest else word.reverse :: wordsFrom [] rest
    else if word.head?.any fun left => wordEnds left g rest.head? then
      word.reverse :: wordsFrom [g] rest
    else wordsFrom (g :: word) rest

/-- The words of a name. -/
def words (name : Text) : List Text := wordsFrom [] name

/-- A word of two or more letters that has no small one. -/
def isAcronym (word : Text) : Bool :=
  !word.any isLower && decide (2 ≤ (word.filter isUpper).length)

/-! ## The check -/

/-- A name without the line feed it may end with. -/
def withoutLineFeed (name : Text) : Text :=
  if name.getLast? = some (.scalar '\n') then name.dropLast else name

/-- The rest of a name of words joined by single underscores, whose glyphs satisfy `part`. -/
def joinedWords (part : Glyph → Bool) : Text → Bool
  | [] => true
  | [g] => part g
  | g :: h :: rest =>
    if g = .scalar '_' then part h && joinedWords part rest else part g && joinedWords part (h :: rest)

/-- Words joined by single underscores; the name starts with a letter. -/
def isSnake (letter : Glyph → Bool) (name : Text) : Bool :=
  match name with
  | [] => false
  | g :: rest => letter g && joinedWords (fun g => letter g || isDigit g) rest

/-- A capital letter, and letters and digits after it. -/
def isCamel (name : Text) : Bool :=
  match name with
  | [] => false
  | g :: rest => isUpper g && rest.all isAlphanum

/-- Whether a name is written in the style. In `UpperCamelCase` acronyms are ordinary words:
`Http`, not `HTTP`; a single capital letter is a word too. -/
def accepts (style : Style) (name : Text) : Bool :=
  match style with
  | .lowerSnake => isSnake isLower (withoutLineFeed name)
  | .upperSnake => isSnake isUpper (withoutLineFeed name)
  | .upperCamel => isCamel (withoutLineFeed name) && !(words name).any isAcronym

/-- The name without one underscore at its end, unless it ends in two. -/
def withoutTrailingUnderscore (name : Text) : Text :=
  match name.reverse with
  | .scalar '_' :: .scalar '_' :: _ => name
  | .scalar '_' :: rest => rest.reverse
  | _ => name

/-- Whether a name that may end in an underscore is written in the style. -/
def acceptsTrailing (style : Style) (name : Text) : Bool :=
  style.accepts (withoutTrailingUnderscore name)

/-! ## The conversion -/

/-- The first glyph of a word as a capital, the others small. -/
def capitalised : Text → Text
  | [] => []
  | g :: rest => Case.upperGlyph g ++ Case.lowerText rest

/-- Words put together in the style. -/
def compose (style : Style) (words : List Text) : Text :=
  match style with
  | .lowerSnake => Text.join [.scalar '_'] (words.map Case.lowerText)
  | .upperSnake => Text.join [.scalar '_'] (words.map Case.upperText)
  | .upperCamel => (words.map capitalised).flatten

/-- A letter or underscore of ASCII, and letters, digits and underscores after it. -/
def isIdentifier (name : Text) : Bool :=
  match name with
  | [] => false
  | g :: rest =>
    (g.satisfies Char.isAlpha || g == .scalar '_') &&
      rest.all fun h => isAlphanum h || h == .scalar '_'

/-- The name in the style, if that is an identifier of the style and no keyword. -/
def convert? (style : Style) (name : Text) : Option Text :=
  let ws := words name
  let candidate := style.compose ws
  if ws.isEmpty then none
  else if !isIdentifier (withoutLineFeed candidate) then none
  else if (Keyword.ofText? candidate).isSome then none
  else if !style.accepts candidate then none
  else some candidate

/-- The name in the style, with an underscore at its end if it had one there. -/
def convertTrailing? (style : Style) (name : Text) : Option Text :=
  (style.convert? name).map fun candidate =>
    if name.getLast? = some (.scalar '_') then candidate ++ [.scalar '_'] else candidate

end Style

end HouseStyle
