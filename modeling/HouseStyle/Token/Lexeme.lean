import HouseStyle.Text.Letter
import HouseStyle.Token.Basic

/-!
# Lexemes

`Lexeme.leading` recognises the token at the front of a text: its kind and how many glyphs it
covers. Every text has one, since a glyph that starts no token of the language is a token of kind
`unknown`, and every token covers at least one glyph (`Lexeme.length_leading_pos`).

The functions before it measure one shape each. Those whose name ends in `Tail` are given the text
after the glyphs that open the shape.
-/

namespace HouseStyle.Lexeme

/-- A glyph that may start an identifier. -/
def startsWord (g : Glyph) : Bool :=
  g.satisfies fun c => c == '_' || c == '$' || Letter.isLetter c

/-- A glyph that may stand inside an identifier. -/
def continuesWord (g : Glyph) : Bool :=
  g.satisfies fun c => c == '_' || c == '$' || Letter.isLetterOrNumeral c

/-- A glyph that may start a number. -/
def isDigit (g : Glyph) : Bool := g.satisfies Letter.isDigit

/-- A letter or numeral, as numbers contain them. -/
def isAlphanumeric (g : Glyph) : Bool := g.satisfies Letter.isLetterOrNumeral

/-- A single or a double quote. -/
def isQuote (g : Glyph) : Bool := g == .scalar '"' || g == .scalar '\''

/-- The length of the line splice at the front: a backslash and the line end right after it. -/
def spliceLength : Text → Nat
  | .scalar '\\' :: .scalar '\n' :: _ => 2
  | .scalar '\\' :: .scalar '\r' :: .scalar '\n' :: _ => 3
  | _ => 0

/-- The length up to and including the first occurrence of `mark`. -/
def lengthThrough? (mark : Text) : Text → Option Nat
  | [] => if mark.isEmpty then some 0 else none
  | g :: t =>
    if mark.isPrefixOf (g :: t) then some mark.length else (lengthThrough? mark t).map (· + 1)

/-- The rest of a number after its glyph `last`: letters, digits, points and underscores, a quote
before a letter or digit, and a sign after an exponent letter. -/
def numberTail (last : Glyph) : Text → Nat
  | [] => 0
  | g :: t =>
    if isAlphanumeric g || g == .scalar '.' || g == .scalar '_' then 1 + numberTail g t
    else if g == .scalar '\'' && (t.head?.map isAlphanumeric).getD false then 1 + numberTail g t
    else if (g == .scalar '+' || g == .scalar '-') &&
        (last == .scalar 'e' || last == .scalar 'E' || last == .scalar 'p' || last == .scalar 'P')
      then 1 + numberTail g t
    else 0

/-- The rest of a quoted literal, closing quote included. A backslash takes the next glyph with
it; a literal that is not closed ends before the line feed, or with the text. -/
def quotedTail (quote : Glyph) : Text → Nat
  | [] => 0
  | [g] => if g = .scalar '\n' then 0 else 1
  | g :: h :: t =>
    if g = .scalar '\\' then 2 + quotedTail quote t
    else if g = quote then 1
    else if g = .scalar '\n' then 0
    else 1 + quotedTail quote (h :: t)

/-- The longest delimiter of a raw string. -/
def maxDelimiter : Nat := 16

/-- The delimiter of a raw string, which a round bracket ends, and the text after that bracket.
`room` is one more than the glyphs that the delimiter may still have. -/
def rawDelimiter? : (room : Nat) → Text → Option (Text × Text)
  | 0, _ => none
  | _ + 1, [] => none
  | room + 1, g :: t =>
    if g = .scalar '(' then some ([], t)
    else if [' ', ')', '\\', '\t', '\n', '"'].any (g == .scalar ·) then none
    else (rawDelimiter? room t).map fun (delimiter, body) => (g :: delimiter, body)

/-- The rest of a raw string after its opening quote. Without a delimiter it is an ordinary string;
without its closing mark it runs to the end of the text. -/
def rawStringTail (t : Text) : Nat :=
  match rawDelimiter? (maxDelimiter + 1) t with
  | none => quotedTail (.scalar '"') t
  | some (delimiter, body) =>
    match lengthThrough? (.scalar ')' :: delimiter ++ [.scalar '"']) body with
    | some n => delimiter.length + 1 + n
    | none => t.length

/-- The rest of a line comment: up to the line feed, without the carriage returns before it. -/
def lineCommentTail (t : Text) : Nat :=
  ((t.takeWhile (· != .scalar '\n')).reverse.dropWhile (· == .scalar '\r')).length

/-- The rest of a block comment, closing mark included; an open one runs to the end. -/
def blockCommentTail (t : Text) : Nat :=
  (lengthThrough? (Text.ofString "*/") t).getD t.length

/-- Whether a line that ends here goes on below: `behind` is what the directive holds so far,
read backwards, and ends in a backslash but for one carriage return. -/
def splices : Text → Bool
  | .scalar '\r' :: g :: _ => g == .scalar '\\'
  | g :: _ => g == .scalar '\\'
  | [] => false

/-- The rest of a directive before its trailing blanks are taken off. Comments of several lines,
quoted literals and spliced lines are passed over; a line feed or a line comment ends it. -/
def directiveExtent (behind t : Text) : Nat :=
  match t with
  | [] => 0
  | g :: rest =>
    if g = .scalar '\n' then
      if splices behind then 1 + directiveExtent (g :: behind) rest else 0
    else
      match g, rest with
      | .scalar '/', .scalar '/' :: _ => 0
      | .scalar '/', .scalar '*' :: inner =>
        let n := blockCommentTail inner
        2 + n + directiveExtent ((inner.take n).reverse ++ .scalar '*' :: .scalar '/' :: behind)
          (inner.drop n)
      | g, rest =>
        if isQuote g then
          let n := quotedTail g rest
          1 + n + directiveExtent ((rest.take n).reverse ++ g :: behind) (rest.drop n)
        else 1 + directiveExtent (g :: behind) rest
termination_by t.length
decreasing_by all_goals (simp_all; try omega)

/-- The rest of a directive after its `#`. -/
def directiveTail (t : Text) : Nat :=
  ((t.take (directiveExtent [] t)).reverse.dropWhile fun g =>
    g == .scalar ' ' || g == .scalar '\t' || g == .scalar '\r').length

/-- The prefixes of ordinary strings and characters. -/
def stringLeads : List String := ["L", "u", "U", "u8"]

/-- The prefixes of raw strings. -/
def rawStringLeads : List String := ["R", "LR", "uR", "UR", "u8R"]

/-- The token that starts with a word: a literal if the word is the prefix of one and a quote
follows, and otherwise a keyword or an identifier. -/
def word (t : Text) : TokenKind × Nat :=
  let name := t.takeWhile continuesWord
  let rest := t.dropWhile continuesWord
  let plain : TokenKind × Nat :=
    (match Keyword.ofText? name with
      | some k => .keyword k
      | none => .identifier, name.length)
  match rest with
  | [] => plain
  | g :: inner =>
    if g = .scalar '"' && (rawStringLeads.map Text.ofString).contains name then
      (.literal, name.length + 1 + rawStringTail inner)
    else if isQuote g && (stringLeads.map Text.ofString).contains name then
      (.literal, name.length + 1 + quotedTail g inner)
    else plain

/-- The token that starts with none of the shapes above. -/
def symbol (t : Text) : TokenKind × Nat :=
  match Punct.leading? t with
  | some p => (.punct p, p.text.length)
  | none => (.unknown, 1)

/-- The kind and the length of the token that a text starts with. `lineStart` says that there has
been no token on the line yet, so that `#` opens a directive. -/
def leading (lineStart : Bool) (t : Text) : TokenKind × Nat :=
  match t with
  | [] => (.unknown, 1)
  | g :: rest =>
    if g = .scalar '#' && lineStart then (.directive, 1 + directiveTail rest)
    else
      match g, rest with
      | .scalar '/', .scalar '/' :: inner => (.comment, 2 + lineCommentTail inner)
      | .scalar '/', .scalar '*' :: inner => (.comment, 2 + blockCommentTail inner)
      | g, rest =>
        if isDigit g || (g == .scalar '.' && (rest.head?.map isDigit).getD false) then
          (.literal, 1 + numberTail g rest)
        else if startsWord g then word (g :: rest)
        else if isQuote g then (.literal, 1 + quotedTail g rest)
        else symbol (g :: rest)

theorem text_length_pos (p : Punct) : 0 < p.text.length := by
  cases p <;> decide

theorem continuesWord_of_startsWord {g : Glyph} (h : startsWord g = true) :
    continuesWord g = true := by
  cases g with
  | raw b => simp [startsWord, Glyph.satisfies] at h
  | scalar c =>
    simp only [startsWord, continuesWord, Glyph.satisfies, Bool.or_eq_true] at h ⊢
    rcases h with h | h
    · exact .inl h
    · right
      unfold Letter.isLetter at h
      unfold Letter.isLetterOrNumeral
      split at h <;> simp_all [Char.isAlphanum]

theorem length_word_pos {g : Glyph} {t : Text} (h : startsWord g = true) :
    0 < (word (g :: t)).2 := by
  have hc := continuesWord_of_startsWord h
  unfold word
  simp only [List.takeWhile_cons, List.dropWhile_cons, hc, if_true]
  split
  · simp
  · split
    · dsimp only; omega
    · split <;> dsimp only [List.length_cons] <;> omega

/-- Every token covers at least one glyph. -/
theorem length_leading_pos (lineStart : Bool) (t : Text) : 0 < (leading lineStart t).2 := by
  unfold leading
  split
  · simp
  · split
    · dsimp only; omega
    · split
      · dsimp only; omega
      · dsimp only; omega
      · split
        · dsimp only; omega
        · split
          · rename_i hw
            exact length_word_pos hw
          · split
            · dsimp only; omega
            · unfold symbol
              split
              · exact text_length_pos _
              · simp

end HouseStyle.Lexeme
