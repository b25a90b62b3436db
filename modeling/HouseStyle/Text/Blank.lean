import HouseStyle.Text.Glyph

/-!
# Blanks and line breaks

The white space of running text (settings, messages, the inside of a comment), which is wider
than the blanks of C++, and the characters that end a line of it.
-/

namespace HouseStyle.Blank

/-- White space: the space characters of the Unicode character database together with the
separators that are control characters. -/
def isBlank (c : Char) : Bool :=
  let n := c.toNat
  (0x09 ≤ n && n ≤ 0x0D) || (0x1C ≤ n && n ≤ 0x20) || n == 0x85 || n == 0xA0 || n == 0x1680 ||
    (0x2000 ≤ n && n ≤ 0x200A) || n == 0x2028 || n == 0x2029 || n == 0x202F || n == 0x205F ||
    n == 0x3000

/-- A character that ends a line. A carriage return and a line feed after it end one line. -/
def isLineBreak (c : Char) : Bool :=
  let n := c.toNat
  (0x0A ≤ n && n ≤ 0x0D) || (0x1C ≤ n && n ≤ 0x1E) || n == 0x85 || n == 0x2028 || n == 0x2029

/-- The text without white space at its ends. -/
def trimText (t : Text) : Text := t.trim (Glyph.satisfies isBlank)

/-- The string without white space at its ends. -/
def trim (s : String) : String :=
  String.ofList ((s.toList.dropWhile isBlank).reverse.dropWhile isBlank).reverse

/-- The words of a string: its longest runs of characters that are not white space. -/
def words (s : String) : List String :=
  (go [] s.toList).map String.ofList
where
  /-- The words of the rest, where `word` has been read backwards so far. -/
  go (word : List Char) : List Char → List (List Char)
    | [] => if word.isEmpty then [] else [word.reverse]
    | c :: cs =>
      if isBlank c then if word.isEmpty then go [] cs else word.reverse :: go [] cs
      else go (c :: word) cs

end HouseStyle.Blank

namespace HouseStyle.Text

/-- The lines of a text, each with the line break that ends it. Nothing follows the last break
unless there is text after it. -/
def lines (t : Text) : List Text :=
  go [] t
where
  /-- The lines of the rest, where `line` has been read backwards so far. -/
  go (line : Text) : Text → List Text
    | [] => if line.isEmpty then [] else [line.reverse]
    | .scalar '\r' :: .scalar '\n' :: rest => (.scalar '\n' :: .scalar '\r' :: line).reverse :: go [] rest
    | g :: rest =>
      if g.satisfies Blank.isLineBreak then (g :: line).reverse :: go [] rest
      else go (g :: line) rest

/-- A line without the line break that ends it. -/
def withoutBreak (line : Text) : Text :=
  match line.reverse with
  | .scalar '\n' :: .scalar '\r' :: rest => rest.reverse
  | g :: rest => if g.satisfies Blank.isLineBreak then rest.reverse else line
  | [] => []

end HouseStyle.Text
