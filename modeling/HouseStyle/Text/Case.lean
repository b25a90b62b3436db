import HouseStyle.Text.Glyph

/-!
# Capital and small letters

The case of letters as far as it can lead to something that is accepted. Identifiers, rule names and
settings are ASCII, and names of emoji need no letters beyond those of Latin-1, so a character
whose other case lies outside them may stay as it is: the result is refused either way. What
remains are the letters of ASCII, the capitals of Latin-1, and the few characters above whose small
or capital form is made of such letters.
-/

namespace HouseStyle.Case

/-- The small form of a character. -/
def lowerChar (c : Char) : List Char :=
  if c = '\u212A' then ['k']
  else if c = '\u212B' then ['å']
  else if c = '\u0130' then ['i', '\u0307']
  else if 'À' ≤ c && c ≤ 'Þ' && c != '×' then [Char.ofNat (c.toNat + 0x20)]
  else [c.toLower]

/-- The capital form of a character. -/
def upperChar (c : Char) : List Char :=
  match c with
  | 'ß' => ['S', 'S']
  | 'ı' => ['I']
  | 'ſ' => ['S']
  | 'ﬀ' => ['F', 'F']
  | 'ﬁ' => ['F', 'I']
  | 'ﬂ' => ['F', 'L']
  | 'ﬃ' => ['F', 'F', 'I']
  | 'ﬄ' => ['F', 'F', 'L']
  | 'ﬅ' => ['S', 'T']
  | 'ﬆ' => ['S', 'T']
  | c => [c.toUpper]

/-- A string in small letters. -/
def lower (s : String) : String := String.ofList (s.toList.flatMap lowerChar)

/-- The small form of a glyph; a stray byte has no other. -/
def lowerGlyph : Glyph → Text
  | .scalar c => (lowerChar c).map Glyph.scalar
  | .raw b => [.raw b]

/-- The capital form of a glyph; a stray byte has no other. -/
def upperGlyph : Glyph → Text
  | .scalar c => (upperChar c).map Glyph.scalar
  | .raw b => [.raw b]

/-- A text in small letters. -/
def lowerText (t : Text) : Text := t.flatMap lowerGlyph

/-- A text in capital letters. -/
def upperText (t : Text) : Text := t.flatMap upperGlyph

end HouseStyle.Case
