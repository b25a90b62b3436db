/-!
# Source text

A source file is a byte string that is meant to be UTF-8 but need not be. `Glyph` is one unit of
such a text: a character, or a single byte that belongs to no well-formed character. Everything
that reads source works on `Text`, a list of glyphs, so that a file with stray bytes can be
searched, edited and written back without changing them.

Offsets and columns count glyphs.
-/

namespace HouseStyle

/-- One unit of a source text. -/
inductive Glyph where
  /-- A character. -/
  | scalar (c : Char)
  /-- A byte that is part of no well-formed character. -/
  | raw (b : UInt8)
  deriving DecidableEq, Repr, Inhabited

instance : Coe Char Glyph := ⟨.scalar⟩

/-- A source text, or a slice of one. -/
abbrev Text := List Glyph

namespace Glyph

/-- The number by which glyphs are ordered and shown. A stray byte `b` has the number
`0xDC00 + b`, which no character has. -/
def code : Glyph → Nat
  | .scalar c => c.toNat
  | .raw b => 0xDC00 + b.toNat

/-- Whether a test on characters holds of the glyph; no such test holds of a stray byte. -/
def satisfies (test : Char → Bool) : Glyph → Bool
  | .scalar c => test c
  | .raw _ => false

/-- The character of a glyph; none for a stray byte. -/
def char? : Glyph → Option Char
  | .scalar c => some c
  | .raw _ => none

/-- A space, a tab, a carriage return, a form feed or a vertical tab: the blanks of C++ that
do not end a line. -/
def isSpacing : Glyph → Bool
  | .scalar c => c == ' ' || c == '\t' || c == '\r' || c == '\x0c' || c == '\x0b'
  | .raw _ => false

end Glyph

namespace Text

/-- The text of a character string. -/
def ofString (s : String) : Text := s.toList.map Glyph.scalar

/-- The character string with this text, if the text has no stray byte. -/
def toString? (t : Text) : Option String :=
  (t.mapM Glyph.char?).map String.ofList

/-- The text of a natural number in decimal. -/
def ofNat (n : Nat) : Text := ofString (toString n)

/-- Lexicographic order by glyph number. -/
def precedes : Text → Text → Bool
  | [], [] => false
  | [], _ :: _ => true
  | _ :: _, [] => false
  | a :: as, b :: bs => a.code < b.code || (a.code == b.code && precedes as bs)

/-- The texts one after another with `separator` between them. -/
def join (separator : Text) : List Text → Text
  | [] => []
  | [t] => t
  | t :: ts => t ++ separator ++ join separator ts

/-- The text without the glyphs at its two ends that `drop` holds of. -/
def trim (drop : Glyph → Bool) (t : Text) : Text :=
  ((t.dropWhile drop).reverse.dropWhile drop).reverse

/-- The rest of a text that starts with `lead`. -/
def dropLead? : Text → Text → Option Text
  | [], t => some t
  | _ :: _, [] => none
  | a :: lead, b :: t => if a = b then dropLead? lead t else none

/-- Whether `part` occurs somewhere in the text. -/
def contains (part : Text) : Text → Bool
  | [] => part.isEmpty
  | g :: t => part.isPrefixOf (g :: t) || contains part t

/-- The text of a string, letter by letter. A string in quotes is one of letters, so that this spares
finding them in its bytes. -/
theorem ofString_ofList (letters : List Char) :
    ofString (String.ofList letters) = letters.map Glyph.scalar := by
  rw [ofString, String.toList_ofList]

end Text

end HouseStyle
