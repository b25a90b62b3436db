import HouseStyle.Text.Glyph

/-!
# Places in a text

A `Place` is an offset together with its line and column, both counted from 1. Only a line feed
starts a new line. `LineIndex` finds the line and column of any offset by a search in the table of
line starts.
-/

namespace HouseStyle

/-- A place in a text. -/
structure Place where
  offset : Nat
  line : Nat
  column : Nat
  deriving DecidableEq, Repr, Inhabited

namespace Place

/-- The place before the first glyph. -/
def start : Place := ⟨0, 1, 1⟩

/-- The place just past one more glyph. -/
def next (p : Place) (g : Glyph) : Place :=
  if g = .scalar '\n' then ⟨p.offset + 1, p.line + 1, 1⟩
  else ⟨p.offset + 1, p.line, p.column + 1⟩

/-- The place just past a stretch of text. -/
def past (p : Place) (t : Text) : Place := t.foldl next p

end Place

/-- The offsets at which the lines of a text start, in increasing order, and its length. -/
structure LineIndex where
  starts : Array Nat
  length : Nat
  deriving DecidableEq, Repr

namespace LineIndex

/-- The line starts after a given offset: the offsets just past the line feeds of the text that
begins there. -/
def startsAfter (offset : Nat) : Text → List Nat
  | [] => []
  | g :: t =>
    if g = .scalar '\n' then (offset + 1) :: startsAfter (offset + 1) t
    else startsAfter (offset + 1) t

/-- The index of a text. -/
def ofText (t : Text) : LineIndex := ⟨(0 :: startsAfter 0 t).toArray, t.length⟩

/-- The number of lines; text without a line feed is one line. -/
def lineCount (index : LineIndex) : Nat := index.starts.size

/-- How many of the starts between `low` and `high` are at most `offset`, counted from the front
of the table, by halving the range that is still open. -/
def search (starts : Array Nat) (offset low high : Nat) : Nat :=
  if low < high then
    let middle := (low + high) / 2
    if starts.getD middle 0 ≤ offset then search starts offset (middle + 1) high
    else search starts offset low middle
  else low
termination_by high - low

/-- The nearest offset that lies in the text. -/
def clamp (index : LineIndex) (offset : Int) : Nat := min offset.toNat index.length

/-- Line and column of an offset. An offset outside the text counts as its nearer end. -/
def position (index : LineIndex) (offset : Int) : Nat × Nat :=
  let o := index.clamp offset
  let line := search index.starts o 0 index.starts.size
  (line, o - index.starts.getD (line - 1) 0 + 1)

/-- The offset at which a line starts. A line outside the text counts as the nearest one. -/
def lineStart (index : LineIndex) (line : Int) : Nat :=
  index.starts.getD (min (max line 1).toNat index.lineCount - 1) 0

end LineIndex

end HouseStyle
