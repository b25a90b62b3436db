import HouseStyle.Proofs.TokenPlaces

/-!
# The tokens of one text behind two others

A text may stand behind two others. If it is cut into the same pieces there, its tokens are the same but for their
places. These are as far behind the end of the one text as they are behind the end of the other one (`Place.Moved`):
their offsets and lines differ by as much as those of the two ends, and so do the columns on the line of the end.

- `Piece.place_moved`: the tokens of the same pieces behind two places.
-/

namespace HouseStyle

/-! ## Places -/

/-- The place `r` is behind `p`, and `s` is as far behind `q`. -/
structure Place.Moved (p q r s : Place) : Prop where
  offset_le : p.offset ≤ r.offset
  line_le : p.line ≤ r.line
  column_le : r.line = p.line → p.column ≤ r.column
  offset : s.offset + p.offset = r.offset + q.offset
  line : s.line + p.line = r.line + q.line
  sameLine : r.line = p.line → s.column + p.column = r.column + q.column
  laterLine : r.line ≠ p.line → s.column = r.column

namespace Place.Moved

variable {p q r s : Place}

theorem refl (p q : Place) : p.Moved q p q := by
  constructor <;> omega

theorem next (h : p.Moved q r s) (g : Glyph) : p.Moved q (r.next g) (s.next g) := by
  obtain ⟨hoffset_le, hline_le, hcolumn_le, hoffset, hline, hsame, hlater⟩ := h
  -- behind a line feed both are in the first column of a later line
  unfold Place.next
  split <;> constructor <;> dsimp only <;> omega

theorem past (h : p.Moved q r s) (t : Text) : p.Moved q (r.past t) (s.past t) := by
  induction t generalizing r s with
  | nil => exact h
  | cons g t ih => exact ih (h.next g)

end Place.Moved

/-! ## Tokens -/

namespace Token

/-- The place of the first glyph. -/
def startPlace (t : Token) : Place := ⟨t.start, t.line, t.column⟩

/-- The place behind the last glyph. -/
def stopPlace (t : Token) : Place := ⟨t.stop, t.endLine, t.endColumn⟩

/-- The token `u` says what `t` does, and is as far behind `q` as `t` is behind `p`. -/
structure Moved (p q : Place) (t u : Token) : Prop where
  kind : u.kind = t.kind
  text : u.text = t.text
  start : p.Moved q t.startPlace u.startPlace
  stop : p.Moved q t.stopPlace u.stopPlace

end Token

namespace Piece

theorem place_moved_of {p q r s : Place} (h : p.Moved q r s) (ps : List Piece) :
    List.Forall₂ (Token.Moved p q) (place r ps) (place s ps) := by
  induction ps generalizing r s with
  | nil => exact .nil
  | cons piece ps ih =>
    cases piece with
    | gap t => exact ih (h.past t)
    | lexeme kind t => exact .cons ⟨rfl, rfl, h, h.past t⟩ (ih (h.past t))

/-- Pieces behind one place have the tokens that they have behind another one, moved from the one to the other. -/
theorem place_moved (p q : Place) (ps : List Piece) :
    List.Forall₂ (Token.Moved p q) (place p ps) (place q ps) :=
  place_moved_of (.refl p q) ps

end Piece

end HouseStyle
