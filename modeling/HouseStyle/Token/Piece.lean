import HouseStyle.Text.Place
import HouseStyle.Token.Lexeme

/-!
# From text to tokens

A text falls apart into pieces: tokens, and gaps of blanks and spliced line ends between them.
`Piece.ofText` cuts it up and `tokens` numbers the places, so the pieces in order are the text and
every token is the slice between its two offsets.
-/

namespace HouseStyle

/-- A stretch of source: one that separates tokens, or a token. -/
inductive Piece where
  | gap (text : Text)
  | lexeme (kind : TokenKind) (text : Text)
  deriving DecidableEq, Repr

namespace Piece

/-- The stretch of source that a piece covers. -/
def text : Piece → Text
  | .gap t => t
  | .lexeme _ t => t

/-- Whether there has been no token on the line, after a token. A comment does not count as one,
and a comment of several lines starts a line anew. -/
def lineStartAfter (lineStart : Bool) (kind : TokenKind) (text : Text) : Bool :=
  match kind with
  | .comment => lineStart || text.any (· == .scalar '\n')
  | _ => false

/-- The pieces of a text. -/
def ofText (lineStart : Bool) (t : Text) : List Piece :=
  match t with
  | [] => []
  | g :: rest =>
    if g = .scalar '\n' then .gap [g] :: ofText true rest
    else if g.isSpacing then .gap [g] :: ofText lineStart rest
    else if 0 < Lexeme.spliceLength (g :: rest) then
      let n := Lexeme.spliceLength (g :: rest)
      .gap ((g :: rest).take n) :: ofText lineStart ((g :: rest).drop n)
    else
      let kind := (Lexeme.leading lineStart (g :: rest)).1
      let n := (Lexeme.leading lineStart (g :: rest)).2
      let text := (g :: rest).take n
      .lexeme kind text :: ofText (lineStartAfter lineStart kind text) ((g :: rest).drop n)
termination_by t.length
decreasing_by
  · simp
  · simp
  · simp; omega
  · have := Lexeme.length_leading_pos lineStart (g :: rest)
    simp
    omega

/-- The tokens among the pieces of a text, of which the first piece starts at `p`. -/
def place (p : Place) : List Piece → List Token
  | [] => []
  | .gap t :: pieces => place (p.past t) pieces
  | .lexeme kind t :: pieces =>
    let q := p.past t
    { kind, text := t, start := p.offset, stop := q.offset, line := p.line, column := p.column,
      endLine := q.line, endColumn := q.column } :: place q pieces

end Piece

/-- The tokens of a source text. -/
def tokens (source : Text) : List Token := Piece.place .start (Piece.ofText true source)

end HouseStyle
