import HouseStyle.Config.Basic
import HouseStyle.Declaration.Extraction
import HouseStyle.Suppression
import HouseStyle.Token.Piece

/-!
# A file under check

A source file with everything the rules look at, and the places in it.
-/

namespace HouseStyle

/-- A source file, read and taken apart. -/
structure SourceFile where
  path : SourcePath
  text : Text
  tokens : List Token
  /-- The tokens without comments and directives. -/
  code : List Token
  model : Model
  suppressions : Suppressions
  lines : LineIndex
  config : Config
  /-- Other files are checked in the same run. -/
  isOneOfMany : Bool
  deriving Repr

namespace SourceFile

/-- Takes a text apart. -/
def ofText (config : Config) (isOneOfMany : Bool) (path : SourcePath) (text : Text) : SourceFile :=
  let ts := HouseStyle.tokens text
  { path, text, tokens := ts, code := Token.code ts, model := extract ts
    suppressions := Suppressions.ofTokens ts, lines := LineIndex.ofText text, config, isOneOfMany }

/-- The stretch between two offsets. -/
def location (f : SourceFile) (start stop : Nat) : Location :=
  let (startLine, startColumn) := f.lines.position start
  let (endLine, endColumn) := f.lines.position stop
  { path := some f.path, startLine := some startLine, startColumn := some startColumn
    endLine := some endLine, endColumn := some endColumn, startOffset := some start
    endOffset := some stop }

/-- The stretch of a token. -/
def tokenLocation (f : SourceFile) (t : Token) : Location :=
  { path := some f.path, startLine := some t.line, startColumn := some t.column
    endLine := some t.endLine, endColumn := some t.endColumn, startOffset := some t.start
    endOffset := some t.stop }

/-- The start of a line. -/
def lineLocation (f : SourceFile) (line : Nat) : Location :=
  let start := f.lines.lineStart line
  f.location start start

/-- The directives of the file. -/
def directives (f : SourceFile) : List Token := f.tokens.filter (·.isDirective)

end SourceFile

end HouseStyle
