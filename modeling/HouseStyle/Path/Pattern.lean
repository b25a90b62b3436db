import HouseStyle.Config.Basic
import HouseStyle.Path.Glob
import HouseStyle.Text.Blank

/-!
# Which files are checked

A configuration names the files to check, and those to leave out, by patterns of three kinds. A
pattern that ends with `/` is a directory, at any depth, and matches everything below it. One with
another `/` in it is a glob for the whole path. One without is a glob for the last part of the path
or for the whole of it.
-/

namespace HouseStyle

/-- A pattern for paths. -/
inductive PathPattern where
  /-- Everything below a directory; the text ends with a slash. -/
  | directory (text : List Char)
  /-- Paths that a glob matches. -/
  | path (glob : Glob)
  /-- Paths that a glob matches, or whose last part it matches. -/
  | name (glob : Glob)
  deriving DecidableEq, Repr

namespace PathPattern

/-- A pattern without white space at its ends and with `/` for `\`. -/
def spelled (s : String) : List Char :=
  (Blank.trim s).toList.map fun c => if c = '\\' then '/' else c

/-- A pattern without one `./` at its front. -/
def withoutHere : List Char → List Char
  | '.' :: '/' :: rest => rest
  | cs => cs

/-- The pattern that some characters stand for. -/
def ofChars (cs : List Char) : PathPattern :=
  if cs.getLast? = some '/' then .directory cs
  else if cs.contains '/' then .path (Glob.ofChars cs)
  else .name (Glob.ofChars cs)

/-- Reads a pattern. White space at its ends and one `./` at its front mean nothing, and `\` is a
slash. A blank is no pattern. -/
def ofString? (s : String) : Option PathPattern :=
  if (spelled s).isEmpty then none else some (ofChars (withoutHere (spelled s)))

/-- The last part of a path: what follows its last slash. -/
def baseName (path : String) : String :=
  String.ofList (path.toList.reverse.takeWhile (· != '/')).reverse

/-- Whether a text is found somewhere in another one. -/
def isWithin (text inside : List Char) : Bool := (Glob.suffixes inside).any text.isPrefixOf

/-- Whether a pattern matches a relative path. A directory is looked for behind a slash, the path
itself having one in front, so that only whole parts of the path count. -/
def accepts (path : String) : PathPattern → Bool
  | .directory text => isWithin ('/' :: text) ('/' :: path.toList)
  | .path glob => glob.accepts path
  | .name glob => glob.accepts (baseName path) || glob.accepts path

/-- Whether any of some patterns matches a relative path. -/
def anyAccepts (patterns : List String) (path : String) : Bool :=
  (patterns.filterMap ofString?).any (·.accepts path)

end PathPattern

/-- Whether a configuration selects a file found in the directory `root`. A file outside of it goes
by its name, and so does one if either path is impossible. -/
def Config.selects (c : Config) (base root p : SourcePath) : Bool :=
  let relative :=
    if p.isPossible && root.isPossible then
      match (SourcePath.resolve base p).relativeTo? (SourcePath.resolve base root) with
      | some q => q.toString
      | none => p.name
    else p.name
  PathPattern.anyAccepts c.included relative && !PathPattern.anyAccepts c.excluded relative

end HouseStyle
