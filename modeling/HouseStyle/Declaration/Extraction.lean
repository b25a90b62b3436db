import HouseStyle.Declaration.Progress
import HouseStyle.Text.Blank
import HouseStyle.Text.Letter
import HouseStyle.Text.Place

/-!
# Reading the declarations of a file

`extract` goes through the tokens of a file statement by statement, and then through the directives
for the macros that they define. The entities of the model are in the order in which their names
stand in the file.
-/

namespace HouseStyle

namespace Extraction

/-- All statements of a list of tokens. Each one takes at least its first token. -/
def run (x : Extraction) (ts : List Token) : Extraction :=
  match ts with
  | [] => x
  | t :: rest =>
    let read := x.statement t rest
    run read.1 read.2
termination_by ts.length
decreasing_by
  have := (suffix_statement x t rest).length_le
  simp only [List.length_cons]
  omega

/-- Ends the scopes that are still open where the file ends. -/
def endOpened (x : Extraction) (fileEnd : Nat) : Extraction :=
  x.opened.foldl (·.endScope · fileEnd) x

/-! ## Macros -/

/-- The text in front of the name that a `#define` defines, and that name. -/
def definedName? (directive : Text) : Option (Text × Text) :=
  let blank := Glyph.satisfies Blank.isBlank
  let starts := Glyph.satisfies fun c => c.isAlpha || c == '_'
  let continues := Glyph.satisfies fun c => c.isAlphanum || c == '_'
  match directive with
  | .scalar '#' :: rest =>
    match Text.dropLead? (Text.ofString "define") (rest.dropWhile blank) with
    | none => none
    | some after =>
      let named := after.dropWhile blank
      let name := named.takeWhile continues
      if (after.head?.any blank) && (name.head?.any starts) then
        some (directive.take (directive.length - named.length), name)
      else none
  | _ => none

/-- Records the macro that a directive defines. -/
def addMacro (x : Extraction) (directive : Token) : Extraction :=
  match definedName? directive.text with
  | none => x
  | some (lead, name) =>
    let p := Place.past ⟨directive.start, directive.line, directive.column⟩ lead
    let q := p.past name
    let token : Token :=
      { kind := .identifier, text := name, start := p.offset, stop := q.offset, line := p.line
        column := p.column, endLine := q.line, endColumn := q.column }
    x.add { kind := .macro_, name, token, scope := 0 }

end Extraction

/-- The declaration model of a file, given its tokens. -/
def extract (tokens : List Token) : Model :=
  let code := Token.code tokens
  let fileEnd := (code.getLast?.map (·.stop)).getD 0
  let read := ((Extraction.initial fileEnd).run code).endOpened fileEnd
  let all := (tokens.filter (·.isDirective)).foldl (·.addMacro ·) read
  { entities := all.entities.toList.mergeSort Entity.precedes
    scopes := all.scopes
    anomalies := all.anomalies.toList }

end HouseStyle
