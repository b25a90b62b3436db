import HouseStyle.Rule.Basic

/-!
# Layout of files

Headers are guarded against being included twice, and code that could not be read is pointed out.
-/

namespace HouseStyle

namespace IncludeGuardRule

/-- What is known about the rule. -/
def info : RuleInfo where
  id := "missing-include-guard"
  title := "Missing include guard"
  description := "Headers need `#pragma once` or an `#ifndef`/`#define` guard so repeated " ++
    "inclusion is harmless."
  category := .formatting
  severity := .warning
  fixable := true
  example? := some "// widget.h\n#pragma once\n"

/-- White space inside a directive. -/
def isBlank (g : Glyph) : Bool := g.satisfies Blank.isBlank

/-- A glyph of a word. -/
def isWordGlyph (g : Glyph) : Bool := g.satisfies Letter.isWordChar

/-- What follows the `#` of a directive and the white space after it. -/
def afterHash? : Text → Option Text
  | .scalar '#' :: t => some (t.dropWhile isBlank)
  | _ => none

/-- What follows a word and the white space after it, of which there must be some. -/
def afterWord? (word : String) (t : Text) : Option Text :=
  match Text.dropLead? (Text.ofString word) t with
  | none => none
  | some rest => if rest.head?.any isBlank then some (rest.dropWhile isBlank) else none

/-- The word at the front of a text. -/
def word? (t : Text) : Option Text :=
  let word := t.takeWhile isWordGlyph
  if word.isEmpty then none else some word

/-- Whether a directive is `#pragma once`. -/
def isPragmaOnce (directive : Text) : Bool :=
  match (afterHash? directive).bind (afterWord? "pragma") with
  | none => false
  | some rest =>
    match Text.dropLead? (Text.ofString "once") rest with
    | none => false
    | some after => !after.head?.any isWordGlyph

/-- The text without one glyph at its front, if it is there. -/
def withoutLead (g : Glyph) : Text → Text
  | [] => []
  | h :: t => if h = g then t else h :: t

/-- The name that a `#ifndef`, or an `#if` of `!defined`, asks for. -/
def testedName? (directive : Text) : Option Text :=
  match afterHash? directive with
  | none => none
  | some rest =>
    match afterWord? "ifndef" rest with
    | some name => word? name
    | none =>
      match afterWord? "if" rest with
      | some (.scalar '!' :: t) =>
        match Text.dropLead? (Text.ofString "defined") (t.dropWhile isBlank) with
        | some t => word? ((withoutLead (.scalar '(') (t.dropWhile isBlank)).dropWhile isBlank)
        | none => none
      | _ => none

/-- The name that a `#define` defines. -/
def definedName? (directive : Text) : Option Text :=
  ((afterHash? directive).bind (afterWord? "define")).bind word?

/-- Whether the directives of a file guard it: one of them is `#pragma once`, or the first two ask
for a name and define it. -/
def isGuarded (directives : List Text) : Bool :=
  directives.any isPragmaOnce ||
    match directives with
    | first :: second :: _ =>
      match testedName? first with
      | some name => definedName? second == some name
      | none => false
    | _ => false

/-- Whether a file has an include guard. -/
def hasGuard (f : SourceFile) : Bool := isGuarded (f.directives.map (·.text))

/-- The line that guards a header. -/
def pragmaOnce : Text := Text.ofString "#pragma once\n"

/-- Whether a comment is a block comment that is not closed. -/
def isOpenComment (t : Text) : Bool :=
  (Text.ofString "/*").isPrefixOf t &&
    (t.length < 4 || !(Text.ofString "*/").isSuffixOf t)

/-- The edit that puts the guarding line after the comments at the start of a file. None if they
end in a comment that is not closed. -/
def guardEdit? (f : SourceFile) : Option Edit :=
  match (f.tokens.takeWhile (·.isComment)).getLast? with
  | none => some ⟨0, 0, pragmaOnce⟩
  | some comment =>
    if isOpenComment comment.text then none
    else
      let after := f.text.drop comment.stop
      let line := after.takeWhile (· != .scalar '\n')
      if line.length = after.length then
        some ⟨f.text.length, f.text.length, .scalar '\n' :: pragmaOnce⟩
      else if !line.all isBlank then some ⟨comment.stop, comment.stop, .scalar '\n' :: pragmaOnce⟩
      else
        let next := comment.stop + line.length + 1
        some ⟨next, next, pragmaOnce⟩

/-- The check. -/
def check (f : SourceFile) : List Violation :=
  if !f.path.isHeader || hasGuard f then []
  else
    [info.violation ["Header has no include guard."] (f.lineLocation 1)
      (some ["add `#pragma once` after the leading comment block"]) (guardEdit? f).toList true []]

end IncludeGuardRule

namespace UnparsedRule

/-- What is known about the rule. -/
def info : RuleInfo where
  id := "unparsed-region"
  title := "Unparsed region"
  description := "Code the declaration extractor could not classify; naming and interface rules " ++
    "skip it."
  category := .formatting
  severity := .info
  enabledByDefault := false

/-- The check. -/
def check (f : SourceFile) : List Violation :=
  f.model.anomalies.map fun (first, last) =>
    info.violation ["Could not parse this construct; it was skipped."]
      (f.location first.start last.stop) none [] false []

end UnparsedRule

end HouseStyle
