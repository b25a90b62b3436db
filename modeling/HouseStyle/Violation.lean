import HouseStyle.Path

/-!
# Violations

What a rule reports: a message about a place in a file, and the edits that would mend it.
-/

namespace HouseStyle

/-- How serious a violation is. -/
inductive Severity where
  | info
  | warning
  | error
  deriving DecidableEq, Repr

/-- The word for a severity. -/
def Severity.label : Severity → String
  | .info => "info"
  | .warning => "warning"
  | .error => "error"

/-- The severity for a word. -/
def Severity.ofLabel? (s : String) : Option Severity :=
  [Severity.info, .warning, .error].find? (·.label == s)

/-- What a rule is about. -/
inductive Category where
  | naming
  | formatting
  | resource
  | typeSafety
  | interface
  | errorHandling
  | engine
  deriving DecidableEq, Repr

/-- The word for a category. -/
def Category.label : Category → String
  | .naming => "naming"
  | .formatting => "formatting"
  | .resource => "resource"
  | .typeSafety => "type-safety"
  | .interface => "interface"
  | .errorHandling => "error-handling"
  | .engine => "engine"

/-- The category for a word. -/
def Category.ofLabel? (s : String) : Option Category :=
  [Category.naming, .formatting, .resource, .typeSafety, .interface, .errorHandling, .engine].find?
    (·.label == s)

/-- A stretch of a file, as far as it is known. Lines and columns count from 1; offsets count the
glyphs of the text. Like the offsets of an edit they are whole numbers, since nothing checks what a
violation from elsewhere holds. -/
structure Location where
  path : Option SourcePath := none
  startLine : Option Int := none
  startColumn : Option Int := none
  endLine : Option Int := none
  endColumn : Option Int := none
  startOffset : Option Int := none
  endOffset : Option Int := none
  deriving DecidableEq, Repr

/-- Puts `replacement` in the place of the glyphs from `start` up to `stop`; with equal ends it is
an insertion. -/
structure Edit where
  start : Int
  stop : Int
  replacement : Text
  deriving DecidableEq, Repr

namespace Edit

/-- The edit takes no glyph away. -/
def isInsertion (e : Edit) : Bool := e.start == e.stop

/-- Whether two edits get in each other's way. Two insertions at one offset have no defined order,
and an insertion at the start of a replaced stretch would be lost in it. -/
def overlaps (a b : Edit) : Bool :=
  if a.isInsertion then
    if b.isInsertion then a.start == b.start else b.start ≤ a.start && a.start < b.stop
  else if b.isInsertion then a.start ≤ b.start && b.start < a.stop
  else a.start < b.stop && b.start < a.stop

end Edit

/-- A violation of a rule, or a note of the checker itself. -/
structure Violation where
  ruleId : String
  severity : Severity
  message : String
  category : Category
  location : Option Location := none
  suggestion : Option String := none
  edits : List Edit := []
  /-- The edits may be applied without asking. -/
  autofix : Bool := false
  related : List Location := []
  deriving DecidableEq, Repr

namespace Violation

/-- The line it starts on. -/
def line (v : Violation) : Option Int := v.location.bind (·.startLine)

/-- Whether it is a note of the checker itself and not of a rule. -/
def isEngineNote (v : Violation) : Bool := "engine/".isPrefixOf v.ruleId

end Violation

end HouseStyle
