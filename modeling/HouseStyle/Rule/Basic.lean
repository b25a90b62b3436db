import HouseStyle.SourceFile
import HouseStyle.Text.Utf8

/-!
# Rules

A rule is what is known about it beforehand and a check. The check of a file can fail, and then the
run goes on without it.
-/

namespace HouseStyle

/-- What is known about a rule beforehand. -/
structure RuleInfo where
  id : String
  title : String
  description : String
  category : Category
  severity : Severity
  fixable : Bool := false
  enabledByDefault : Bool := true
  /-- A few lines of code that show what the rule is about. -/
  example? : Option String := none
  deriving DecidableEq, Repr

/-- Why a check could not be finished. -/
structure RuleFailure where
  kind : String
  message : String
  deriving DecidableEq, Repr

/-- A rule. -/
structure Rule where
  info : RuleInfo
  check : SourceFile → Except RuleFailure (List Violation)

instance : Coe String Text := ⟨Text.ofString⟩

namespace RuleInfo

/-- The parts of a message put together and made fit to be shown. -/
def say (parts : List Text) : String := Utf8.printable parts.flatten

/-- A violation of the rule. Without edits there is nothing to apply. -/
def violation (r : RuleInfo) (message : List Text) (location : Location)
    (suggestion : Option (List Text)) (edits : List Edit) (autofix : Bool)
    (related : List Location) : Violation :=
  { ruleId := r.id, severity := r.severity, message := say message, category := r.category
    location := some location, suggestion := suggestion.map say, edits
    autofix := autofix && !edits.isEmpty, related }

end RuleInfo

end HouseStyle
