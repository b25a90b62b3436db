import HouseStyle.Number.Binary64
import HouseStyle.Violation

/-!
# Configuration

The settings of a run, with their defaults.
-/

namespace HouseStyle

/-- What a configuration says about one rule. -/
structure RuleSettings where
  enabled : Option Bool := none
  severity : Option Severity := none
  deriving DecidableEq, Repr

/-- The settings of the naming rule. -/
structure NamingConfig where
  /-- Names that may be written in any way. -/
  allow : List String := []
  /-- Also check names that were not read with certainty. -/
  checkLowConfidence : Bool := false
  deriving DecidableEq, Repr

/-- The settings of the external formatter. -/
structure FormatterConfig where
  enabled : Bool := false
  /-- The program and its first arguments. -/
  command : List String := ["clang-format"]
  /-- Its failure is an error. -/
  required : Bool := false
  deriving DecidableEq, Repr

/-- The form of a report. -/
inductive OutputFormat where
  | text
  | json
  deriving DecidableEq, Repr

/-- The word for a form of report. -/
def OutputFormat.label : OutputFormat → String
  | .text => "text"
  | .json => "json"

/-- The files that are checked unless a configuration says otherwise. -/
def defaultIncluded : List String :=
  ["*.cpp", "*.cc", "*.cxx", "*.c++", "*.h", "*.hh", "*.hpp", "*.hxx", "*.h++", "*.ipp", "*.inl"]

theorem Config.rulesOnce_nil : (([] : List (String × RuleSettings)).map (·.1)).Nodup := List.nodup_nil

/-- The settings of a run. -/
structure Config where
  /-- A violation of severity `error` makes the run fail. -/
  failOnError : Bool := true
  /-- The most parameters a function may take. -/
  parameterLimit : Nat := 4
  fix : Bool := false
  format : OutputFormat := .text
  /-- The patterns of the files to check. -/
  included : List String := defaultIncluded
  /-- The patterns of the files to leave out. -/
  excluded : List String := []
  /-- The seconds after which no further file is checked. -/
  timeout : Option Quantity := none
  naming : NamingConfig := {}
  formatter : FormatterConfig := {}
  /-- The settings of rules. -/
  rules : List (String × RuleSettings) := []
  /-- Each rule has settings once. -/
  rulesOnce : (rules.map (·.1)).Nodup := by first | exact Config.rulesOnce_nil | decide
  /-- The file that the configuration was read from. -/
  source : Option SourcePath := none
  deriving DecidableEq, Repr

namespace Config

/-- The settings of a rule. -/
def ruleSettings (c : Config) (ruleId : String) : RuleSettings :=
  (c.rules.lookup ruleId).getD {}

/-- The rules that are enabled, among rules given with whether they are so by default. -/
def enabledRuleIds (c : Config) (available : List (String × Bool)) : List String :=
  (available.filter fun (ruleId, byDefault) =>
    (c.ruleSettings ruleId).enabled.getD byDefault).map (·.1)

/-- The rules that have settings but are not known, in increasing order. -/
def unknownRuleIds (c : Config) (known : List String) : List String :=
  ((c.rules.map (·.1)).filter (!known.contains ·)).mergeSort fun a b => decide (a ≤ b)

end Config

end HouseStyle
