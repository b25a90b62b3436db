import HouseStyle.Rule.Registry

/-!
# Checking one file

`detect` runs rules over a file. A rule whose check fails is reported itself, and the others still
run. The configuration may give the violations of a rule another severity, and violations on lines
where their rule is turned off are left out. The notes on suppression markers come last.
-/

namespace HouseStyle

/-- The note on a rule whose check failed. -/
def ruleErrorNote (f : SourceFile) (ruleId : String) (failure : RuleFailure) : Violation :=
  { ruleId := "engine/rule-error", severity := .warning, category := .engine
    message := "Rule " ++ ruleId ++ " failed on this file: " ++ failure.kind ++ ": " ++ failure.message
    location := some {
      path := some f.path, startLine := some 1, startColumn := some 1
      startOffset := some 0, endOffset := some 0 } }

/-- A violation with the severity that the configuration gives its rule. -/
def withSeverity (severity : Option Severity) (v : Violation) : Violation :=
  match severity with
  | some severity => { v with severity }
  | none => v

/-- Whether a violation is turned off where it stands; notes of the checker itself never are. -/
def isTurnedOff (s : Suppressions) (v : Violation) : Bool :=
  !v.isEngineNote && s.isSuppressed v.ruleId v.line

/-- What one rule reports on a file. -/
def detectRule (f : SourceFile) (r : Rule) : List Violation :=
  match r.check f with
  | .error failure => [ruleErrorNote f r.info.id failure]
  | .ok violations =>
    (violations.map (withSeverity (f.config.ruleSettings r.info.id).severity)).filter fun v =>
      !isTurnedOff f.suppressions v

/-- A note on a suppression marker, placed in its file. -/
def placeNote (f : SourceFile) (note : Violation) : Violation :=
  { note with location := some { note.location.getD {} with path := some f.path } }

/-- What some rules report on a file. -/
def detect (f : SourceFile) (rules : List Rule) : List Violation :=
  rules.flatMap (detectRule f) ++ f.suppressions.notes.map (placeNote f)

/-- What the rules that the configuration enables report on a file. -/
def detectEnabled (f : SourceFile) : List Violation := detect f (Rule.enabled f.config)

end HouseStyle
