import HouseStyle.Violation

/-!
# Putting results together

The violations of all files become one list: of several violations of one rule at one place only
the first stays, and the rest is put in order by path, line, column and rule.
-/

namespace HouseStyle

/-- Where a violation is and which rule it is of. Two violations that agree in it count as one. -/
structure Identity where
  ruleId : String
  /-- The path, the lines and the columns, if there is a location at all. -/
  place : Option (Option String × Option Int × Option Int × Option Int × Option Int)
  deriving DecidableEq, Repr

namespace Violation

/-- The path of a violation as it is written. -/
def pathText (v : Violation) : Option String := (v.location.bind (·.path)).map (·.toString)

/-- The identity of a violation. -/
def identity (v : Violation) : Identity :=
  ⟨v.ruleId, v.location.map fun l =>
    (l.path.map (·.toString), l.startLine, l.startColumn, l.endLine, l.endColumn)⟩

/-- What violations are ordered by. Whatever is not known comes first. -/
structure SortKey where
  path : String
  line : Int
  column : Int
  ruleId : String
  endLine : Int
  endColumn : Int
  message : String
  deriving DecidableEq, Repr

/-- The sort key of a violation. -/
def sortKey (v : Violation) : SortKey :=
  let l := v.location.getD {}
  ⟨v.pathText.getD "", l.startLine.getD 0, l.startColumn.getD 0, v.ruleId, l.endLine.getD 0,
    l.endColumn.getD 0, v.message⟩

/-- The order of sort keys, field by field. -/
def SortKey.compare (a b : SortKey) : Ordering :=
  (Ord.compare a.path b.path).then <| (Ord.compare a.line b.line).then <|
  (Ord.compare a.column b.column).then <| (Ord.compare a.ruleId b.ruleId).then <|
  (Ord.compare a.endLine b.endLine).then <| (Ord.compare a.endColumn b.endColumn).then <|
  Ord.compare a.message b.message

/-- Whether a violation may stand before another one in a report. -/
def precedes (a b : Violation) : Bool := (a.sortKey.compare b.sortKey).isLE

end Violation

/-- The violations whose identity is none of `seen` and none of an earlier violation. -/
def firstOfEach (seen : List Identity) : List Violation → List Violation
  | [] => []
  | v :: vs =>
    if seen.contains v.identity then firstOfEach seen vs
    else v :: firstOfEach (v.identity :: seen) vs

/-- One report from the results of several files. -/
def aggregate (results : List (List Violation)) : List Violation :=
  (firstOfEach [] results.flatten).mergeSort Violation.precedes

/-- How a run ended. -/
inductive RunStatus where
  | pass
  | passWithWarnings
  | fail
  | incomplete
  deriving DecidableEq, Repr

/-- The word for the end of a run. -/
def RunStatus.label : RunStatus → String
  | .pass => "pass"
  | .passWithWarnings => "pass-with-warnings"
  | .fail => "fail"
  | .incomplete => "incomplete"

/-- How a run with this report ended. -/
def runStatus (vs : List Violation) (failOnError incomplete : Bool) : RunStatus :=
  if failOnError && vs.any (·.severity == .error) then .fail
  else if incomplete then .incomplete
  else if vs.any fun v => v.severity == .error || v.severity == .warning then .passWithWarnings
  else .pass

end HouseStyle
