import HouseStyle.Report.Aggregate

/-!
# Reports as text

One line for each violation, and one line that sums up a run.
-/

namespace HouseStyle

/-- A violation on one line. Paths are shown relative to `root`, seen from the directory `base`. -/
def Violation.textLine (base root : SourcePath) (v : Violation) : String :=
  let place :=
    match v.location.bind (·.path) with
    | none => "<project>"
    | some p => SourcePath.shown base root p
  let position :=
    match v.location with
    | none => ""
    | some l =>
      match l.startLine with
      | none => ""
      | some line =>
        let column := l.startColumn.getD 1
        ":" ++ toString line ++ ":" ++ toString (if column = 0 then 1 else column)
  place ++ position ++ ": [" ++ v.severity.label ++ "] " ++ v.ruleId ++ ": " ++ v.message

/-- A report as lines of text. -/
def textReport (base root : SourcePath) (vs : List Violation) : String :=
  "\n".intercalate (vs.map (Violation.textLine base root))

/-- A number of things. -/
def countOf (n : Nat) (word : String) : String :=
  toString n ++ " " ++ (if n = 1 then word else word ++ "s")

/-- The line that sums up a run. -/
def summaryLine (vs : List Violation) (filesChecked : Nat) (status : RunStatus)
    (incomplete : Bool) : String :=
  let count (s : Severity) := (vs.filter (·.severity == s)).length
  "Checked " ++ toString filesChecked ++ " file(s): " ++ countOf (count .error) "error" ++ ", " ++
    countOf (count .warning) "warning" ++ ", " ++ toString (count .info) ++ " info -> " ++
    status.label ++
    (if incomplete && status != .incomplete then " (incomplete: timeout reached)" else "")

end HouseStyle
