import HouseStyle.Detection
import HouseStyle.Formatter
import HouseStyle.Project.Fixing
import HouseStyle.Project.Target

/-!
# Checking a project

A run checks the files of a target one after another, each at its turn. With a time limit a file
whose turn comes at the deadline or later is skipped, and so are all later phases for it. What the
files gave, the notes on the configuration and the note on skipped files make the report; then the
fixable violations are applied if the configuration says so, and the external formatter is asked
about the files that were checked.

The world outside comes in as values: the file tree, the readings of the clock and what comes of each
attempt to start the formatter.
-/

namespace HouseStyle

/-- What a run needs to know of the world outside. -/
structure World where
  /-- The directory that relative paths are seen from. -/
  base : SourcePath
  tree : FileTree
  /-- The readings of the clock, one after another. -/
  clock : Nat → Quantity
  /-- What comes of starting the formatter on a file, attempt by attempt. -/
  spawn : SourcePath → Nat → SpawnOutcome

/-- A note of the checker itself, on a line of a file or on the whole project. -/
def engineNote (ruleId : String) (severity : Severity) (message : String) (path : Option SourcePath)
    (line : Nat) : Violation :=
  { ruleId := "engine/" ++ ruleId, severity, message, category := .engine
    location := path.map fun p =>
      { path := some p, startLine := some line, startColumn := some 1 } }

/-! ## The turns of the files -/

/-- What checking one file gave. -/
structure FileOutcome where
  path : SourcePath
  /-- None if the turn of the file came too late. -/
  violations : Option (List Violation)
  log : List LogRecord := []
  deriving Repr

namespace CheckTarget

/-- Checks one file as it is in a tree. -/
def checkFile (target : CheckTarget) (base : SourcePath) (tree : FileTree) (isOneOfMany : Bool)
    (p : SourcePath) : FileOutcome :=
  match tree.file? p with
  | none =>
    { path := p
      violations := some [engineNote "unreadable-file" .warning
        "File could not be read; it was not checked." (some p) 1]
      log := [⟨.warning, .checking, "could not read " ++ SourcePath.shown base target.root p⟩] }
  | some bytes =>
    { path := p
      violations := some (detectEnabled
        (SourceFile.ofText target.config isOneOfMany p (Utf8.decode bytes))) }

/-- The turn of one file: it is checked unless the clock has reached the deadline. -/
def turn (target : CheckTarget) (base : SourcePath) (tree : FileTree) (isOneOfMany : Bool)
    (deadline : Option Quantity) (reading : Quantity) (p : SourcePath) : FileOutcome :=
  if deadline.any (·.le reading) then { path := p, violations := none }
  else target.checkFile base tree isOneOfMany p

/-- The deadline of a run that starts at a reading of the clock. -/
def deadline (target : CheckTarget) (start : Quantity) : Except RunFault (Option Quantity) :=
  match target.config.timeout with
  | none => .ok none
  | some limit =>
    match start.add? limit with
    | some d => .ok (some d)
    | none => .error .tooLarge

/-! ## The report -/

/-- The rules that have settings but are not known. -/
def unknownRules (target : CheckTarget) : List String := target.config.unknownRuleIds Rule.ids

/-- The notes on rules that have settings but are not known. -/
def unknownRuleNotes (target : CheckTarget) : List Violation :=
  target.unknownRules.map fun id =>
    engineNote "unknown-rule" .warning ("Configuration refers to unknown rule `" ++ id ++ "`.")
      target.config.source 1

/-- How many files were skipped out of how many. -/
def skippedText (skipped total : Nat) : String :=
  toString skipped ++ " of " ++ toString total ++ " file(s) were not checked"

/-- The note on files that were skipped, if there are any. -/
def skippedNotes (skipped total : Nat) : List Violation :=
  if skipped = 0 then []
  else
    [engineNote "incomplete-run" .warning ("Timeout reached: " ++ skippedText skipped total ++ ".")
      none 1]

/-! ## The formatter -/

/-- What the formatter gave for one file: a note if it failed or would change the file, and the tree,
in which the file has changed if `writeBack` says so. -/
def formatFile (target : CheckTarget) (w : World) (writeBack : Bool) (tree : FileTree)
    (p : SourcePath) : List Violation × FileTree × Formatter.Run × List LogRecord :=
  let label := SourcePath.shown w.base target.root p
  let formatter := target.config.formatter
  let run := Formatter.run formatter.command p.toString (some Formatter.timeLimit) (w.spawn p)
  let attempts := (run.problems.zipIdx 1).map fun (problem, k) =>
    (⟨.debug, .formatting, "formatter spawn attempt " ++ toString k ++ " failed: " ++ problem⟩ :
      LogRecord)
  match run.result with
  | .error e =>
    ([engineNote "formatter-failed" (if formatter.required then .error else .warning)
        ("Formatter failed: " ++ e.message) (some p) 1], tree, run,
      attempts ++ [⟨.warning, .checking, "formatter failed on " ++ label ++ ": " ++ e.message⟩])
  | .ok formatted =>
    match Diff.firstDifferenceLine (Utf8.decode ((tree.file? p).getD [])) formatted with
    | none => ([], tree, run, attempts)
    | some line =>
      if writeBack then
        ([], tree.write p (Utf8.encode formatted), run,
          attempts ++ [⟨.debug, .checking, "formatted " ++ label⟩])
      else
        ([engineNote "format-drift" .info "File differs from the formatter's output." (some p) line],
          tree, run, attempts)

/-- Asks the formatter about files one after another. -/
def formatFiles (target : CheckTarget) (w : World) (writeBack : Bool) (tree : FileTree) :
    List SourcePath → List Violation × FileTree × List (List String) × List LogRecord
  | [] => ([], tree, [], [])
  | p :: ps =>
    let (notes, tree, run, log) := target.formatFile w writeBack tree p
    let (more, tree, calls, rest) := formatFiles target w writeBack tree ps
    (notes ++ more, tree, run.calls ++ calls, log ++ rest)

end CheckTarget

/-! ## Whole runs -/

/-- What a run gave. -/
structure CheckResult where
  target : CheckTarget
  /-- The files that were found. -/
  found : List SourcePath
  /-- The files that were checked. -/
  files : List SourcePath
  violations : List Violation
  status : RunStatus
  /-- Some files were skipped. -/
  incomplete : Bool
  fix : Option FixReport
  /-- The arguments of each attempt to start the formatter. -/
  calls : List (List String)
  tree : FileTree
  log : List LogRecord

namespace CheckTarget

/-- The files of a target. -/
def files (target : CheckTarget) (w : World) : Except RunFault (List SourcePath) :=
  w.tree.discover target.config w.base target.root target.paths

/-- What became of the tree and the report before the formatter is asked. -/
def fixPhase (target : CheckTarget) (w : World) (mode : FixMode) (vs : List Violation) :
    List Violation × Option FixReport × FileTree × List LogRecord :=
  if target.config.fix then
    let (report, tree, log) := w.tree.fix mode w.base target.root vs
    (report.violations, some report, tree, log)
  else (vs, none, w.tree, [])

/-- What the formatter adds to the report. -/
def formatPhase (target : CheckTarget) (w : World) (mode : FixMode) (checked : List SourcePath)
    (tree : FileTree) (vs : List Violation) :
    List Violation × FileTree × List (List String) × List LogRecord :=
  if target.config.formatter.enabled then
    let writeBack := target.config.fix && !mode.dryRun
    let (notes, tree, calls, log) :=
      target.formatFiles w writeBack tree (checked.filter fun p => (tree.file? p).isSome)
    (aggregate [vs, notes], tree, calls, log)
  else (vs, tree, [], [])

/-- The result of a run from what the turns of its files gave. -/
def conclude (target : CheckTarget) (w : World) (mode : FixMode) (outcomes : List FileOutcome) :
    CheckResult :=
  let found := outcomes.map (·.path)
  let checked := (outcomes.filter (·.violations.isSome)).map (·.path)
  let skipped := found.length - checked.length
  let notes := target.unknownRuleNotes ++ skippedNotes skipped found.length
  let vs := aggregate (outcomes.filterMap (·.violations) ++ [notes])
  let (vs, fix, tree, fixLog) := target.fixPhase w mode vs
  let (vs, tree, calls, formatLog) := target.formatPhase w mode checked tree vs
  let incomplete := 0 < skipped
  let unknownLog := target.unknownRules.map fun id =>
    (⟨.warning, .checking, "unknown rule id in configuration: " ++ id⟩ : LogRecord)
  let skippedLog : List LogRecord :=
    if incomplete then
      [⟨.warning, .checking, "timeout reached: " ++ skippedText skipped found.length⟩]
    else []
  { target, found, files := checked, violations := vs
    status := runStatus vs target.config.failOnError incomplete, incomplete, fix, calls, tree
    log := unknownLog ++ outcomes.flatMap (·.log) ++ skippedLog ++ fixLog ++ formatLog }

/-- A run over the files of a target. The first reading of the clock starts it, and each file has
one reading at its turn. -/
def check (target : CheckTarget) (w : World) (mode : FixMode) : Except RunFault CheckResult := do
  let found ← target.files w
  let deadline ← target.deadline (w.clock 0)
  let outcomes := found.zipIdx.map fun (p, k) =>
    target.turn w.base w.tree (decide (1 < found.length)) deadline (w.clock (k + 1)) p
  return target.conclude w mode outcomes

end CheckTarget

end HouseStyle
