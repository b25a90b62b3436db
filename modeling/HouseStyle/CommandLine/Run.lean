import HouseStyle.CommandLine.Arguments
import HouseStyle.CommandLine.Console
import HouseStyle.Project.Check
import HouseStyle.Report.Json
import HouseStyle.Report.Lines
import HouseStyle.Text.Case
import HouseStyle.Text.Quoted

/-!
# Running a command

A command line is a request, and what comes of it is an exit code, two outputs and a file tree. The
report goes to the one output; the log, the line that sums up a run and all complaints go to the
other, so that a report in JSON stays readable for programs.

The exit code is 0 for a run that passes, 1 for one that fails, and 2 for one that is incomplete or
could not be started.
-/

namespace HouseStyle.CommandLine

/-- The version of the program. -/
def version : String := "0.3.0"

/-- What came of a command. -/
structure Output where
  exit : Nat := 0
  stdout : String := ""
  stderr : String := ""
  /-- The file tree as the command leaves it; none if it did not touch it. -/
  tree : Option FileTree := none
  deriving Inhabited

/-- Why a command came to nothing. -/
inductive Failure where
  | usage (e : UsageError)
  /-- The run cannot start. -/
  | fault (f : RunFault)

/-- Lines, each with its end. -/
def asLines (ls : List String) : String := String.join (ls.map (· ++ "\n"))

/-! ## The rules -/

/-- A truth value as a word. -/
def yesNo (b : Bool) : String := if b then "yes" else "no"

/-- A rule as an object. -/
def ruleRecord (r : RuleInfo) : JsonValue :=
  .object [("category", .ofString r.category.label), ("default_enabled", .bool r.enabledByDefault),
    ("default_severity", .ofString r.severity.label), ("description", .ofString r.description),
    ("fixable", .bool r.fixable), ("rule_id", .ofString r.id), ("title", .ofString r.title)]

/-- The rows of the list of rules, the head first. -/
def ruleRows : List (List String) :=
  ["ID", "Category", "Severity", "Fixable", "Enabled", "Title"] ::
    Rule.builtin.map fun r =>
      [r.info.id, r.info.category.label, r.info.severity.label, yesNo r.info.fixable,
        yesNo r.info.enabledByDefault, r.info.title]

/-- A text with blanks up to a width. -/
def padded (width : Nat) (s : String) : String :=
  s ++ String.ofList (List.replicate (width - s.length) ' ')

/-- Rows with their columns below each other. -/
def columns (rows : List (List String)) : List String :=
  let width (k : Nat) : Nat := (rows.map fun row => (row[k]?.getD "").length).foldl max 0
  rows.map fun row =>
    "  ".intercalate (row.zipIdx.map fun (s, k) => if k + 1 = row.length then s else padded (width k) s)

/-- The form of report for a word, or the complaint that there is none. -/
def format? (word : String) : Except Failure OutputFormat :=
  match Config.outputFormat? word with
  | some f => .ok f
  | none => .error (.usage .unknownFormat)

/-- The list of rules. -/
def listRules (word : String) : Except Failure Output := do
  match ← format? word with
  | .json =>
    return { stdout :=
      JsonValue.render 0 (.array (Rule.builtin.map fun r => ruleRecord r.info)) ++ "\n" }
  | .text => return { stdout := asLines ("cppconform rules" :: columns ruleRows) }

/-- What there is to say about a rule. -/
def ruleLines (r : RuleInfo) : List String :=
  [r.id ++ ": " ++ r.title, "", r.description, "", "Category: " ++ r.category.label,
    "Default severity: " ++ r.severity.label, "Fixable: " ++ yesNo r.fixable,
    "Enabled by default: " ++ yesNo r.enabledByDefault, "",
    "Config override (.cppconform.toml):", "[rules." ++ r.id ++ "]", "enabled = true",
    "severity = \"info\"  # or warning/error", "",
    "Suppressions (in-file):", "// cppconform: disable-file=" ++ r.id,
    "int value = 1;  // cppconform: disable-line=" ++ r.id,
    "// cppconform: disable-next-line=" ++ r.id, "int other = 2;"] ++
  match r.example? with
  | some code => ["", "Example:", code]
  | none => []

/-- The explanation of a rule. -/
def explain (word : String) : Except Failure Output :=
  match Rule.find? (Case.lower (Blank.trim word)) with
  | some r => .ok { stdout := asLines (ruleLines r.info) }
  | none => .error (.usage (.unknownRule (Quoted.quote word)))

/-! ## Checks -/

/-- The records of a log that a run shows, as lines. -/
def logLines (verbosity : Verbosity) (log : List LogRecord) : List String :=
  let least : LogLevel :=
    match verbosity with
    | .quiet => .warning
    | .normal => .info
    | .verbose => .debug
  (log.filter fun r => least.rank ≤ r.level.rank).map (LogRecord.line (verbosity == .verbose))

/-- Checks that no directory is given in place of the configuration. -/
def checkConfigPath (w : World) (text : String) : Except Failure Unit :=
  let p := SourcePath.ofString text
  if !p.isPossible then .error (.fault .zeroInPath)
  else
    match w.tree.follow (w.base.join p) with
    | .ok place =>
      if text != "" && w.tree.isDirectory place then .error (.usage (.directoryGiven text)) else .ok ()
    | .error _ => .ok ()

/-- Checks that there is something at a path. -/
def checkPath (w : World) (text : String) : Except Failure Unit :=
  let p := SourcePath.ofString text
  let place := SourcePath.resolve w.base p
  if !p.isPossible then .error (.fault .zeroInPath)
  else if w.tree.isFile place || w.tree.isDirectory place then .ok ()
  else .error (.usage (.missingPath text))

/-- Checks the paths of the options before those of the files. -/
def checkPaths (w : World) (o : CheckOptions) : Except Failure Unit := do
  o.configFile.forM (checkConfigPath w)
  o.paths.forM (checkPath w)

/-- The settings of a run: those of the configuration where the options say nothing. -/
def settings (o : CheckOptions) (c : Config) : Except Failure Config := do
  let format ←
    match o.format with
    | some word => format? word
    | none => pure c.format
  return { c with
    format
    fix := o.fix.getD c.fix
    failOnError := o.failOnError.getD c.failOnError
    timeout := (o.timeout.map Quantity.real).or c.timeout }

/-- What is to be checked, or the output of a run that could not be started. -/
def target (w : World) (o : CheckOptions) : Except Failure (Except Output CheckTarget) := do
  checkPaths w o
  match w.tree.target w.base (o.paths.map SourcePath.ofString) (o.configFile.map SourcePath.ofString) with
  | .error (.invalid e) =>
    return .error { exit := 2, stderr := Console.readable ("Configuration error: " ++ e.message ++ "\n") }
  | .error f => throw (.fault f)
  | .ok t => (settings o t.config).map fun config => .ok { t with config }

/-- How files are fixed. -/
def fixMode (o : CheckOptions) : FixMode := { dryRun := o.dryRun, backup := o.backup }

/-- The exit code of a run. -/
def exitCode : RunStatus → Nat
  | .fail => 1
  | .incomplete => 2
  | .pass => 0
  | .passWithWarnings => 0

/-- The differences that a dry run shows, if there are any. -/
def dryDiff? (r : CheckResult) : Option String :=
  r.fix.bind fun f => if f.dryRun && !f.diff.isEmpty then some f.diff else none

/-- The lines that sum up a run. -/
def closingLines (r : CheckResult) : List String :=
  summaryLine r.violations r.files.length r.status r.incomplete ::
    match r.fix with
    | some f =>
      if f.changedFiles.isEmpty || f.dryRun then []
      else ["Fixed " ++ toString f.changedFiles.length ++ " file(s)."]
    | none => []

/-- The output of a run. -/
def present (base : SourcePath) (verbosity : Verbosity) (r : CheckResult) : Output :=
  let root := r.target.root
  let closing := if verbosity = .quiet then [] else closingLines r
  let diff := (dryDiff? r).toList
  let (report, shown, noted) :=
    match r.target.config.format with
    | .json => ([jsonReport base root r.violations], [], diff)
    | .text => (if r.violations.isEmpty then [] else [textReport base root r.violations], diff, [])
  { exit := exitCode r.status
    stdout := asLines ((shown ++ report).map Console.withoutSequences)
    stderr := asLines (logLines verbosity r.log ++ (noted ++ closing).map Console.readable)
    tree := some r.tree }

/-- Checks files. -/
def runCheck (w : World) (verbosity : Verbosity) (o : CheckOptions) : Except Failure Output := do
  match ← target w o with
  | .error output => return output
  | .ok t =>
    match t.check w (fixMode o) with
    | .ok r => return present w.base verbosity r
    | .error f => throw (.fault f)

/-! ## Commands -/

/-- How the program is used. -/
def helpLines : List String :=
  ["cppconform: C++ convention conformance checker.", "",
    "cppconform [--version] [-v | -q] [--no-progress] COMMAND", "",
    "check [PATH...] [--config FILE] [--fix | --no-fix] [--format text|json]",
    "      [--fail-on-error | --no-fail-on-error] [--dry-run] [--backup] [--timeout SECONDS]",
    "rules [--format text|json]", "explain RULE_ID"]

/-- Runs a command line. -/
def run (w : World) (texts : List String) : Except Failure Output :=
  match request texts with
  | .error e => .error (.usage e)
  | .ok .version => .ok { stdout := asLines [version] }
  | .ok .help => .ok { stdout := asLines helpLines }
  | .ok (.check verbosity o) => runCheck w verbosity o
  | .ok (.rules word) => listRules word
  | .ok (.explain id) => explain id

end HouseStyle.CommandLine
