import HouseStyle.Number.Reading

/-!
# Reading the arguments

A command line has options of its own, then the name of a command, then the arguments of the
command, among which its options may stand in any order. Of options that contradict each other the
last one counts, and after `--` nothing is an option.
-/

namespace HouseStyle.CommandLine

/-- What is wrong with a command line. -/
inductive UsageError where
  | noCommand
  | unknownCommand (name : String)
  | unknownOption (name : String)
  | missingValue (option : String)
  | unexpectedValue (option : String)
  | unexpectedArgument (text : String)
  | missingArgument (name : String)
  | invalidValue (option value : String)
  /-- There is nothing at a path. -/
  | missingPath (path : String)
  /-- A directory stands where a file is meant. -/
  | directoryGiven (path : String)
  /-- The run should both say more and say less. -/
  | contradiction
  | unknownFormat
  /-- There is no such rule; the name is in quotes. -/
  | unknownRule (quoted : String)
  deriving DecidableEq, Repr

/-- What an error says. -/
def UsageError.message : UsageError → String
  | .noCommand => "Missing command."
  | .unknownCommand name => "No such command: " ++ name
  | .unknownOption name => "No such option: " ++ name
  | .missingValue option => "Option " ++ option ++ " requires an argument."
  | .unexpectedValue option => "Option " ++ option ++ " does not take a value."
  | .unexpectedArgument text => "Got unexpected extra argument: " ++ text
  | .missingArgument name => "Missing argument: " ++ name
  | .invalidValue option value => "Invalid value for " ++ option ++ ": " ++ value
  | .missingPath path => "Path does not exist: " ++ path
  | .directoryGiven path => "File is a directory: " ++ path
  | .contradiction => "Choose at most one: --verbose or --quiet."
  | .unknownFormat => "Unsupported format. Use: text, json."
  | .unknownRule quoted =>
    "Unknown rule id: " ++ quoted ++ ". Use `cppconform rules` to list available rules."

/-! ## Options and arguments -/

/-- An option by its names, the first of which is the one it goes by. -/
structure OptionForm where
  names : List String
  takesValue : Bool := false

/-- A part of a command line. -/
inductive Item where
  | flag (name : String)
  | option (name value : String)
  | argument (text : String)
  deriving DecidableEq, Repr

/-- The option of a name. -/
def formOf? (forms : List OptionForm) (name : String) : Option OptionForm :=
  forms.find? (·.names.contains name)

/-- The name that an option goes by. -/
def OptionForm.name (f : OptionForm) : String := f.names.headD ""

/-- The flags of one letter that a text stands for. -/
def letterFlags (forms : List OptionForm) : List Char → Except UsageError (List Item)
  | [] => .ok []
  | c :: cs =>
    let name := String.ofList ['-', c]
    match formOf? forms name with
    | none => .error (.unknownOption name)
    | some f => (letterFlags forms cs).map fun rest => .flag f.name :: rest

/-- Whether a text stands for an option. -/
def isOption (text : String) : Bool := "-".isPrefixOf text && text != "-"

/-- A long option split at its first `=`, into its name and the value that follows. -/
def splitOption (text : String) : String × Option String :=
  match text.toList.dropWhile (· != '=') with
  | [] => (text, none)
  | _ :: value => (String.ofList (text.toList.takeWhile (· != '=')), some (String.ofList value))

/-- Reads options and arguments. If `stops` the first argument ends the reading, and it is given back
with all that follows. -/
def items (forms : List OptionForm) (stops : Bool) :
    List String → Except UsageError (List Item × List String)
  | [] => .ok ([], [])
  | text :: texts =>
    if text = "--" then
      if stops then .ok ([], texts) else .ok (texts.map .argument, [])
    else if !isOption text then
      if stops then .ok ([], text :: texts)
      else (items forms stops texts).map fun (is, rest) => (.argument text :: is, rest)
    else
      let (name, value?) := splitOption text
      if !"--".isPrefixOf text then do
        let flags ← letterFlags forms (text.toList.drop 1)
        let (is, rest) ← items forms stops texts
        return (flags ++ is, rest)
      else
        match formOf? forms name with
        | none => .error (.unknownOption name)
        | some f =>
          if f.takesValue then
            match value?, texts with
            | some value, texts =>
              (items forms stops texts).map fun (is, rest) => (.option f.name value :: is, rest)
            | none, value :: texts =>
              (items forms stops texts).map fun (is, rest) => (.option f.name value :: is, rest)
            | none, [] => .error (.missingValue name)
          else if value?.isSome then .error (.unexpectedValue name)
          else (items forms stops texts).map fun (is, rest) => (.flag f.name :: is, rest)

/-- The last of two opposite flags that stands among some items; true for the first of them. -/
def lastFlag? (yes no : String) (is : List Item) : Option Bool :=
  is.foldl (fun known i =>
    if i = .flag yes then some true else if i = .flag no then some false else known) none

/-- The value of the last option of a name. -/
def lastValue? (name : String) (is : List Item) : Option String :=
  is.foldl (fun known i =>
    match i with
    | .option n value => if n = name then some value else known
    | _ => known) none

/-- The arguments among some items. -/
def arguments (is : List Item) : List String :=
  is.filterMap fun
    | .argument text => some text
    | _ => none

/-! ## Commands -/

/-- How much a run says. -/
inductive Verbosity where
  | quiet
  | normal
  | verbose
  deriving DecidableEq, Repr

/-- What is asked of a check. -/
structure CheckOptions where
  paths : List String := []
  configFile : Option String := none
  fix : Option Bool := none
  format : Option String := none
  failOnError : Option Bool := none
  dryRun : Bool := false
  backup : Bool := false
  timeout : Option Binary64 := none
  deriving DecidableEq, Repr

/-- What is asked for. -/
inductive Request where
  | version
  | help
  | check (verbosity : Verbosity) (options : CheckOptions)
  /-- The list of rules, in a form of report. -/
  | rules (format : String)
  | explain (ruleId : String)
  deriving DecidableEq, Repr

/-- The option that asks for help. -/
def helpForm : OptionForm := { names := ["--help"] }

/-- The options before the command. -/
def commonForms : List OptionForm :=
  [{ names := ["--version"] }, { names := ["--verbose", "-v"] }, { names := ["--quiet", "-q"] },
    { names := ["--progress"] }, { names := ["--no-progress"] }, helpForm]

/-- The options of the command `check`. -/
def checkForms : List OptionForm :=
  [{ names := ["--config"], takesValue := true }, { names := ["--fix"] }, { names := ["--no-fix"] },
    { names := ["--format"], takesValue := true }, { names := ["--fail-on-error"] },
    { names := ["--no-fail-on-error"] }, { names := ["--dry-run"] }, { names := ["--backup"] },
    { names := ["--timeout"], takesValue := true }, helpForm]

/-- The options of the command `rules`. -/
def rulesForms : List OptionForm := [{ names := ["--format"], takesValue := true }, helpForm]

/-- The seconds that a text stands for: zero or more, which leaves out what is no number. -/
def seconds? (text : String) : Except UsageError Binary64 :=
  match NumberText.decimal? text with
  | some x => if Binary64.zero.le x then .ok x else .error (.invalidValue "--timeout" text)
  | none => .error (.invalidValue "--timeout" text)

/-- Reads the arguments of the command `check`. -/
def checkRequest (verbosity : Verbosity) (texts : List String) : Except UsageError Request := do
  let (is, _) ← items checkForms false texts
  if is.contains (.flag "--help") then return .help
  let timeout ← (lastValue? "--timeout" is).mapM seconds?
  return .check verbosity {
    paths := arguments is
    configFile := lastValue? "--config" is
    fix := lastFlag? "--fix" "--no-fix" is
    format := lastValue? "--format" is
    failOnError := lastFlag? "--fail-on-error" "--no-fail-on-error" is
    dryRun := is.contains (.flag "--dry-run")
    backup := is.contains (.flag "--backup")
    timeout }

/-- Reads the arguments of the command `rules`. -/
def rulesRequest (texts : List String) : Except UsageError Request := do
  let (is, _) ← items rulesForms false texts
  if is.contains (.flag "--help") then return .help
  match arguments is with
  | [] => return .rules ((lastValue? "--format" is).getD "text")
  | text :: _ => throw (.unexpectedArgument text)

/-- Reads the arguments of the command `explain`. -/
def explainRequest (texts : List String) : Except UsageError Request := do
  let (is, _) ← items [helpForm] false texts
  if is.contains (.flag "--help") then return .help
  match arguments is with
  | [] => throw (.missingArgument "RULE_ID")
  | [id] => return .explain id
  | _ :: text :: _ => throw (.unexpectedArgument text)

/-- How much a run is to say. -/
def verbosity? (is : List Item) : Except UsageError Verbosity :=
  match is.contains (.flag "--verbose"), is.contains (.flag "--quiet") with
  | true, true => .error .contradiction
  | true, false => .ok .verbose
  | false, true => .ok .quiet
  | false, false => .ok .normal

/-- Reads the arguments of a command. -/
def commandRequest (is : List Item) : List String → Except UsageError Request
  | [] => .error .noCommand
  | name :: texts =>
    if ["check", "rules", "explain"].contains name then do
      let verbosity ← verbosity? is
      if name = "check" then checkRequest verbosity texts
      else if name = "rules" then rulesRequest texts
      else explainRequest texts
    else .error (.unknownCommand name)

/-- Reads a command line. -/
def request (texts : List String) : Except UsageError Request := do
  let (is, rest) ← items commonForms true texts
  match is.find? fun i => i = .flag "--version" || i = .flag "--help" with
  | some (.flag "--version") => return .version
  | some _ => return .help
  | none => commandRequest is rest

end HouseStyle.CommandLine
