import HouseStyle.Config.Basic
import HouseStyle.Config.Value
import HouseStyle.Text.Blank

/-!
# Reading a configuration table

A configuration is given as a table of values, as a TOML document holds it. `Config.ofTable?` checks
every field and either gives the configuration or says what is wrong with the first field that is
not as it should be.
-/

namespace HouseStyle

/-- What is wrong with a configuration. A field is named with the tables it is in. -/
inductive ConfigError where
  /-- A table has keys that mean nothing; the empty name is that of the whole configuration. -/
  | unknownKeys (table : String) (keys : List String)
  | notBoolean (field : String)
  | notInteger (field : String)
  | negative (field : String)
  | notFormat (field : String)
  | notStrings (field : String)
  | notSeconds (field : String)
  | notPositive (field : String)
  | notTable (field : String)
  | emptyCommand (field : String)
  | notRuleId (field : String)
  | notString (field : String)
  | notSeverity (field : String)
  /-- The file given as configuration is not there. -/
  | missingFile (path : String)
  /-- The file is no TOML document. -/
  | invalidToml (path problem : String)
  /-- The table of a shared file is something else. -/
  | notTableIn (table path : String)
  /-- The file cannot be read. -/
  | unreadable (path problem : String)
  deriving DecidableEq, Repr

namespace ConfigError

/-- A name in quotes. -/
def quoted (name : String) : String := "`" ++ name ++ "`"

/-- What an error says. -/
def message : ConfigError → String
  | .unknownKeys table keys =>
    "Unknown key(s) in " ++ (if table.isEmpty then "the configuration" else quoted table) ++ ": " ++
      ", ".intercalate keys ++ "."
  | .notBoolean field => quoted field ++ " must be a boolean."
  | .notInteger field => quoted field ++ " must be an integer."
  | .negative field => quoted field ++ " must be >= 0."
  | .notFormat field => quoted field ++ " must be one of: text, json."
  | .notStrings field => quoted field ++ " must be a list of strings."
  | .notSeconds field => quoted field ++ " must be a number of seconds."
  | .notPositive field => quoted field ++ " must be > 0."
  | .notTable field => quoted field ++ " must be a table."
  | .emptyCommand field => quoted field ++ " must not be empty."
  | .notRuleId field =>
    quoted field ++ " is invalid; expected a kebab-case rule id like naming-casing."
  | .notString field => quoted field ++ " must be a string."
  | .notSeverity field => quoted field ++ " must be one of: info, warning, error."
  | .missingFile path => "Config file not found: " ++ path
  | .invalidToml path problem => "Invalid TOML in " ++ path ++ ": " ++ problem
  | .notTableIn table path => quoted table ++ " in " ++ path ++ " must be a table."
  | .unreadable path problem => "Could not read " ++ path ++ ": " ++ problem

end ConfigError

/-- Why a run cannot start. -/
inductive RunFault where
  /-- The configuration is not as it should be. -/
  | invalid (e : ConfigError)
  /-- An integer is too large for a number of seconds. -/
  | tooLarge
  /-- An integer of the configuration has more digits than are read. -/
  | tooManyDigits
  /-- The values of the configuration are nested too deep. -/
  | tooDeep
  /-- The bytes of the configuration are no text. -/
  | notText
  /-- A path is too long to be looked up. -/
  | pathTooLong
  /-- A path holds a zero character. -/
  | zeroInPath
  deriving DecidableEq, Repr

namespace Config

/-- Refuses a configuration. -/
def refuse {α : Type} (e : ConfigError) : Except RunFault α := .error (.invalid e)

/-- The name of a key in a table; the whole configuration has no name. -/
def fieldName (table key : String) : String := if table.isEmpty then key else table ++ "." ++ key

/-- The keys of the whole configuration. -/
def topLevelKeys : List String :=
  ["fail_on_error", "parameter_count_threshold", "fix", "format", "include", "exclude", "timeout",
    "naming", "formatter", "rules"]

/-- Refuses a table with keys that are not allowed. -/
def checkKeys (name : String) (allowed : List String) (t : ConfigTable) : Except RunFault Unit :=
  let unknown := (t.map (·.1)).filter (!allowed.contains ·)
  if unknown.isEmpty then .ok ()
  else refuse (.unknownKeys name (unknown.mergeSort fun a b => decide (a ≤ b)))

/-- The value of a key that has to be a boolean. -/
def boolean (t : ConfigTable) (key : String) (default : Bool) (field : String) :
    Except RunFault Bool :=
  match t.lookup key with
  | none => .ok default
  | some (.boolean b) => .ok b
  | some _ => refuse (.notBoolean field)

/-- The strings of a list, without white space at their ends and without empty ones. -/
def strings? : List ConfigValue → Option (List String)
  | [] => some []
  | .string s :: rest =>
    (strings? rest).map fun ss => if (Blank.trim s).isEmpty then ss else Blank.trim s :: ss
  | _ :: _ => none

/-- A value that has to be a list of strings; no value is the empty list. -/
def stringList (field : String) : ConfigValue → Except RunFault (List String)
  | .none => .ok []
  | .array items =>
    match strings? items with
    | some ss => .ok ss
    | none => refuse (.notStrings field)
  | _ => refuse (.notStrings field)

/-- The value of a key that has to be a list of strings. -/
def stringsOf (t : ConfigTable) (key : String) (default : List String) (field : String) :
    Except RunFault (List String) :=
  match t.lookup key with
  | none => .ok default
  | some v => stringList field v

/-- The most parameters that a function may take. -/
def parameterLimit? (t : ConfigTable) (field : String) : Except RunFault Nat :=
  match t.lookup "parameter_count_threshold" with
  | none => .ok ({} : Config).parameterLimit
  | some (.integer n) => if n < 0 then refuse (.negative field) else .ok n.toNat
  | some _ => refuse (.notInteger field)

/-- The form of report for a word in any case. -/
def outputFormat? (s : String) : Option OutputFormat :=
  let word := Case.lower (Blank.trim s)
  [OutputFormat.text, .json].find? (·.label == word)

/-- The form of report. -/
def format? (t : ConfigTable) (field : String) : Except RunFault OutputFormat :=
  match t.lookup "format" with
  | none => .ok .text
  | some (.string s) =>
    match outputFormat? s with
    | some f => .ok f
    | none => refuse (.notFormat field)
  | some _ => refuse (.notFormat field)

/-- The seconds after which no further file is checked. Whatever is not zero or less is accepted,
and kept in the binary format. -/
def timeout? (t : ConfigTable) (field : String) : Except RunFault (Option Quantity) :=
  match t.lookup "timeout" with
  | none => .ok none
  | some .none => .ok none
  | some (.integer n) =>
    if n ≤ 0 then refuse (.notPositive field)
    else
      match Binary64.ofInt? n with
      | some x => .ok (some (.real x))
      | none => .error .tooLarge
  | some (.float x) => if x.le .zero then refuse (.notPositive field) else .ok (some (.real x))
  | some _ => refuse (.notSeconds field)

/-- The value of a key that has to be a table. -/
def tableOf (t : ConfigTable) (key field : String) : Except RunFault ConfigTable :=
  match t.lookup key with
  | none => .ok []
  | some (.table entries) => .ok entries
  | some _ => refuse (.notTable field)

/-- The settings of the naming rule. -/
def naming? (t : ConfigTable) (name : String) : Except RunFault NamingConfig := do
  let entries ← tableOf t "naming" name
  checkKeys name ["allow", "check_low_confidence"] entries
  let allow ← stringsOf entries "allow" [] (name ++ ".allow")
  let checkLowConfidence ←
    boolean entries "check_low_confidence" false (name ++ ".check_low_confidence")
  return { allow, checkLowConfidence }

/-- The command of the formatter: a list, or a string of words. -/
def command? (t : ConfigTable) (name : String) : Except RunFault (List String) := do
  let field := name ++ ".command"
  let command ←
    match t.lookup "command" with
    | none => pure ({} : FormatterConfig).command
    | some (.string s) => pure (Blank.words s)
    | some v => stringList field v
  if command.isEmpty then refuse (.emptyCommand field) else return command

/-- The settings of the formatter. -/
def formatter? (t : ConfigTable) (name : String) : Except RunFault FormatterConfig := do
  let entries ← tableOf t "formatter" name
  checkKeys name ["enabled", "command", "required"] entries
  let enabled ← boolean entries "enabled" false (name ++ ".enabled")
  let required ← boolean entries "required" false (name ++ ".required")
  let command ← command? entries name
  return { enabled, command, required }

/-- A small letter or a digit of ASCII. -/
def isKebabChar (c : Char) : Bool := c.isLower || c.isDigit

/-- The rest of a name of words joined by single hyphens. -/
def kebabRest : List Char → Bool
  | [] => true
  | [c] => isKebabChar c
  | c :: d :: rest =>
    if c = '-' then isKebabChar d && kebabRest rest else isKebabChar c && kebabRest (d :: rest)

/-- Whether a name is that of a rule: words of small letters and digits joined by hyphens, a
letter first. -/
def isRuleId (s : String) : Bool :=
  match s.toList with
  | [] => false
  | c :: rest => c.isLower && kebabRest rest

/-- The severity of a rule; `warn` is short for `warning`. -/
def severity? (t : ConfigTable) (field : String) : Except RunFault (Option Severity) :=
  match t.lookup "severity" with
  | none => .ok none
  | some .none => .ok none
  | some (.string s) =>
    let word := Case.lower (Blank.trim s)
    match Severity.ofLabel? (if word == "warn" then "warning" else word) with
    | some severity => .ok (some severity)
    | none => refuse (.notSeverity field)
  | some _ => refuse (.notString field)

/-- Whether a rule is enabled. -/
def enabled? (t : ConfigTable) (field : String) : Except RunFault (Option Bool) :=
  match t.lookup "enabled" with
  | none => .ok none
  | some .none => .ok none
  | some (.boolean b) => .ok (some b)
  | some _ => refuse (.notBoolean field)

/-- The settings of one rule. -/
def ruleSettings? (field : String) : ConfigValue → Except RunFault RuleSettings
  | .table entries => do
    checkKeys field ["enabled", "severity"] entries
    let enabled ← enabled? entries (field ++ ".enabled")
    let severity ← severity? entries (field ++ ".severity")
    return { enabled, severity }
  | _ => refuse (.notTable field)

/-- Gives a rule its settings; settings that it had are replaced. -/
def setRule (ruleId : String) (settings : RuleSettings) :
    List (String × RuleSettings) → List (String × RuleSettings)
  | [] => [(ruleId, settings)]
  | (id, s) :: rest =>
    if id = ruleId then (id, settings) :: rest else (id, s) :: setRule ruleId settings rest

theorem map_fst_setRule (ruleId : String) (settings : RuleSettings) (rs : List (String × RuleSettings)) :
    (setRule ruleId settings rs).map (·.1) =
      if ruleId ∈ rs.map (·.1) then rs.map (·.1) else rs.map (·.1) ++ [ruleId] := by
  induction rs with
  | nil => rfl
  | cons r rs ih =>
    obtain ⟨id, old⟩ := r
    unfold setRule
    by_cases hid : id = ruleId
    · simp [hid]
    · rw [if_neg hid, List.map_cons, ih]
      simp only [List.map_cons, List.mem_cons, Ne.symm hid, false_or]
      split <;> rfl

/-- The settings of rules, each rule once. -/
abbrev RuleTable := { rs : List (String × RuleSettings) // (rs.map (·.1)).Nodup }

/-- Gives a rule its settings. -/
def RuleTable.set (rs : RuleTable) (ruleId : String) (settings : RuleSettings) : RuleTable where
  val := setRule ruleId settings rs.1
  property := by
    rw [map_fst_setRule]
    split
    next => exact rs.2
    next hnew =>
      refine List.nodup_append.mpr ⟨rs.2, by simp, fun id hid id' hid' heq => hnew ?_⟩
      rwa [← List.mem_singleton.mp hid', ← heq]

/-- The settings of all rules, added to those that have been read. -/
def rulesFrom (name : String) (done : RuleTable) : ConfigTable → Except RunFault RuleTable
  | [] => .ok done
  | (key, value) :: rest =>
    let ruleId := Case.lower (Blank.trim key)
    let field := name ++ "." ++ key
    if !isRuleId ruleId then refuse (.notRuleId field)
    else
      match ruleSettings? field value with
      | .error e => .error e
      | .ok settings => rulesFrom name (done.set ruleId settings) rest

/-- The settings of all rules. -/
def rules? (t : ConfigTable) (name : String) : Except RunFault RuleTable := do
  let entries ← tableOf t "rules" name
  rulesFrom name ⟨[], List.nodup_nil⟩ entries

/-- The configuration that a table holds; `name` is the name of the table, and `source` the file
that it is from. -/
def ofTable? (name : String) (source : Option SourcePath) (t : ConfigTable) :
    Except RunFault Config := do
  let field := fieldName name
  checkKeys name topLevelKeys t
  let failOnError ← boolean t "fail_on_error" true (field "fail_on_error")
  let parameterLimit ← parameterLimit? t (field "parameter_count_threshold")
  let fix ← boolean t "fix" false (field "fix")
  let format ← format? t (field "format")
  let included ← stringsOf t "include" defaultIncluded (field "include")
  let excluded ← stringsOf t "exclude" [] (field "exclude")
  let timeout ← timeout? t (field "timeout")
  let naming ← naming? t (field "naming")
  let formatter ← formatter? t (field "formatter")
  let rules ← rules? t (field "rules")
  return { failOnError, parameterLimit, fix, format, included, excluded, timeout, naming, formatter
           rules := rules.1, rulesOnce := rules.2, source }

end Config

end HouseStyle
