import HouseStyle.Report.Aggregate

/-!
# Reports as JSON

A report is an array with one object for each violation. The text is indented by two blanks and
holds no character outside ASCII: those are written as escapes of their UTF-16 units, and a stray
byte as the unit with its number.
-/

namespace HouseStyle

/-- The values of a report. -/
inductive JsonValue where
  | null
  | bool (b : Bool)
  | number (n : Int)
  | text (t : Text)
  | array (items : List JsonValue)
  | object (members : List (String × JsonValue))
  deriving Repr, Inhabited

namespace JsonValue

/-- A hexadecimal digit. -/
def hexDigit (n : Nat) : Char := Char.ofNat (if n < 10 then '0'.toNat + n else 'a'.toNat + (n - 10))

/-- The escape of a UTF-16 unit. -/
def unitEscape (n : Nat) : List Char :=
  ['\\', 'u', hexDigit (n / 4096 % 16), hexDigit (n / 256 % 16), hexDigit (n / 16 % 16),
    hexDigit (n % 16)]

/-- A glyph as it stands in a string. -/
def escape (g : Glyph) : List Char :=
  match g with
  | .scalar '"' => ['\\', '"']
  | .scalar '\\' => ['\\', '\\']
  | .scalar '\n' => ['\\', 'n']
  | .scalar '\r' => ['\\', 'r']
  | .scalar '\t' => ['\\', 't']
  | .scalar '\x0c' => ['\\', 'f']
  | .scalar '\x08' => ['\\', 'b']
  | g =>
    let n := g.code
    if 0x20 ≤ n && n < 0x7F then [Char.ofNat n]
    else if n < 0x10000 then unitEscape n
    else unitEscape (0xD800 + (n - 0x10000) / 1024) ++ unitEscape (0xDC00 + (n - 0x10000) % 1024)

/-- A string. -/
def quoted (t : Text) : String := String.ofList ('"' :: t.flatMap escape ++ ['"'])

/-- A line end and the blanks at the start of the next line. -/
def newline (depth : Nat) : String := String.ofList ('\n' :: List.replicate (2 * depth) ' ')

/-- Written parts between brackets, each on lines of its own; no parts need no lines. -/
def enclose (opener closer : String) (depth : Nat) (parts : List String) : String :=
  if parts.isEmpty then opener ++ closer
  else
    opener ++ newline (depth + 1) ++ ("," ++ newline (depth + 1)).intercalate parts ++ newline depth ++
      closer

mutual

/-- The text of a value inside `depth` brackets. -/
def render (depth : Nat) : JsonValue → String
  | .null => "null"
  | .bool b => if b then "true" else "false"
  | .number n => toString n
  | .text t => quoted t
  | .array items => enclose "[" "]" depth (renderItems (depth + 1) items)
  | .object members => enclose "\x7b" "\x7d" depth (renderMembers (depth + 1) members)

/-- The texts of the items of an array. -/
def renderItems (depth : Nat) : List JsonValue → List String
  | [] => []
  | v :: vs => render depth v :: renderItems depth vs

/-- The texts of the members of an object. -/
def renderMembers (depth : Nat) : List (String × JsonValue) → List String
  | [] => []
  | (key, v) :: rest =>
    (quoted (Text.ofString key) ++ ": " ++ render depth v) :: renderMembers depth rest

end

/-- A string value. -/
def ofString (s : String) : JsonValue := .text (Text.ofString s)

/-- A value that may be missing. -/
def ofOption {α : Type} (f : α → JsonValue) : Option α → JsonValue
  | some a => f a
  | none => .null

end JsonValue

/-- Where a location starts and ends, as members of an object. -/
def Location.members (base root : SourcePath) (l : Location) : List (String × JsonValue) :=
  [("path", .ofOption (fun p => .ofString (SourcePath.shown base root p)) l.path),
    ("line", .ofOption .number l.startLine), ("column", .ofOption .number l.startColumn),
    ("end_line", .ofOption .number l.endLine), ("end_column", .ofOption .number l.endColumn)]

/-- A violation as an object. -/
def Violation.record (base root : SourcePath) (v : Violation) : JsonValue :=
  .object <| (v.location.getD {}).members base root ++ [
    ("severity", .ofString v.severity.label), ("rule_id", .ofString v.ruleId),
    ("category", .ofString v.category.label), ("message", .ofString v.message),
    ("suggestion", .ofOption .ofString v.suggestion), ("fixable", .bool v.autofix),
    ("edits", .array (v.edits.map fun e =>
      .object [("start", .number e.start), ("end", .number e.stop), ("replacement", .text e.replacement)])),
    ("related", .array (v.related.map fun l => .object (l.members base root)))]

/-- A report as JSON. -/
def jsonReport (base root : SourcePath) (vs : List Violation) : String :=
  JsonValue.render 0 (.array (vs.map (Violation.record base root)))

end HouseStyle
