/-!
# The log of a run

Besides its result, a run tells what it did and what went wrong on the way.
-/

namespace HouseStyle

/-- How much a record matters. -/
inductive LogLevel where
  | debug
  | info
  | warning
  deriving DecidableEq, Repr

/-- The word for a level. -/
def LogLevel.label : LogLevel → String
  | .debug => "DEBUG"
  | .info => "INFO"
  | .warning => "WARNING"

/-- The rank of a level. -/
def LogLevel.rank : LogLevel → Nat
  | .debug => 0
  | .info => 1
  | .warning => 2

/-- The part of a run that a record is about. -/
inductive LogSource where
  | checking
  | fixing
  | formatting
  deriving DecidableEq, Repr

/-- The name of a part of a run. -/
def LogSource.label : LogSource → String
  | .checking => "cppconform.audit"
  | .fixing => "cppconform.autofix"
  | .formatting => "cppconform.formatter"

/-- A record of the log. -/
structure LogRecord where
  level : LogLevel
  source : LogSource
  message : String
  deriving DecidableEq, Repr

/-- A record on a line of its own; a detailed one names its level and its source. -/
def LogRecord.line (detailed : Bool) (r : LogRecord) : String :=
  if detailed then
    "cppconform [" ++ r.level.label ++ "] " ++ r.source.label ++ ": " ++ r.message
  else "cppconform: " ++ r.message

end HouseStyle
