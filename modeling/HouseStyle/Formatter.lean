import HouseStyle.Number.Binary64
import HouseStyle.Text.Blank
import HouseStyle.Text.Utf8

/-!
# The external formatter

A formatter is a program that writes the formatted text of a file to its output. Starting it may
fail for reasons that pass, so it is tried twice; once it has started, its answer counts.
-/

namespace HouseStyle

/-- What came of an attempt to run a program. -/
inductive SpawnOutcome where
  /-- It could not be started. -/
  | failed (problem : String)
  /-- It did not end in time. -/
  | timedOut
  | ended (code : Int) (output errors : Text)
  deriving DecidableEq, Repr

/-- Why there is no formatted text. -/
inductive FormatterError where
  /-- No program is named. -/
  | noCommand
  | timedOut (program : String) (limit : Option Quantity)
  | failed (program : String) (code : Int) (errors : Text)
  | notStarted (program problem : String)
  deriving DecidableEq, Repr

/-- The first line of the error output of a program, white space at its ends apart. -/
def firstErrorLine (errors : Text) : String :=
  match Text.lines (Text.ofString (Blank.trim (Utf8.printable errors))) with
  | [] => ""
  | line :: _ => Utf8.printable line.withoutBreak

/-- What an error says. -/
def FormatterError.message : FormatterError → String
  | .noCommand => "formatter command is empty"
  | .timedOut program limit =>
    program ++ " timed out after " ++ (match limit with | some q => q.text | none => "None") ++ "s"
  | .failed program code errors =>
    program ++ " exited with status " ++ toString code ++
      (if (Blank.trim (Utf8.printable errors)).isEmpty then "" else ": " ++ firstErrorLine errors)
  | .notStarted program problem => "could not run " ++ program ++ ": " ++ problem

namespace Formatter

/-- How often starting the program is tried. -/
def attempts : Nat := 2

/-- The seconds that the program may take. -/
def timeLimit : Quantity := .real (.ofRatio false 60 1)

/-- A run of the formatter. -/
structure Run where
  /-- The arguments of each attempt. -/
  calls : List (List String)
  /-- What kept the attempts before the last one from starting, or all of them. -/
  problems : List String
  result : Except FormatterError Text
  deriving Repr

/-- Tries to run a program until it starts, at most `tries` times. `spawn` says what comes of each
attempt; `problem` is what kept the last one from starting. -/
def tryFrom (program : String) (args : List String) (limit : Option Quantity)
    (spawn : Nat → SpawnOutcome) (attempt : Nat) (problem : String) : Nat → Run
  | 0 => ⟨[], [], .error (.notStarted program problem)⟩
  | tries + 1 =>
    match spawn attempt with
    | .failed problem =>
      let rest := tryFrom program args limit spawn (attempt + 1) problem tries
      { rest with calls := args :: rest.calls, problems := problem :: rest.problems }
    | .timedOut => ⟨[args], [], .error (.timedOut program limit)⟩
    | .ended code output errors =>
      ⟨[args], [], if code = 0 then .ok output else .error (.failed program code errors)⟩

/-- Runs the formatter on a file. -/
def run (command : List String) (path : String) (limit : Option Quantity)
    (spawn : Nat → SpawnOutcome) : Run :=
  match command with
  | [] => ⟨[], [], .error .noCommand⟩
  | program :: args => tryFrom program (program :: args ++ [path]) limit spawn 0 "" attempts

end Formatter

end HouseStyle
