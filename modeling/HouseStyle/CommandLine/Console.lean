import HouseStyle.Text.Cell
import HouseStyle.Text.Shortcode

/-!
# Text on a console

What is written to the output is free of escape sequences. What is written for a person to read has
emoji in the place of their names, is free of the controls that move the cursor, and its tabs are
blanks up to the next multiple of eight cells.
-/

namespace HouseStyle.Console

/-- What follows an escape sequence, if one starts here: parameters and a letter in brackets. -/
def afterSequence? : List Char → Option (List Char)
  | '\x1b' :: '[' :: cs =>
    match cs.dropWhile fun c => c = ';' || c = '?' || c.isDigit with
    | c :: rest => if c.isAlpha then some rest else none
    | [] => none
  | _ => none

/-- A text without its escape sequences. `limit` is at least the number of its characters. -/
def stripFrom (limit : Nat) (cs : List Char) : List Char :=
  match limit, cs with
  | limit + 1, c :: cs =>
    match afterSequence? (c :: cs) with
    | some rest => stripFrom limit rest
    | none => c :: stripFrom limit cs
  | _, cs => cs

/-- A text without its escape sequences. -/
def withoutSequences (s : String) : String := String.ofList (stripFrom s.length s.toList)

/-- The controls that move the cursor or make a sound. -/
def isCursorControl (c : Char) : Bool :=
  c = '\x07' || c = '\x08' || c = '\x0b' || c = '\x0c' || c = '\r'

/-- The distance between the cells that tabs lead to. -/
def tabStop : Nat := 8

/-- The parts of a line between its tabs, from a cell on, with blanks for the tabs: at least one each, and
up to the next stop. -/
def expandFrom (cell : Nat) : List String → String
  | [] => ""
  | [part] => part
  | part :: parts =>
    let reached := cell + Cell.width (part.toList ++ [' '])
    let filling := (tabStop - reached % tabStop) % tabStop
    part ++ String.ofList (List.replicate (1 + filling) ' ') ++ expandFrom (reached + filling) parts

/-- A text with blanks for its tabs. -/
def withoutTabs (s : String) : String :=
  "\n".intercalate ((s.splitOn "\n").map fun line => expandFrom 0 (line.splitOn "\t"))

/-- A text as a person reads it. -/
def readable (s : String) : String :=
  withoutTabs (String.ofList ((Shortcode.expand s.toList).filter (!isCursorControl ·)))

end HouseStyle.Console
