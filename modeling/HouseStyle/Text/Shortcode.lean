import HouseStyle.Text.Blank
import HouseStyle.Text.Case
import HouseStyle.Text.Shortcode.Table

/-!
# Emoji by name

A name of an emoji between two colons stands for the emoji. Capital letters in it count as small
ones, and a name that ends in `-emoji` or `-text` asks for that form of the emoji. Colons around
anything else that has no blanks stay as they are, and the second of them opens no name.
-/

namespace HouseStyle.Shortcode

/-- The emoji with their names. -/
def entries : List (String × List String) :=
  (table.splitOn "\n").filterMap fun line =>
    match Blank.words line with
    | [] => none
    | emoji :: names => some (emoji, names)

/-- The emoji of a name. -/
def ofName? (name : String) : Option String :=
  (entries.find? fun e => e.2.contains name).map (·.1)

/-- The name without the form that it ends in, and the selector of that form. -/
def splitForm (name : String) : String × String :=
  if name.endsWith "-emoji" then ((name.dropEnd "-emoji".length).toString, "\ufe0f")
  else if name.endsWith "-text" then ((name.dropEnd "-text".length).toString, "\ufe0e")
  else (name, "")

/-- What stands between two colons as an emoji. -/
def emoji? (inside : String) : Option String :=
  let (name, selector) := splitForm inside
  (ofName? (Case.lower name)).map (· ++ selector)

/-- A character that may stand between the colons. -/
def isInside (c : Char) : Bool := c != ':' && !Blank.isBlank c

/-- The text with emoji in the place of their names. -/
def expand : List Char → List Char
  | [] => []
  | ':' :: cs =>
    let inside := cs.takeWhile isInside
    match h : cs.dropWhile isInside with
    | ':' :: rest =>
      have : rest.length < cs.length := by
        have := (List.dropWhile_suffix isInside (l := cs)).length_le
        rw [h, List.length_cons] at this
        omega
      match emoji? (String.ofList inside) with
      | some emoji => emoji.toList ++ expand rest
      | none => ':' :: inside ++ ':' :: expand rest
    | _ => ':' :: expand cs
  | c :: cs => c :: expand cs
termination_by cs => cs.length

end HouseStyle.Shortcode
