import HouseStyle.Diff.Matching
import HouseStyle.Text.Blank
import HouseStyle.Text.Utf8

/-!
# Unified differences

The differences between two texts, line by line, in hunks with three lines of context.
-/

namespace HouseStyle.Diff

/-- The lines of context around a change. -/
def contextLines : Nat := 3

/-- Cuts a long stretch at the front of a script down to its last lines. -/
def trimFront : List Opcode → List Opcode
  | [] => []
  | ⟨.equal, w⟩ :: ops =>
    ⟨.equal, { w with
      leftLow := max w.leftLow (w.leftHigh - contextLines)
      rightLow := max w.rightLow (w.rightHigh - contextLines) }⟩ :: ops
  | op :: ops => op :: ops

/-- A stretch cut down to its first lines. -/
def headOf (w : Window) : Window :=
  { w with
    leftHigh := min w.leftHigh (w.leftLow + contextLines)
    rightHigh := min w.rightHigh (w.rightLow + contextLines) }

/-- Cuts a long stretch at the end of a script down to its first lines. -/
def trimBack : List Opcode → List Opcode
  | [] => []
  | [⟨.equal, w⟩] => [⟨.equal, headOf w⟩]
  | op :: ops => op :: trimBack ops

/-- The hunks of a script, where `group` is what the current one holds, read backwards. A stretch
longer than twice the context ends one hunk and starts the next. -/
def groupFrom (group : List Opcode) : List Opcode → List (List Opcode)
  | [] => [group.reverse]
  | ⟨.equal, w⟩ :: ops =>
    if 2 * contextLines < w.leftHigh - w.leftLow then
      (⟨.equal, headOf w⟩ :: group).reverse ::
        groupFrom [⟨.equal, { w with
          leftLow := max w.leftLow (w.leftHigh - contextLines)
          rightLow := max w.rightLow (w.rightHigh - contextLines) }⟩] ops
    else groupFrom (⟨.equal, w⟩ :: group) ops
  | op :: ops => groupFrom (op :: group) ops

/-- A hunk that changes something. -/
def isChange (group : List Opcode) : Bool :=
  !(group.isEmpty || (group.length == 1 && group.all (·.action == .equal)))

/-- The hunks of a script. -/
def hunks (ops : List Opcode) : List (List Opcode) :=
  (groupFrom [] (trimBack (trimFront ops))).filter isChange

/-- The range of lines from one position up to another, as the head of a hunk shows it. -/
def rangeText (low high : Nat) : Text :=
  let length := high - low
  if length = 1 then Text.ofNat (low + 1)
  else Text.ofNat (if length = 0 then low else low + 1) ++ .scalar ',' :: Text.ofNat length

/-- The lines between two positions, each behind a mark. -/
def marked (mark : Char) (lines : Array Text) (low high : Nat) : List Text :=
  ((lines.extract low high).toList).map fun line => .scalar mark :: line

/-- The lines of one step. -/
def opcodeLines (left right : Array Text) (op : Opcode) : List Text :=
  let w := op.window
  match op.action with
  | .equal => marked ' ' left w.leftLow w.leftHigh
  | .delete => marked '-' left w.leftLow w.leftHigh
  | .insert => marked '+' right w.rightLow w.rightHigh
  | .replace => marked '-' left w.leftLow w.leftHigh ++ marked '+' right w.rightLow w.rightHigh

/-- The lines of a hunk, with its head. -/
def hunkLines (left right : Array Text) (group : List Opcode) : List Text :=
  match group.head?, group.getLast? with
  | some first, some last =>
    (Text.ofString "@@ -" ++ rangeText first.window.leftLow last.window.leftHigh ++
      Text.ofString " +" ++ rangeText first.window.rightLow last.window.rightHigh ++
      Text.ofString " @@") :: group.flatMap (opcodeLines left right)
  | _, _ => []

/-- The lines of a text without the breaks that end them. -/
def plainLines (t : Text) : List Text := (Text.lines t).map Text.withoutBreak

/-- The lines of the differences between two lists of lines. -/
def unifiedLines (label : String) (left right : List Text) : List Text :=
  match hunks (opcodes left right) with
  | [] => []
  | groups =>
    Text.ofString ("--- a/" ++ label) :: Text.ofString ("+++ b/" ++ label) ::
      groups.flatMap (hunkLines left.toArray right.toArray)

/-- The differences between two texts, fit to be shown; nothing if the texts are equal, and nothing
if they differ only in how their lines end. -/
def unified (label : String) (before after : Text) : String :=
  if before = after then ""
  else
    Utf8.printable
      (Text.join [.scalar '\n'] (unifiedLines label (plainLines before) (plainLines after)))

/-- The number of the first line in which two lists of lines differ, as far as both go. -/
def firstDifferenceFrom (line : Nat) : List Text → List Text → Option Nat
  | a :: as, b :: bs => if a = b then firstDifferenceFrom (line + 1) as bs else some line
  | _, _ => none

/-- The number of the first line in which two texts differ; none if they are equal. Texts whose
lines agree as far as both go differ in the last line of the longer one that the first text has. -/
def firstDifferenceLine (before after : Text) : Option Nat :=
  if before = after then none
  else
    let old := plainLines before
    let new := plainLines after
    some ((firstDifferenceFrom 1 old new).getD (max 1 (min old.length (new.length + 1))))

end HouseStyle.Diff
