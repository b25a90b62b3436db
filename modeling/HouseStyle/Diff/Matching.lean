/-!
# Matching stretches

Two lists are compared by the stretches they share: the longest one first, then the longest ones on
both sides of it, and so on. In a long second list, items that occur very often start no stretch;
they only extend one.

`opcodes` turns the shared stretches into a script of what to keep, remove, insert and replace.
-/

namespace HouseStyle.Diff

variable {α : Type} [DecidableEq α]

/-- A stretch of equal items: where it starts in each list, and its length. -/
structure Block where
  left : Nat
  right : Nat
  size : Nat
  deriving DecidableEq, Repr

/-- From this length on the second list is searched for items that occur too often. -/
def popularLength : Nat := 200

/-- The positions of an item in a list that starts at position `at_`. -/
def positionsFrom (x : α) (at_ : Nat) : List α → List Nat
  | [] => []
  | y :: ys => if x = y then at_ :: positionsFrom x (at_ + 1) ys else positionsFrom x (at_ + 1) ys

/-- The positions at which an item of the first list can start a stretch in the second. An item of
a long list that makes up more than a hundredth of it, and one more, starts none. -/
def anchors (right : List α) (x : α) : List Nat :=
  let positions := positionsFrom x 0 right
  let n := right.length
  if popularLength ≤ n && n / 100 + 1 < positions.length then [] else positions

/-- A pair of lists with what the search looks up in them. -/
structure Pair (α : Type) where
  left : Array α
  right : Array α
  /-- For each item of the first list the positions where it can start a stretch. -/
  anchors : Array (List Nat)

/-- Prepares two lists for the search. -/
def Pair.ofLists (left right : List α) : Pair α :=
  ⟨left.toArray, right.toArray, (left.map (Diff.anchors right)).toArray⟩

/-- A part of both lists: the positions from a lower bound up to an upper one. -/
structure Window where
  leftLow : Nat
  leftHigh : Nat
  rightLow : Nat
  rightHigh : Nat
  deriving DecidableEq, Repr

/-- The lengths of the stretches that end at the positions of one row, given those of the row
before, together with the longest stretch so far. -/
def searchRow (row : Nat) (previous : List (Nat × Nat)) (best : Block) :
    List Nat → List (Nat × Nat) × Block
  | [] => ([], best)
  | j :: js =>
    let size := (if j = 0 then 0 else (previous.lookup (j - 1)).getD 0) + 1
    let best :=
      if best.size < size then ⟨row + 1 - size, j + 1 - size, size⟩ else best
    let (lengths, best) := searchRow row previous best js
    ((j, size) :: lengths, best)

/-- The longest stretch in the rows from `row` on. -/
def searchRows (p : Pair α) (w : Window) (previous : List (Nat × Nat)) (best : Block) (row : Nat) :
    Block :=
  if row < w.leftHigh then
    let columns := (p.anchors.getD row []).filter fun j => w.rightLow ≤ j && j < w.rightHigh
    let (lengths, best) := searchRow row previous best columns
    searchRows p w lengths best (row + 1)
  else best
termination_by w.leftHigh - row

/-- Lengthens a stretch towards the front as far as the items before it are equal. -/
def extendFront (p : Pair α) (w : Window) (left right size : Nat) : Block :=
  match left, right with
  | left + 1, right + 1 =>
    if w.leftLow ≤ left && w.rightLow ≤ right && p.left[left]? = p.right[right]? then
      extendFront p w left right (size + 1)
    else ⟨left + 1, right + 1, size⟩
  | left, right => ⟨left, right, size⟩

/-- Lengthens a stretch towards the back as far as the items after it are equal. -/
def extendBack (p : Pair α) (w : Window) (b : Block) : Block :=
  if b.left + b.size < w.leftHigh && b.right + b.size < w.rightHigh &&
      p.left[b.left + b.size]? = p.right[b.right + b.size]? then
    extendBack p w { b with size := b.size + 1 }
  else b
termination_by w.leftHigh - (b.left + b.size)
decreasing_by
  simp_all
  omega

/-- The longest stretch that both parts share; of several the one that starts first in the first
list, then in the second. -/
def longest (p : Pair α) (w : Window) : Block :=
  let found := searchRows p w [] ⟨w.leftLow, w.rightLow, 0⟩ w.leftLow
  extendBack p w (extendFront p w found.left found.right found.size)

/-- The stretches that both parts share, in order. `room` is at least the length of the first
part. -/
def blocks (p : Pair α) : (room : Nat) → Window → List Block
  | 0, _ => []
  | room + 1, w =>
    let b := longest p w
    if b.size = 0 then []
    else
      let before : Window := ⟨w.leftLow, b.left, w.rightLow, b.right⟩
      let after : Window := ⟨b.left + b.size, w.leftHigh, b.right + b.size, w.rightHigh⟩
      (if w.leftLow < b.left && w.rightLow < b.right then blocks p room before else []) ++
        b :: (if after.leftLow < w.leftHigh && after.rightLow < w.rightHigh then
          blocks p room after else [])

/-- Stretches that follow each other without a gap, put together. -/
def mergeAdjacent : List Block → List Block
  | [] => []
  | b :: bs =>
    match mergeAdjacent bs with
    | c :: cs =>
      if b.left + b.size = c.left && b.right + b.size = c.right then
        ⟨b.left, b.right, b.size + c.size⟩ :: cs
      else b :: c :: cs
    | [] => [b]

/-- What to do with a part of both lists. -/
inductive Action where
  | equal
  | delete
  | insert
  | replace
  deriving DecidableEq, Repr

/-- A step of a script: what to do with the items between two positions of each list. -/
structure Opcode where
  action : Action
  window : Window
  deriving DecidableEq, Repr

/-- The step for a part that is not shared. -/
def differing (w : Window) : List Opcode :=
  if w.leftLow < w.leftHigh && w.rightLow < w.rightHigh then [⟨.replace, w⟩]
  else if w.leftLow < w.leftHigh then [⟨.delete, w⟩]
  else if w.rightLow < w.rightHigh then [⟨.insert, w⟩]
  else []

/-- The steps from two positions on, given the shared stretches that are left and the lengths of
the lists. -/
def opcodesFrom (leftEnd rightEnd left right : Nat) : List Block → List Opcode
  | [] => differing ⟨left, leftEnd, right, rightEnd⟩
  | b :: bs =>
    differing ⟨left, b.left, right, b.right⟩ ++
      ⟨.equal, ⟨b.left, b.left + b.size, b.right, b.right + b.size⟩⟩ ::
      opcodesFrom leftEnd rightEnd (b.left + b.size) (b.right + b.size) bs

/-- The script that turns one list into another. -/
def opcodes (left right : List α) : List Opcode :=
  let shared := blocks (Pair.ofLists left right) left.length ⟨0, left.length, 0, right.length⟩
  opcodesFrom left.length right.length 0 0 (mergeAdjacent shared)

end HouseStyle.Diff
