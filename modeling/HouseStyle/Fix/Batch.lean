import HouseStyle.Declaration.Extraction
import HouseStyle.Token.Piece
import HouseStyle.Violation

/-!
# Batches of edits

The edits of all violations of a file are applied together or not at all. `planEdits` puts them in
order and refuses a batch in which two of them get in each other's way; `applyEdits` carries a batch
out from its end to its start, so that no edit moves the place of another. `applyFixes` does both
and keeps the result only if the file still declares the same kinds of entities.
-/

namespace HouseStyle

/-- Why the edits of a file are not applied. -/
inductive FixRejection where
  /-- An edit does not lie inside the file. -/
  | outside (start stop : Int)
  /-- Two edits that start at these offsets get in each other's way. -/
  | overlap (first second : Int)
  /-- The fixed text declares other kinds of entities. -/
  | kindsChanged
  deriving DecidableEq, Repr

/-- What a rejection says. -/
def FixRejection.message : FixRejection → String
  | .outside start stop => "edit " ++ toString start ++ ".." ++ toString stop ++ " lies outside the file"
  | .overlap first second =>
    "edits at offsets " ++ toString first ++ " and " ++ toString second ++ " overlap"
  | .kindsChanged => "fixed text no longer declares the same kinds of entities"

namespace Edit

/-- The order of edits in a batch: by start, then by end, then by replacement. -/
def precedes (a b : Edit) : Bool :=
  a.start < b.start ||
    (a.start == b.start &&
      (a.stop < b.stop || (a.stop == b.stop && !Text.precedes b.replacement a.replacement)))

/-- The order in which edits are carried out: the one that starts last goes first, and of those the
one that ends last. -/
def appliesBefore (a b : Edit) : Bool :=
  b.start < a.start || (a.start == b.start && b.stop ≤ a.stop)

end Edit

/-- A list with every edit once. -/
def distinctEdits : List Edit → List Edit
  | [] => []
  | e :: es => e :: (distinctEdits es).filter (· != e)

/-- Checks edits that are in order one after another against the length of the text. Each one is
compared with the one before it and with the one that has reached furthest. -/
def checkBatch (length : Int) (previous widest : Option Edit) :
    List Edit → Except FixRejection Unit
  | [] => .ok ()
  | e :: es =>
    if e.start < 0 || e.stop < e.start || length < e.stop then
      .error (.outside e.start e.stop)
    else
      match (previous.toList ++ widest.toList).find? e.overlaps with
      | some other => .error (.overlap other.start e.start)
      | none =>
        checkBatch length (some e)
          (some (match widest with | some w => if w.stop < e.stop then e else w | none => e)) es

/-- The edits of a batch in order, each once, if none of them gets in another's way. -/
def planEdits (length : Int) (edits : List Edit) : Except FixRejection (List Edit) :=
  let ordered := (distinctEdits edits).mergeSort Edit.precedes
  (checkBatch length none none ordered).map fun _ => ordered

/-- The place in a text that an offset stands for. A negative one counts from the end; beyond the
text it is the nearer end. -/
def offsetIn (t : Text) (o : Int) : Nat :=
  if o < 0 then (o + t.length).toNat else min o.toNat t.length

/-- Carries out one edit. -/
def applyEdit (t : Text) (e : Edit) : Text :=
  t.take (offsetIn t e.start) ++ e.replacement ++ t.drop (offsetIn t e.stop)

/-- Carries out edits from the end of the text to its start. -/
def applyEdits (t : Text) (edits : List Edit) : Text :=
  (edits.mergeSort Edit.appliesBefore).foldl applyEdit t

/-- Whether the edits of a violation may be applied without asking. -/
def Violation.isFixable (v : Violation) : Bool :=
  !v.isEngineNote && v.autofix && !v.edits.isEmpty && v.location.any (·.path.isSome)

/-- The violations whose edits may be applied without asking. -/
def fixableViolations (vs : List Violation) : List Violation := vs.filter (·.isFixable)

/-- The kinds of the entities that a text declares, in order. -/
def entityKinds (t : Text) : List EntityKind := (extract (tokens t)).entities.map (·.kind)

/-- A text with the fixable edits of some violations applied. -/
def applyFixes (t : Text) (vs : List Violation) : Except FixRejection Text :=
  match planEdits t.length ((fixableViolations vs).flatMap (·.edits)) with
  | .error r => .error r
  | .ok [] => .ok t
  | .ok edits =>
    let updated := applyEdits t edits
    if entityKinds updated = entityKinds t then .ok updated else .error .kindsChanged

end HouseStyle
