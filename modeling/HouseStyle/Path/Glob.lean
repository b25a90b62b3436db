/-!
# Wildcards

A glob is a text with wildcards. `*` stands for any characters, `/` among them, `?` for any single
one, and brackets for one character of a set. A glob matches a text as a whole, and case matters.

`Glob.leftovers` gives everything that can be left of a text once a glob has taken its part of the
front; `Glob.accepts` asks whether that can be nothing. Going through the glob once, with the set of
leftovers at hand, needs no going back, so many stars cost no more than few.
-/

namespace HouseStyle

/-- A part of a glob. -/
inductive GlobPart where
  /-- Any characters. -/
  | star
  /-- Any single character. -/
  | any
  /-- This character. -/
  | char (c : Char)
  /-- One character in one of the ranges, or one in none of them. -/
  | set (negated : Bool) (ranges : List (Char × Char))
  deriving DecidableEq, Repr

/-- A text with wildcards, part by part. -/
abbrev Glob := List GlobPart

namespace Glob

/-! ## Bracket expressions -/

/-- The inside of a bracket expression and what follows it. A `]` at the very front, or behind the
`!` there, does not close it. -/
def bracket? (cs : List Char) : Option (List Char × List Char) :=
  let (lead, rest) :=
    match cs with
    | '!' :: ']' :: rest => (['!', ']'], rest)
    | '!' :: rest => (['!'], rest)
    | ']' :: rest => ([']'], rest)
    | rest => ([], rest)
  match rest.dropWhile (· != ']') with
  | _ :: after => some (lead ++ rest.takeWhile (· != ']'), after)
  | [] => none

/-- What follows a bracket expression is shorter than what follows its opening. -/
theorem length_bracket?_lt {cs inside after : List Char} (h : bracket? cs = some (inside, after)) :
    after.length < cs.length := by
  unfold bracket? at h
  split at h
  rename_i lead rest heq
  have hrest : rest.length ≤ cs.length := by
    split at heq <;> simp only [Prod.mk.injEq] at heq <;> obtain ⟨-, rfl⟩ := heq <;> grind
  have hdrop := (List.dropWhile_sublist (· != ']') (l := rest)).length_le
  split at h
  · rename_i a after' hd
    simp only [Option.some.injEq, Prod.mk.injEq] at h
    obtain ⟨-, rfl⟩ := h
    rw [hd] at hdrop
    simp only [List.length_cons] at hdrop
    omega
  · simp at h

/-- The stretches between the hyphens that make ranges. A hyphen makes one only if it stands at
least `skip` characters into its stretch; `taken` is the stretch so far, read backwards. -/
def splitAtRanges (taken : List Char) : Nat → List Char → List (List Char)
  | _, [] => [taken.reverse]
  | 0, c :: cs =>
    if c = '-' then taken.reverse :: splitAtRanges [] 2 cs else splitAtRanges (c :: taken) 0 cs
  | skip + 1, c :: cs => splitAtRanges (c :: taken) skip cs

/-- A hyphen at the very end makes no range but is the last character of its stretch. -/
def closeStretches : List (List Char) → List (List Char)
  | [] => []
  | [c, []] => [c ++ ['-']]
  | c :: cs => c :: closeStretches cs

/-- Puts a stretch in front of others. A range whose ends are in the wrong order holds nothing: it
goes, with both its ends. -/
def joinStretch (c : List Char) : List (List Char) → List (List Char)
  | [] => [c]
  | d :: ds =>
    match c.getLast?, d.head? with
    | some low, some high => if high < low then (c.dropLast ++ d.tail) :: ds else c :: d :: ds
    | _, _ => c :: d :: ds

/-- The ranges of stretches: every character on its own, and the range between the last one of each
stretch and the first one of the next. A hyphen with nothing before it stands for itself. -/
def rangesOf : List (List Char) → List (Char × Char)
  | [] => []
  | [c] => c.map fun a => (a, a)
  | c :: d :: ds =>
    c.map (fun a => (a, a)) ++
      (match c.getLast?, d.head? with
        | some low, some high => (low, high)
        | _, _ => ('-', '-')) :: rangesOf (d :: ds)

/-- The set that the inside of a bracket expression stands for. A `!` at its front, once empty
ranges are gone, negates it. -/
def setOf (inside : List Char) : GlobPart :=
  let skip := if inside.head? = some '!' then 2 else 1
  match (closeStretches (splitAtRanges [] skip inside)).foldr joinStretch [] with
  | ('!' :: c) :: cs => .set true (rangesOf (c :: cs))
  | cs => .set false (rangesOf cs)

/-! ## Reading and matching -/

/-- Reads a glob. A bracket that is never closed stands for itself. -/
def ofChars (cs : List Char) : Glob :=
  match cs with
  | [] => []
  | '*' :: rest => .star :: ofChars rest
  | '?' :: rest => .any :: ofChars rest
  | '[' :: rest =>
    match _h : bracket? rest with
    | some (inside, after) => setOf inside :: ofChars after
    | none => .char '[' :: ofChars rest
  | c :: rest => .char c :: ofChars rest
termination_by cs.length
decreasing_by
  all_goals first
    | (simp only [List.length_cons]; omega)
    | (have shorter := length_bracket?_lt _h; simp only [List.length_cons]; omega)

/-- Reads a glob. -/
def ofString (s : String) : Glob := ofChars s.toList

/-- A list and everything left of it when its front is taken away, the longest first. -/
def suffixes {α : Type} : List α → List (List α)
  | [] => [[]]
  | a :: as => (a :: as) :: suffixes as

end Glob

namespace GlobPart

/-- Whether a part that stands for one character stands for this one. -/
def holds (c : Char) : GlobPart → Bool
  | .star => false
  | .any => true
  | .char a => a == c
  | .set negated ranges => (ranges.any fun (low, high) => low ≤ c && c ≤ high) != negated

/-- What can be left of texts once a part has taken its share of their front. All of them end one
text, the longest first, so a star leaves the ends of the first. -/
def leftovers (texts : List (List Char)) (p : GlobPart) : List (List Char) :=
  match p with
  | .star =>
    match texts with
    | [] => []
    | t :: _ => Glob.suffixes t
  | p =>
    texts.filterMap fun
      | [] => none
      | c :: cs => if p.holds c then some cs else none

end GlobPart

namespace Glob

/-- Everything that can be left of a text once the glob has taken its part of the front. -/
def leftovers (g : Glob) (text : List Char) : List (List Char) := g.foldl GlobPart.leftovers [text]

/-- Whether the glob matches the text as a whole. -/
def accepts (g : Glob) (text : String) : Bool := (g.leftovers text.toList).any (·.isEmpty)

end Glob

end HouseStyle
