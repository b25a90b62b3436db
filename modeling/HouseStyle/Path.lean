import HouseStyle.Text.Case

/-!
# Paths

File paths with `/` between their parts. Reading a path drops empty parts and `.`; `..` stays until
the path is made absolute.
-/

namespace HouseStyle

/-- A path: how many slashes it starts with, and its parts. -/
structure SourcePath where
  /-- None for a relative path, one for an absolute one; two leading slashes are kept. -/
  slashes : Nat
  parts : List String
  deriving DecidableEq, Repr, Inhabited

namespace SourcePath

/-- The stretches of a list of characters between the separators. -/
def segments (separator : Char) : List Char → List (List Char)
  | [] => [[]]
  | c :: cs =>
    if c = separator then [] :: segments separator cs
    else
      match segments separator cs with
      | [] => [[c]]
      | first :: others => (c :: first) :: others

/-- Reads a path. Three or more leading slashes are one. -/
def ofString (s : String) : SourcePath :=
  let cs := s.toList
  let lead := (cs.takeWhile (· == '/')).length
  { slashes := if lead = 2 then 2 else min lead 1
    parts := ((segments '/' cs).map String.ofList).filter fun p => p != "" && p != "." }

/-- The path of the current directory, relative to itself. -/
def here : SourcePath := ⟨0, []⟩

/-- Whether the path starts at the root. -/
def isAbsolute (p : SourcePath) : Bool := 0 < p.slashes

/-- The path as it is written; that of no parts is `.`. -/
def toString (p : SourcePath) : String :=
  if p.slashes = 0 && p.parts.isEmpty then "."
  else String.ofList (List.replicate p.slashes '/') ++ "/".intercalate p.parts

instance : ToString SourcePath := ⟨toString⟩

/-- The last part, or nothing. -/
def name (p : SourcePath) : String := p.parts.getLast?.getD ""

/-- The path of a directory that holds it. -/
def parent (p : SourcePath) : SourcePath := { p with parts := p.parts.dropLast }

/-- Something in a directory. -/
def child (dir : SourcePath) (name : String) : SourcePath := { dir with parts := dir.parts ++ [name] }

/-- A path below another one, unless it is absolute itself. -/
def join (p q : SourcePath) : SourcePath :=
  if q.isAbsolute then q else { p with parts := p.parts ++ q.parts }

/-- Whether a part of a path is a name: it is not empty, and there is no slash in it. -/
def isName (part : String) : Bool := part != "" && !part.toList.contains '/'

/-- One more part behind those that are done, which are there backwards: `..` takes away the part before it,
and a part that is no name is dropped. -/
def step (done : List String) (part : String) : List String :=
  if part = ".." then done.drop 1 else if isName part then part :: done else done

/-- The same path without `..`. -/
def collapse (parts : List String) : List String := (parts.foldl step []).reverse

/-- The absolute path without `..`, seen from the directory `base`. -/
def resolve (base p : SourcePath) : SourcePath := ⟨1, collapse (base.join p).parts⟩

/-- The path of a place in a file system: it is absolute, made of names and without `..`. -/
structure IsPlain (p : SourcePath) : Prop where
  slashes : p.slashes = 1
  up : ".." ∉ p.parts
  names : ∀ part ∈ p.parts, isName part = true

theorem isPlain_iff {p : SourcePath} :
    p.IsPlain ↔ p.slashes = 1 ∧ ".." ∉ p.parts ∧ ∀ part ∈ p.parts, isName part = true :=
  ⟨fun h => ⟨h.slashes, h.up, h.names⟩, fun ⟨hslashes, hup, hnames⟩ => ⟨hslashes, hup, hnames⟩⟩

instance (p : SourcePath) : Decidable p.IsPlain := decidable_of_iff _ isPlain_iff.symm

theorem IsPlain.slash_not_mem {p : SourcePath} (h : p.IsPlain) {part : String} (hpart : part ∈ p.parts) :
    '/' ∉ part.toList := by
  have hname := h.names part hpart
  simp only [isName, Bool.and_eq_true, Bool.not_eq_true'] at hname
  simpa using hname.2

theorem IsPlain.ne_empty {p : SourcePath} (h : p.IsPlain) {part : String} (hpart : part ∈ p.parts) :
    part ≠ "" := by
  have hname := h.names part hpart
  simp only [isName, Bool.and_eq_true, bne_iff_ne] at hname
  exact hname.1

theorem isPlain_root : IsPlain ⟨1, []⟩ := ⟨rfl, by simp, by simp⟩

theorem IsPlain.parent {p : SourcePath} (h : p.IsPlain) : p.parent.IsPlain :=
  ⟨h.slashes, fun hup => h.up (List.dropLast_subset _ hup),
    fun part hpart => h.names part (List.dropLast_subset _ hpart)⟩

theorem IsPlain.child {p : SourcePath} (h : p.IsPlain) {name : String} (hup : name ≠ "..")
    (hname : isName name = true) : (p.child name).IsPlain := by
  refine ⟨h.slashes, fun hmem => ?_, fun part hpart => ?_⟩
  · rcases List.mem_append.mp hmem with hmem | hmem
    · exact h.up hmem
    · exact hup (List.mem_singleton.mp hmem).symm
  · rcases List.mem_append.mp hpart with hpart | hpart
    · exact h.names part hpart
    · rwa [List.mem_singleton.mp hpart]

/-- A step behind names leaves names. -/
theorem names_step {done : List String} (h : ∀ p ∈ done, p ≠ ".." ∧ isName p = true) (part : String) :
    ∀ p ∈ step done part, p ≠ ".." ∧ isName p = true := by
  intro p hp
  unfold step at hp
  split at hp
  next => exact h p (List.mem_of_mem_drop hp)
  next hup =>
    split at hp
    next hname =>
      rcases List.mem_cons.mp hp with rfl | hp
      · exact ⟨hup, hname⟩
      · exact h p hp
    next => exact h p hp

/-- The parts of a path without `..` are names. -/
theorem names_collapse (parts : List String) : ∀ p ∈ collapse parts, p ≠ ".." ∧ isName p = true := by
  have hfold : ∀ done : List String, (∀ p ∈ done, p ≠ ".." ∧ isName p = true) →
      ∀ p ∈ parts.foldl step done, p ≠ ".." ∧ isName p = true := by
    induction parts with
    | nil => exact fun done h => h
    | cons part parts ih => exact fun done h => ih _ (names_step h part)
  intro p hp
  exact hfold [] (by simp) p (List.mem_reverse.mp hp)

theorem isPlain_resolve (base p : SourcePath) : (resolve base p).IsPlain :=
  ⟨rfl, fun hup => (names_collapse _ _ hup).1 rfl, fun part hpart => (names_collapse _ part hpart).2⟩

theorem collapse_eq_self {parts : List String} (hup : ".." ∉ parts)
    (hnames : ∀ part ∈ parts, isName part = true) : collapse parts = parts := by
  have hfold : ∀ done : List String, parts.foldl step done = parts.reverse ++ done := by
    induction parts with
    | nil => exact fun done => rfl
    | cons part parts ih =>
      intro done
      have hpart : part ≠ ".." := fun heq => hup (heq ▸ List.mem_cons_self)
      rw [List.foldl_cons, step, if_neg hpart, if_pos (hnames part List.mem_cons_self),
        ih (fun hmem => hup (List.mem_cons_of_mem part hmem))
          fun other hother => hnames other (List.mem_cons_of_mem part hother),
        List.reverse_cons, List.append_assoc]
      rfl
  rw [collapse, hfold, List.append_nil, List.reverse_reverse]

/-- The path of a place stays as it is. -/
theorem IsPlain.resolve {p : SourcePath} (h : p.IsPlain) (base : SourcePath) :
    SourcePath.resolve base p = p := by
  have habsolute : base.join p = p := if_pos (by simp [isAbsolute, h.slashes])
  rw [SourcePath.resolve, habsolute, collapse_eq_self h.up h.names, ← h.slashes]

/-- The rest of a list that starts with another. -/
def dropLead? : List String → List String → Option (List String)
  | [], ps => some ps
  | _ :: _, [] => none
  | a :: lead, b :: ps => if a = b then dropLead? lead ps else none

/-- Whether there can be such a path at all: no part of it holds a zero character. -/
def isPossible (p : SourcePath) : Bool := p.parts.all fun part => !part.contains '\x00'

/-- The path relative to a directory that it lies in; both are absolute. -/
def relativeTo? (p root : SourcePath) : Option SourcePath :=
  if p.slashes = root.slashes then (dropLead? root.parts p.parts).map fun parts => ⟨0, parts⟩
  else none

/-- The path as reports show it: relative to `root` if it lies there, and otherwise as given. -/
def shown (base root p : SourcePath) : String :=
  match (resolve base p).relativeTo? (resolve base root) with
  | some q => q.toString
  | none => p.toString

/-- The ending of the last part from its last point on. A point at either end of it starts none. -/
def extension (p : SourcePath) : String :=
  let cs := p.name.toList
  let after := (cs.reverse.takeWhile (· != '.')).reverse
  if after.length = cs.length || after.isEmpty || after.length + 1 = cs.length then ""
  else String.ofList ('.' :: after)

/-- The endings of header files. -/
def headerExtensions : List String := [".h", ".hh", ".hpp", ".hxx", ".h++"]

/-- Whether the path names a header file. -/
def isHeader (p : SourcePath) : Bool := headerExtensions.contains (Case.lower p.extension)

end SourcePath

end HouseStyle
