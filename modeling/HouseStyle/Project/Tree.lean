import HouseStyle.Path
import HouseStyle.Text.Quoted

/-!
# File trees

The part of a file system that a run sees: the files with their bytes, and directories. A directory
is there if it was made, or if there is something below it. Paths are absolute; `..` in a path takes
away the part before it, which has to be a directory. A name has at most 255 bytes, and a path at most
4095.

The paths at which something stands are those of places (`SourcePath.IsPlain`), and a path leads to a place or
nowhere (`isPlain_of_follow`).
-/

namespace HouseStyle

/-- What stands at a path. -/
inductive TreeEntry where
  | file (bytes : List UInt8)
  | directory
  deriving DecidableEq, Repr

theorem FileTree.plain_nil : ∀ x ∈ ([] : List (SourcePath × TreeEntry)), x.1.IsPlain :=
  List.forall_mem_nil _

theorem FileTree.once_nil : (([] : List (SourcePath × TreeEntry)).map (·.1)).Nodup := List.nodup_nil

/-- What stands at the places of a file system. -/
structure FileTree where
  entries : List (SourcePath × TreeEntry) := []
  /-- The paths are those of places. -/
  plain : ∀ x ∈ entries, x.1.IsPlain := by first | exact FileTree.plain_nil | decide
  /-- Each place is there once. -/
  once : (entries.map (·.1)).Nodup := by first | exact FileTree.once_nil | decide
  deriving Repr

instance : Inhabited FileTree := ⟨{}⟩

/-- Why a file cannot be read or written. -/
inductive FileFailure where
  | missing
  /-- A part of the path before the last one is a file. -/
  | notDirectory
  | isDirectory
  | nameTooLong
  deriving DecidableEq, Repr

/-- What a failure says of a path. -/
def FileFailure.message (path : String) (f : FileFailure) : String :=
  (match f with
    | .missing => "[Errno 2] No such file or directory: "
    | .notDirectory => "[Errno 20] Not a directory: "
    | .isDirectory => "[Errno 21] Is a directory: "
    | .nameTooLong => "[Errno 36] File name too long: ") ++ Quoted.quote path

/-- The most bytes that a name has. -/
def maxNameBytes : Nat := 255

/-- The most bytes that a path has. -/
def maxPathBytes : Nat := 4095

namespace FileTree

/-- What stands at a path. -/
def entry? (t : FileTree) (p : SourcePath) : Option TreeEntry := t.entries.lookup p

/-- Whether a path lies below another one. -/
def isBelow (dir p : SourcePath) : Bool := (p.relativeTo? dir).any (!·.parts.isEmpty)

/-- Whether there is a directory at a path. -/
def isDirectory (t : FileTree) (p : SourcePath) : Bool :=
  match t.entry? p with
  | some .directory => true
  | some (.file _) => false
  | none => p.parts.isEmpty || t.entries.any fun (q, _) => isBelow p q

/-- Whether there is a file at a path. -/
def isFile (t : FileTree) (p : SourcePath) : Bool :=
  match t.entry? p with
  | some (.file _) => true
  | _ => false

/-- What a path leads to, where `place` has been reached and some parts are left. A part that is no name
leads nowhere. -/
def followFrom (t : FileTree) (place : SourcePath) : List String → Except FileFailure SourcePath
  | [] => .ok place
  | part :: parts =>
    if t.isFile place then .error .notDirectory
    else if !t.isDirectory place then .error .missing
    else if part = ".." then followFrom t place.parent parts
    else if !SourcePath.isName part then .error .missing
    else if maxNameBytes < part.utf8ByteSize then .error .nameTooLong
    else followFrom t (place.child part) parts

/-- What a path leads to. -/
def follow (t : FileTree) (p : SourcePath) : Except FileFailure SourcePath :=
  if maxPathBytes < p.toString.utf8ByteSize then .error .nameTooLong
  else followFrom t ⟨1, []⟩ p.parts

theorem isPlain_of_followFrom {t : FileTree} {place q : SourcePath} {parts : List String}
    (hplace : place.IsPlain) (h : t.followFrom place parts = .ok q) : q.IsPlain := by
  fun_induction followFrom t place parts with
  | case1 place => exact Except.ok.inj h ▸ hplace
  | case4 place parts _ _ ih => exact ih hplace.parent h
  | case7 place part parts _ _ hup hname _ ih => exact ih (hplace.child hup (by simpa using hname)) h
  | _ => exact absurd h (by simp)

/-- What a path leads to is a place. -/
theorem isPlain_of_follow {t : FileTree} {p q : SourcePath} (h : t.follow p = .ok q) : q.IsPlain := by
  unfold follow at h
  split at h
  · exact absurd h (by simp)
  · exact isPlain_of_followFrom SourcePath.isPlain_root h

/-- The bytes of a file. -/
def read? (t : FileTree) (p : SourcePath) : Except FileFailure (List UInt8) := do
  let place ← t.follow p
  match t.entry? place with
  | some (.file bytes) => return bytes
  | _ => if t.isDirectory place then throw .isDirectory else throw .missing

/-- The tree without a path and what is below it. -/
def remove (t : FileTree) (p : SourcePath) : FileTree where
  entries := t.entries.filter fun (q, _) => q != p && !isBelow p q
  plain := fun x hx => t.plain x (List.mem_filter.mp hx).1
  once := t.once.sublist (List.filter_sublist.map _)

/-- Puts something at a place. -/
def set (t : FileTree) (p : SourcePath) (e : TreeEntry)
    (hp : p.IsPlain := by first | assumption | exact SourcePath.isPlain_resolve _ _ | decide) : FileTree where
  entries := (p, e) :: t.entries.filter fun (q, _) => q != p
  plain := by
    intro x hx
    rcases List.mem_cons.mp hx with rfl | hx
    · exact hp
    · exact t.plain x (List.mem_filter.mp hx).1
  once := by
    refine List.nodup_cons.mpr ⟨fun hmem => ?_, t.once.sublist (List.filter_sublist.map _)⟩
    obtain ⟨x, hx, heq⟩ := List.mem_map.mp hmem
    simpa [heq] using (List.mem_filter.mp hx).2

/-- Writes a file at the place that a path leads to. -/
def write (t : FileTree) (p : SourcePath) (bytes : List UInt8) : FileTree :=
  match h : t.follow p with
  | .ok place => t.set place (.file bytes) (isPlain_of_follow h)
  | .error _ => t

/-- The files below a directory, by their paths relative to it. -/
def filesBelow (t : FileTree) (dir : SourcePath) : List SourcePath :=
  t.entries.filterMap fun (q, e) =>
    match e with
    | .file _ => q.relativeTo? dir
    | .directory => none

end FileTree

end HouseStyle
