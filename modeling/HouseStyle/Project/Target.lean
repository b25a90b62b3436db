import HouseStyle.Config.Parse
import HouseStyle.Project.Discovery
import HouseStyle.Text.Utf8
import HouseStyle.Toml.Document

/-!
# What to check, and by which configuration

The configuration of a project is a file of its own, or a table in a file that other tools share. It
is looked for from the first path that is given upward; the nearest one counts, and in one directory
the file of its own. Its directory is the root of the project, which the patterns and the paths in
reports are relative to.
-/

namespace HouseStyle

/-- The name of a file that holds nothing but a configuration. -/
def configFileName : String := ".cppconform.toml"

/-- The name of the file that other tools share. -/
def sharedFileName : String := "pyproject.toml"

/-- The name of the table with the configuration in that file. -/
def sharedTableName : String := "tool.cppconform"

/-- Where a document is malformed, in words. -/
def Toml.problemAt (document : String) (left : Nat) : String :=
  let (line, column) := Toml.position document left
  "malformed (at line " ++ toString line ++ ", column " ++ toString column ++ ")"

/-- Reads a document; `name` is its path as messages show it. -/
def readDocument (name : String) (bytes : List UInt8) : Except RunFault Toml.Document :=
  match (Utf8.decode bytes).toString? with
  | none => .error .notText
  | some text =>
    match Toml.parse text with
    | .ok document => .ok document
    | .error .tooManyDigits => .error .tooManyDigits
    | .error .tooDeep => .error .tooDeep
    | .error (.malformed left) =>
      .error (.invalid (.invalidToml name (Toml.problemAt text left)))

/-- What a document that other tools share has in place of the configuration, if anything. -/
def sharedValue? (document : Toml.Document) : Option ConfigValue :=
  match document.entries.lookup "tool" with
  | some (.table tools) => tools.lookup "cppconform"
  | _ => none

/-- The table with the configuration in a document that other tools share. If there is none it
counts as empty. -/
def sharedTable (name : String) (document : Toml.Document) : Except RunFault ConfigTable :=
  match sharedValue? document with
  | none => .ok []
  | some (.table entries) => .ok entries
  | some _ => .error (.invalid (.notTableIn sharedTableName name))

/-- The configuration in a shared document, too, has each key once. -/
theorem once_sharedTable {name : String} {document : Toml.Document} {entries : ConfigTable}
    (h : sharedTable name document = .ok entries) : (ConfigValue.table entries).Once := by
  unfold sharedTable at h
  split at h
  next => exact Except.ok.inj h ▸ .table List.nodup_nil (by simp)
  next hvalue =>
    obtain rfl := Except.ok.inj h
    unfold sharedValue? at hvalue
    split at hvalue
    next htool => exact (document.once.of_lookup htool).of_lookup hvalue
    next => exact absurd hvalue (by simp)
  next => exact absurd h (by simp)

namespace SourcePath

/-- A directory and all that hold it, the nearest first. -/
def withParents (dir : SourcePath) : List SourcePath :=
  (List.range (dir.parts.length + 1)).map fun k =>
    { dir with parts := dir.parts.take (dir.parts.length - k) }

end SourcePath

namespace FileTree

/-- The bytes of a file, if it is one. -/
def file? (t : FileTree) (p : SourcePath) : Option (List UInt8) :=
  match t.read? p with
  | .ok bytes => some bytes
  | .error _ => none

/-- Whether a file that other tools share holds a configuration. A malformed one does not. -/
def holdsConfig (p : SourcePath) (bytes : List UInt8) : Except RunFault Bool :=
  match readDocument p.toString bytes with
  | .ok document => .ok (sharedValue? document).isSome
  | .error (.invalid _) => .ok false
  | .error fault => .error fault

/-- The configuration in the first of some directories that has one, with the name of its table. -/
def findConfigIn (t : FileTree) :
    List SourcePath → Except RunFault (Option (SourcePath × String))
  | [] => .ok none
  | dir :: dirs =>
    let own := dir.child configFileName
    let shared := dir.child sharedFileName
    if t.isFile own then .ok (some (own, ""))
    else
      match t.file? shared with
      | none => findConfigIn t dirs
      | some bytes => do
        if ← holdsConfig shared bytes then return some (shared, sharedTableName)
        else findConfigIn t dirs

/-- The directory that a search from a path starts in: the path itself, or the one that holds it. -/
def startDirectory (t : FileTree) (start : SourcePath) : SourcePath :=
  if t.isDirectory start then start else start.parent

/-- The nearest configuration from a path upward, with the name of its table. -/
def findConfig (t : FileTree) (base start : SourcePath) :
    Except RunFault (Option (SourcePath × String)) := do
  t.allow base start
  t.findConfigIn (t.startDirectory (SourcePath.resolve base start)).withParents

/-- The root of the project that a path belongs to. -/
def projectRoot (t : FileTree) (base start : SourcePath) : Except RunFault SourcePath :=
  (t.findConfig base start).map fun
    | some (file, _) => file.parent
    | none => t.startDirectory (SourcePath.resolve base start)

/-- Reads the configuration in a table of a file. -/
def readConfig (base path : SourcePath) (table : String) (bytes : List UInt8) :
    Except RunFault Config := do
  let document ← readDocument path.toString bytes
  let entries ← if table.isEmpty then pure document.entries else sharedTable path.toString document
  Config.ofTable? table (some (SourcePath.resolve base path)) entries

/-- The configuration for a path: the one in the file that is given, or else the nearest one, or
else the defaults. -/
def loadConfig (t : FileTree) (base start : SourcePath) (given : Option SourcePath) :
    Except RunFault Config :=
  match given with
  | some path =>
    match t.read? (base.join path) with
    | .error .nameTooLong => .error .pathTooLong
    | .error _ => .error (.invalid (.missingFile path.toString))
    | .ok bytes =>
      readConfig base path (if path.name = sharedFileName then sharedTableName else "") bytes
  | none => do
    match ← t.findConfig base start with
    | none => return {}
    | some (path, table) => readConfig base path table ((t.file? path).getD [])

end FileTree

/-- What to check, and how. -/
structure CheckTarget where
  root : SourcePath
  paths : List SourcePath
  config : Config
  deriving Repr

/-- The absolute paths for some paths seen from the directory `base`. -/
def resolveAll (base : SourcePath) (paths : List SourcePath) : Except RunFault (List SourcePath) :=
  if paths.all (·.isPossible) then .ok (paths.map (SourcePath.resolve base)) else .error .zeroInPath

/-- The target for some paths, seen from the directory `base`, which is meant if there are none. -/
def FileTree.target (t : FileTree) (base : SourcePath) (paths : List SourcePath)
    (given : Option SourcePath) : Except RunFault CheckTarget := do
  let paths ← resolveAll base (if paths.isEmpty then [SourcePath.here] else paths)
  let start := paths.headD base
  let config ← t.loadConfig base start given
  let root ←
    match config.source with
    | some file => pure file.parent
    | none => t.projectRoot base start
  return { root, paths, config }

end HouseStyle
