import HouseStyle.Config.Parse
import HouseStyle.Path.Pattern
import HouseStyle.Project.Tree

/-!
# Finding the files to check

A path that is given is either a file, which is checked whatever it is, or a directory, in which
every file is checked that the configuration selects. A path with nothing there counts as a file, so
that the run can say that it cannot be read; but one that the file system cannot be asked about stops
the run.
-/

namespace HouseStyle

/-- The directories that are not searched: those of tools, and those of files that were made. -/
def skippedDirectories : List String :=
  [".git", ".hg", ".svn", ".idea", ".vscode", ".cache", "node_modules", "build",
    "cmake-build-debug", "cmake-build-release", "__pycache__"]

/-- Paths in increasing order of their texts, each once. -/
def sortedPaths (ps : List SourcePath) : List SourcePath :=
  (ps.eraseDups).mergeSort fun a b => decide (a.toString ≤ b.toString)

namespace FileTree

/-- Whether a file is found when the directory that its path is relative to is searched. -/
def isSearched (relative : SourcePath) : Bool :=
  !relative.parts.dropLast.any skippedDirectories.contains

/-- The files that one path stands for. -/
def filesOf (t : FileTree) (config : Config) (root p : SourcePath) : List SourcePath :=
  if t.isDirectory p then
    (((t.filesBelow p).filter isSearched).map p.join).filter (config.selects p root)
  else [p]

/-- The files that some paths stand for, in order, seen from the directory `base`. -/
def filesAt (t : FileTree) (config : Config) (base root : SourcePath) (paths : List SourcePath) :
    List SourcePath :=
  sortedPaths (paths.flatMap fun p => t.filesOf config root (SourcePath.resolve base p))

/-- Stops the run if the file system cannot be asked about a path. -/
def allow (t : FileTree) (base p : SourcePath) : Except RunFault Unit :=
  if !p.isPossible then .error .zeroInPath
  else
    match t.follow (SourcePath.resolve base p) with
    | .error .nameTooLong => .error .pathTooLong
    | _ => .ok ()

/-- The files to check, if the file system can be asked about each of the paths. -/
def discover (t : FileTree) (config : Config) (base root : SourcePath) (paths : List SourcePath) :
    Except RunFault (List SourcePath) :=
  (paths.forM (t.allow base)).map fun _ => t.filesAt config base root paths

end FileTree

end HouseStyle
