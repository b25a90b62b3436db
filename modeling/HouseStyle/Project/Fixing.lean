import HouseStyle.Diff.Unified
import HouseStyle.Fix.Batch
import HouseStyle.Log
import HouseStyle.Project.Tree
import HouseStyle.Report.Aggregate

/-!
# Fixing files

The fixable violations of a run are applied file by file. Those that were applied leave the report,
and a file whose edits are refused stays as it is, keeps its violations and gets a note. A dry run
writes nothing and takes nothing out of the report.
-/

namespace HouseStyle

/-- How files are fixed. -/
structure FixMode where
  /-- Nothing is written. -/
  dryRun : Bool := false
  /-- What was there before is kept next to each file that changes. -/
  backup : Bool := false
  deriving DecidableEq, Repr

/-- What became of one file. -/
structure FileFix where
  path : SourcePath
  before : Text
  after : Text
  /-- The differences, as they are shown. -/
  diff : String := ""
  /-- The note on edits that were refused. -/
  rejection : Option Violation := none
  deriving Repr

/-- Whether the file has another text now, or would have in a dry run. -/
def FileFix.changed (f : FileFix) : Bool := f.before != f.after

/-- The ending of the name that the former text of a file is kept under. -/
def backupEnding : String := ".cppconform.bak"

/-- The note on a file whose edits were not applied. -/
def rejectionNote (path : SourcePath) (reason : String) : Violation :=
  { ruleId := "engine/fix-rejected", severity := .warning, category := .engine
    message := "Automatic fixes were not applied: " ++ reason
    location := some {
      path := some path, startLine := some 1, startColumn := some 1
      startOffset := some 0, endOffset := some 0 } }

/-- A file that is left as it is for a reason. -/
def FileFix.rejected (path : SourcePath) (text : Text) (reason : String) : FileFix :=
  { path, before := text, after := text, rejection := some (rejectionNote path reason) }

namespace FileTree

/-- The path that the former text of a file is kept under. -/
def backupPath (p : SourcePath) : SourcePath := p.parent.child (p.name ++ backupEnding)

/-- Keeps what is at a path under another name, unless something has that name already. -/
def keepBackup (t : FileTree) (p : SourcePath) (bytes : List UInt8) : Except FileFailure FileTree :=
  (t.follow (backupPath p)).map fun place =>
    if t.isFile place || t.isDirectory place then t else t.write (backupPath p) bytes

/-- Writes the new text of a file; if the former one cannot be kept the file stays as it is. -/
def writeFix (t : FileTree) (mode : FixMode) (p : SourcePath) (before : List UInt8) (after : Text) :
    Except FileFailure FileTree :=
  (if mode.backup then t.keepBackup p before else .ok t).map (·.write p (Utf8.encode after))

/-- Applies the edits of some violations to a file; `label` is its name in the differences. -/
def fixFile (t : FileTree) (mode : FixMode) (label : String) (p : SourcePath) (vs : List Violation) :
    FileFix × FileTree × List LogRecord :=
  match t.read? p with
  | .error failure =>
    (.rejected p [] ("could not read file for fixing: " ++ failure.message p.toString), t, [])
  | .ok bytes =>
    let before := Utf8.decode bytes
    match applyFixes before vs with
    | .error r =>
      (.rejected p before r.message, t,
        [⟨.info, .fixing, "fixes for " ++ label ++ " rejected: " ++ r.message⟩])
    | .ok after =>
      let fix : FileFix := { path := p, before, after, diff := Diff.unified label before after }
      if fix.changed && !mode.dryRun then
        match t.writeFix mode p bytes after with
        | .error failure =>
          (.rejected p before
            ("could not write fixed file: " ++ failure.message (backupPath p).toString), t, [])
        | .ok written =>
          (fix, written,
            [⟨.debug, .fixing,
              "fixed " ++ label ++ " (" ++ toString vs.length ++ " violations)"⟩])
      else (fix, t, [])

end FileTree

/-- What became of all files. -/
structure FixReport where
  files : List FileFix
  /-- The report once the applied violations have left it. -/
  violations : List Violation
  dryRun : Bool
  deriving Repr

namespace FixReport

/-- The files that have another text now, or would have in a dry run. -/
def changedFiles (r : FixReport) : List SourcePath := (r.files.filter (·.changed)).map (·.path)

/-- The differences of all files. -/
def diff (r : FixReport) : String :=
  "\n".intercalate ((r.files.map (·.diff)).filter (!·.isEmpty))

end FixReport

/-- The path of a violation. -/
def Violation.path? (v : Violation) : Option SourcePath := v.location.bind (·.path)

/-- The fixable violations of a file. -/
def fixableOf (vs : List Violation) (p : SourcePath) : List Violation :=
  (fixableViolations vs).filter (·.path? == some p)

/-- The files with fixable violations, in increasing order of their paths. -/
def fixablePaths (vs : List Violation) : List SourcePath :=
  (((fixableViolations vs).filterMap (·.path?)).eraseDups).mergeSort fun a b =>
    decide (a.toString ≤ b.toString)

/-- Whether a violation was applied, given what became of the files. -/
def wasApplied (files : List FileFix) (v : Violation) : Bool :=
  v.isFixable && files.any fun f => v.path? == some f.path && f.rejection.isNone

namespace FileTree

/-- Fixes files one after another. -/
def fixFiles (t : FileTree) (mode : FixMode) (base root : SourcePath) (vs : List Violation) :
    List SourcePath → List FileFix × FileTree × List LogRecord
  | [] => ([], t, [])
  | p :: ps =>
    let (fix, t, log) := t.fixFile mode (SourcePath.shown base root p) p (fixableOf vs p)
    let (fixes, t, more) := fixFiles t mode base root vs ps
    (fix :: fixes, t, log ++ more)

/-- Fixes every file that has fixable violations. -/
def fix (t : FileTree) (mode : FixMode) (base root : SourcePath) (vs : List Violation) :
    FixReport × FileTree × List LogRecord :=
  let (files, t, log) := t.fixFiles mode base root vs (fixablePaths vs)
  let remaining := if mode.dryRun then vs else vs.filter (!wasApplied files ·)
  ({ files, violations := aggregate [remaining, files.filterMap (·.rejection)]
     dryRun := mode.dryRun }, t, log)

end FileTree

end HouseStyle
