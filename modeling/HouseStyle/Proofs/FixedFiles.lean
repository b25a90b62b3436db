import HouseStyle.Project.Fixing
import HouseStyle.Proofs.Aggregate
import HouseStyle.Proofs.Batch
import HouseStyle.Proofs.Tree
import HouseStyle.Proofs.Turns
import HouseStyle.Proofs.Utf8

/-!
# What fixing does to the files

A file that is fixed is read, and if its edits are accepted its new text is written, with the former
bytes kept beside it if they are asked for. Nothing else in the tree changes (`Rewritten`), so the files
of a run do not get in each other's way, even where the backup of one file would have the name of another.

- `Holds.fixFile_cases`: what becomes of one file.
- `AgreesAt`: all that the fixing of a file looks at, and `AgreesAt.after_fixFile`: the fixing of another
  file leaves it alone.
- `HoldsEach.fixedApart`: a run over files makes of each one what fixing it alone makes of it.
- `HoldsEach.entry?_fixFiles_perm`: it makes no difference in which order the files get their turns.
-/

namespace HouseStyle

namespace FileTree

variable {s t w : FileTree} {mode : FixMode} {p q place : SourcePath} {bytes : List UInt8} {label : String}
  {vs : List Violation}

/-! ## The place of a backup -/

theorem append_backupEnding_ne (name : String) : name ++ backupEnding ≠ ".." := by
  intro h
  have hlen := congrArg String.length h
  rw [String.length_append] at hlen
  have : backupEnding.length = 15 := by decide
  have : "..".length = 2 := by decide
  omega

theorem isName_append_backupEnding {name : String} (hslash : '/' ∉ name.toList) :
    SourcePath.isName (name ++ backupEnding) = true := by
  have hending : '/' ∉ backupEnding.toList := by decide
  have hne : name ++ backupEnding ≠ "" := by
    intro heq
    have hlen := congrArg String.length heq
    rw [String.length_append, show backupEnding.length = 15 by decide] at hlen
    exact absurd hlen (by simp)
  simp [SourcePath.isName, String.toList_append, hslash, hending, hne]

/-- The backup of a file stands at a place beside it. -/
theorem isPlain_backupPath (hp : p.IsPlain) : (backupPath p).IsPlain := by
  refine hp.parent.child (append_backupEnding_ne _) (isName_append_backupEnding ?_)
  unfold SourcePath.name
  cases hlast : p.parts.getLast? with
  | none => simp
  | some name => exact hp.slash_not_mem (List.mem_of_getLast? hlast)

theorem Holds.isPlain (h : t.Holds p place bytes) : place.IsPlain := isPlain_of_follow h.leads

theorem Holds.followFrom_parts (h : t.Holds p place bytes) : t.followFrom ⟨1, []⟩ p.parts = .ok place := by
  have hleads := h.leads
  unfold follow at hleads
  split at hleads
  · exact absurd hleads (by simp)
  · exact hleads

/-- A file has the name that ends its path, in the directory that the rest of the path leads to. -/
theorem Holds.eq_child (h : t.Holds p place bytes) (hne : p.parts ≠ []) :
    ∃ dir, t.followFrom ⟨1, []⟩ p.parts.dropLast = .ok dir ∧ t.isDirectory dir = true ∧
      place = dir.child p.name := by
  have hfollow := h.followFrom_parts
  rw [← List.dropLast_concat_getLast hne] at hfollow
  have hname : p.name = p.parts.getLast hne := by
    simp [SourcePath.name, List.getLast?_eq_some_getLast hne]
  rw [hname]
  exact followFrom_concat_eq_ok_of_isFile hfollow (fun a ha => absurd ha (by simp [not_isBelow_root]))
    h.isFile

/-- A backup of a file stands beside it. Whether a path leads there is a matter of the path alone. -/
theorem Holds.follow_backupPath (h : t.Holds p place bytes) :
    t.follow (backupPath p) =
      if maxPathBytes < (backupPath p).toString.utf8ByteSize then .error .nameTooLong
      else if p.parts = [] then .error .notDirectory
      else if maxNameBytes < (p.name ++ backupEnding).utf8ByteSize then .error .nameTooLong
      else .ok (backupPath place) := by
  unfold follow
  split
  next => rfl
  next =>
    have hparts : (backupPath p).parts = p.parts.dropLast ++ [p.name ++ backupEnding] := rfl
    rw [hparts]
    split
    next hempty =>
      obtain rfl : (⟨1, []⟩ : SourcePath) = place := by
        simpa [hempty, followFrom] using h.followFrom_parts
      simp [hempty, followFrom, h.isFile]
    next hne =>
      obtain ⟨dir, hdir, hisdir, hplace⟩ := h.eq_child hne
      have hnotfile : t.isFile dir = false := by
        rw [Bool.eq_false_iff]
        intro hf
        rw [isDirectory_eq_false_of_isFile hf] at hisdir
        exact absurd hisdir (by simp)
      have hbackup : backupPath place = dir.child (p.name ++ backupEnding) := by
        rw [hplace]
        simp [backupPath, SourcePath.parent, SourcePath.child, SourcePath.name]
      have hname : '/' ∉ p.name.toList := h.isPlain.slash_not_mem (by rw [hplace]; simp [SourcePath.child])
      rw [followFrom_append, hdir, hbackup]
      simp [Except.bind, followFrom, hnotfile, hisdir, append_backupEnding_ne, isName_append_backupEnding hname]

theorem Holds.eq_backupPath {x : SourcePath} (h : t.Holds p place bytes)
    (hb : t.follow (backupPath p) = .ok x) : place.parts ≠ [] ∧ x = backupPath place := by
  rw [h.follow_backupPath] at hb
  split at hb
  · exact absurd hb (by simp)
  · split at hb
    · exact absurd hb (by simp)
    next hne =>
      split at hb
      · exact absurd hb (by simp)
      · obtain ⟨dir, -, -, hplace⟩ := h.eq_child hne
        refine ⟨by simp [hplace, SourcePath.child], ?_⟩
        simpa using hb.symm

/-- Different files have different backups. -/
theorem eq_of_backupPath_eq {x y : SourcePath} (hx : x.parts ≠ []) (hy : y.parts ≠ [])
    (h : backupPath x = backupPath y) : x = y := by
  unfold backupPath SourcePath.parent SourcePath.child at h
  simp only [SourcePath.mk.injEq] at h
  obtain ⟨hslashes, hparts⟩ := h
  obtain ⟨hfront, hlast⟩ := List.append_inj' hparts rfl
  have hname : x.name = y.name := by simpa using hlast
  have hx' := List.dropLast_concat_getLast hx
  have hy' := List.dropLast_concat_getLast hy
  unfold SourcePath.name at hname
  rw [List.getLast?_eq_some_getLast hx, List.getLast?_eq_some_getLast hy] at hname
  cases x
  cases y
  simp only [Option.getD_some] at hname hfront hslashes hx' hy'
  rw [SourcePath.mk.injEq, ← hx', ← hy', hname, hfront]
  exact ⟨hslashes, rfl⟩

/-! ## Writing one file -/

/-- Nothing stands at a place. -/
def Free (t : FileTree) (x : SourcePath) : Prop := t.isFile x = false ∧ t.isDirectory x = false

theorem Free.entry?_eq_none {x : SourcePath} (h : t.Free x) : t.entry? x = none := by
  obtain ⟨hfile, hdir⟩ := h
  cases he : t.entry? x with
  | none => rfl
  | some e =>
    cases e with
    | file bytes => simp [FileTree.isFile, he] at hfile
    | directory => simp [isDirectory, he] at hdir

theorem Holds.not_free (h : t.Holds p place bytes) : ¬ t.Free place := fun hfree =>
  absurd (hfree.entry?_eq_none.symm.trans h.stands) (by simp)

/-- A place where a backup is made when the file of a path changes. -/
def TakesBackup (t : FileTree) (mode : FixMode) (p x : SourcePath) : Prop :=
  mode.backup = true ∧ t.follow (backupPath p) = .ok x ∧ t.Free x

/-- The tree `w` is the tree `t` with another file at a place, and its former bytes in the backup. -/
structure Rewritten (t w : FileTree) (mode : FixMode) (p place : SourcePath) (before after : List UInt8) :
    Prop where
  directories : ∀ d, w.isDirectory d = t.isDirectory d
  file : w.entry? place = some (.file after)
  backup : ∀ x, t.TakesBackup mode p x → w.entry? x = some (.file before)
  others : ∀ x, x ≠ place → ¬ t.TakesBackup mode p x → w.entry? x = t.entry? x

/-- A file at a place that a path leads to, where no directory stands, makes no other directory. -/
theorem isDirectory_set_of_follow {x : SourcePath} (hleads : t.follow q = .ok x)
    (hx : t.isDirectory x = false) (d : SourcePath) :
    (t.set x (.file bytes) (isPlain_of_follow hleads)).isDirectory d = t.isDirectory d :=
  isDirectory_set (above_isDirectory_of_follow hleads) hx d

theorem write_of_follow (h : t.follow p = .ok place) (bytes : List UInt8) :
    t.write p bytes = t.set place (.file bytes) (isPlain_of_follow h) := by
  unfold write
  split
  next place' h' =>
    obtain rfl : place' = place := Except.ok.inj (h'.symm.trans h)
    rfl
  next failure h' => exact absurd (h'.symm.trans h) (by simp)

theorem Holds.rewritten_write (h : t.Holds p place bytes) (hw : ∀ d, w.isDirectory d = t.isDirectory d)
    (hbackup : ∀ x, t.TakesBackup mode p x → w.entry? x = some (.file bytes))
    (hothers : ∀ x, ¬ t.TakesBackup mode p x → w.entry? x = t.entry? x) (after : List UInt8) :
    Rewritten t (w.write p after) mode p place bytes after := by
  have hleads : w.follow p = .ok place := (follow_eq_ok_iff hw).mpr h.leads
  have hnotbackup : ∀ x, t.TakesBackup mode p x → x ≠ place := by
    rintro x ⟨-, -, hfree⟩ rfl
    exact h.not_free hfree
  rw [write_of_follow hleads]
  refine ⟨fun d => ?_, by rw [entry?_set, if_pos rfl], fun x hx => ?_, fun x hne hx => ?_⟩
  · rw [isDirectory_set_of_follow hleads, hw]
    rw [hw]
    exact isDirectory_eq_false_of_isFile h.isFile
  · rw [entry?_set, if_neg (hnotbackup x hx)]
    exact hbackup x hx
  · rw [entry?_set, if_neg hne]
    exact hothers x hx

/-- Writing the new text of a file fails only where the backup cannot stand. -/
theorem Holds.writeFix (h : t.Holds p place bytes) (mode : FixMode) (after : Text) :
    (∃ failure, mode.backup = true ∧ t.follow (backupPath p) = .error failure ∧
      t.writeFix mode p bytes after = .error failure) ∨
    ∃ w, t.writeFix mode p bytes after = .ok w ∧
      (mode.backup = true → ∃ x, t.follow (backupPath p) = .ok x) ∧
      Rewritten t w mode p place bytes (Utf8.encode after) := by
  unfold FileTree.writeFix
  by_cases hmode : mode.backup = true
  · rw [if_pos hmode]
    unfold keepBackup
    cases hb : t.follow (backupPath p) with
    | error failure => exact Or.inl ⟨failure, hmode, rfl, rfl⟩
    | ok x =>
      right
      have htakes : ∀ y, t.TakesBackup mode p y → y = x := by
        rintro y ⟨-, hy, -⟩
        simpa [hb] using hy.symm
      refine ⟨_, rfl, fun _ => ⟨x, rfl⟩, ?_⟩
      dsimp only
      split
      next hthere =>
        -- something has the name of the backup already, and stays
        have hnone : ∀ y, ¬ t.TakesBackup mode p y := by
          intro y hy
          rw [← htakes y hy, hy.2.2.1, hy.2.2.2] at hthere
          exact absurd hthere (by simp)
        exact h.rewritten_write (fun _ => rfl) (fun y hy => absurd hy (hnone y)) (fun _ _ => rfl) _
      next hfree =>
        have hfree : t.Free x := by simpa [Free] using hfree
        rw [write_of_follow hb]
        refine h.rewritten_write (isDirectory_set_of_follow hb hfree.2) (fun y hy => ?_) (fun y hy => ?_) _
        · rw [htakes y hy, entry?_set, if_pos rfl]
        · rw [entry?_set, if_neg]
          rintro rfl
          exact hy ⟨hmode, hb, hfree⟩
  · rw [if_neg hmode]
    right
    exact ⟨_, rfl, fun h => absurd h hmode,
      h.rewritten_write (fun _ => rfl) (fun y hy => absurd hy.1 hmode) (fun _ _ => rfl) _⟩

/-! ## Fixing one file -/

/-- The fixing of one file of a run, by itself. -/
def fixAlone (t : FileTree) (mode : FixMode) (base root : SourcePath) (vs : List Violation)
    (p : SourcePath) : FileFix × FileTree × List LogRecord :=
  t.fixFile mode (SourcePath.shown base root p) p (fixableOf vs p)

/-- A file that has its new text. -/
def fixedTo (label : String) (p : SourcePath) (bytes : List UInt8) (after : Text) : FileFix :=
  { path := p, before := Utf8.decode bytes, after, diff := Diff.unified label (Utf8.decode bytes) after }

section FixFile

variable (h : t.Holds p place bytes) {after : Text} {r : FixRejection} {failure : FileFailure}

include h

theorem Holds.fixFile_of_refused (mode : FixMode) (label : String)
    (happly : applyFixes (Utf8.decode bytes) vs = .error r) :
    ∃ log, t.fixFile mode label p vs = (.rejected p (Utf8.decode bytes) r.message, t, log) := by
  unfold fixFile
  simp only [h.read?, happly]
  exact ⟨_, rfl⟩

theorem Holds.fixFile_of_same (label : String)
    (happly : applyFixes (Utf8.decode bytes) vs = .ok after)
    (hsame : after = Utf8.decode bytes ∨ mode.dryRun = true) :
    t.fixFile mode label p vs = (fixedTo label p bytes after, t, []) := by
  have hcond : (Utf8.decode bytes != after && !mode.dryRun) = false := by
    rcases hsame with h | h <;> simp [h]
  unfold fixFile
  simp only [h.read?, happly, FileFix.changed, hcond]
  rfl

theorem Holds.fixFile_of_changed (label : String)
    (happly : applyFixes (Utf8.decode bytes) vs = .ok after)
    (hdiff : ¬ (after = Utf8.decode bytes ∨ mode.dryRun = true)) :
    ∃ log, t.fixFile mode label p vs =
      match t.writeFix mode p bytes after with
      | .error failure =>
        (.rejected p (Utf8.decode bytes)
          ("could not write fixed file: " ++ failure.message (backupPath p).toString), t, [])
      | .ok w => (fixedTo label p bytes after, w, log) := by
  obtain ⟨hne, hwet⟩ := not_or.mp hdiff
  have hcond : (Utf8.decode bytes != after && !mode.dryRun) = true := by
    simpa [hwet] using Ne.symm hne
  unfold fixFile
  simp only [h.read?, happly, FileFix.changed, hcond]
  exact ⟨_, rfl⟩

end FixFile

/-- What becomes of a file: its fixes are refused, or its backup cannot be kept, or it has the new text. -/
theorem Holds.fixFile_cases (h : t.Holds p place bytes) (mode : FixMode) (label : String)
    (vs : List Violation) :
    (∃ r, applyFixes (Utf8.decode bytes) vs = .error r ∧
      (t.fixFile mode label p vs).1 = .rejected p (Utf8.decode bytes) r.message ∧
      (t.fixFile mode label p vs).2.1 = t) ∨
    (∃ failure, mode.backup = true ∧ t.follow (backupPath p) = .error failure ∧
      (t.fixFile mode label p vs).1 = .rejected p (Utf8.decode bytes)
        ("could not write fixed file: " ++ failure.message (backupPath p).toString) ∧
      (t.fixFile mode label p vs).2.1 = t) ∨
    ∃ after, applyFixes (Utf8.decode bytes) vs = .ok after ∧
      (t.fixFile mode label p vs).1 = fixedTo label p bytes after ∧
      if after = Utf8.decode bytes ∨ mode.dryRun = true then (t.fixFile mode label p vs).2.1 = t
      else Rewritten t (t.fixFile mode label p vs).2.1 mode p place bytes (Utf8.encode after) := by
  cases happly : applyFixes (Utf8.decode bytes) vs with
  | error r =>
    obtain ⟨log, heq⟩ := h.fixFile_of_refused mode label happly
    rw [heq]
    exact Or.inl ⟨r, rfl, rfl, rfl⟩
  | ok after =>
    right
    by_cases hsame : after = Utf8.decode bytes ∨ mode.dryRun = true
    · rw [h.fixFile_of_same label happly hsame]
      exact Or.inr ⟨after, rfl, rfl, by rw [if_pos hsame]⟩
    · obtain ⟨log, heq⟩ := h.fixFile_of_changed label happly hsame
      rw [heq]
      rcases h.writeFix mode after with ⟨failure, hmode, hb, hw⟩ | ⟨w, hw, -, hrewritten⟩
      · rw [hw]
        exact Or.inl ⟨failure, hmode, hb, rfl, rfl⟩
      · rw [hw]
        exact Or.inr ⟨after, rfl, rfl, by rw [if_neg hsame]; exact hrewritten⟩

theorem Holds.fixFile_tree (h : t.Holds p place bytes) (mode : FixMode) (label : String)
    (vs : List Violation) :
    (t.fixFile mode label p vs).2.1 = t ∨
      ∃ after, Rewritten t (t.fixFile mode label p vs).2.1 mode p place bytes after := by
  rcases h.fixFile_cases mode label vs with ⟨_, -, -, htree⟩ | ⟨_, -, -, -, htree⟩ | ⟨after, -, -, hcase⟩
  · exact Or.inl htree
  · exact Or.inl htree
  · split at hcase
    · exact Or.inl hcase
    · exact Or.inr ⟨_, hcase⟩

theorem path_fixFile : (t.fixFile mode label p vs).1.path = p := by
  unfold fixFile
  split
  · rfl
  · dsimp only
    split
    · rfl
    · split
      · split <;> rfl
      · rfl

theorem isDirectory_fixFile (d : SourcePath) : (t.fixFile mode label p vs).2.1.isDirectory d = t.isDirectory d := by
  cases hread : t.read? p with
  | error failure =>
    unfold fixFile
    rw [hread]
  | ok bytes =>
    obtain ⟨place, hholds⟩ := read?_eq_ok_iff.mp hread
    rcases hholds.fixFile_tree mode label vs with htree | ⟨after, hrewritten⟩
    · rw [htree]
    · exact hrewritten.directories d

theorem changed_place {x : SourcePath} (h : t.Holds p place bytes)
    (hx : FileTree.entry? (t.fixFile mode label p vs).2.1 x ≠ t.entry? x) :
    x = place ∨ t.TakesBackup mode p x := by
  refine Classical.byContradiction fun hcon => ?_
  obtain ⟨hplace, hbackup⟩ := not_or.mp hcon
  rcases h.fixFile_tree mode label vs with htree | ⟨after, hrewritten⟩
  · exact hx (by rw [htree])
  · exact hx (hrewritten.others x hplace hbackup)

/-- Another file stays as it is. -/
theorem entry?_fixFile_of_isFile {x : SourcePath} (hfile : t.isFile x = true) (hp : t.follow p ≠ .ok x) :
    FileTree.entry? (t.fixFile mode label p vs).2.1 x = t.entry? x := by
  cases hread : t.read? p with
  | error failure =>
    unfold fixFile
    rw [hread]
  | ok bytes =>
    obtain ⟨place, hholds⟩ := read?_eq_ok_iff.mp hread
    refine Classical.byContradiction fun hchanged => ?_
    rcases changed_place hholds hchanged with rfl | ⟨-, -, hfree⟩
    · exact hp hholds.leads
    · exact absurd (hfile.symm.trans hfree.1) (by simp)

/-! ## Files do not get in each other's way -/

/-- A tree in which nothing has changed so far that the fixing of a file looks at. -/
structure AgreesAt (s t : FileTree) (p : SourcePath) : Prop where
  directories : ∀ d, s.isDirectory d = t.isDirectory d
  file : ∀ x, t.follow p = .ok x → s.entry? x = t.entry? x
  backup : ∀ x, t.follow (backupPath p) = .ok x → s.isFile x = t.isFile x

theorem AgreesAt.holds (ha : AgreesAt s t p) (h : t.Holds p place bytes) : s.Holds p place bytes :=
  ⟨(follow_eq_ok_iff ha.directories).mpr h.leads, (ha.file place h.leads).trans h.stands⟩

theorem AgreesAt.takesBackup_iff (ha : AgreesAt s t p) (x : SourcePath) :
    s.TakesBackup mode p x ↔ t.TakesBackup mode p x := by
  unfold TakesBackup Free
  rw [follow_eq_ok_iff ha.directories, ha.directories]
  constructor
  · rintro ⟨hmode, hx, hfile, hdir⟩
    exact ⟨hmode, hx, ha.backup x hx ▸ hfile, hdir⟩
  · rintro ⟨hmode, hx, hfile, hdir⟩
    exact ⟨hmode, hx, (ha.backup x hx).trans hfile, hdir⟩

/-- The same file with the same new text in two trees that agree there: what changes in the one
changes in the other. -/
theorem AgreesAt.entry?_rewritten {w' : FileTree} {after : List UInt8} (ha : AgreesAt s t p)
    (h : t.Holds p place bytes) (hs : Rewritten s w mode p place bytes after)
    (ht : Rewritten t w' mode p place bytes after) (x : SourcePath) :
    w.entry? x = if w'.entry? x = t.entry? x then s.entry? x else w'.entry? x := by
  by_cases hx : x = place
  · subst hx
    rw [hs.file, ht.file]
    split
    next heq => rw [ha.file x h.leads, heq]
    next => rfl
  · by_cases hb : t.TakesBackup mode p x
    · rw [hs.backup x ((ha.takesBackup_iff x).mpr hb), ht.backup x hb, if_neg]
      rw [hb.2.2.entry?_eq_none]
      simp
    · rw [hs.others x hx (fun hb' => hb ((ha.takesBackup_iff x).mp hb')), ht.others x hx hb, if_pos rfl]

/-- Fixing a file in a tree that agrees with another one at it does what it does in that one. -/
theorem AgreesAt.fixFile (ha : AgreesAt s t p) (h : t.Holds p place bytes) (mode : FixMode)
    (label : String) (vs : List Violation) :
    (s.fixFile mode label p vs).1 = (t.fixFile mode label p vs).1 ∧
      ∀ x, FileTree.entry? (s.fixFile mode label p vs).2.1 x =
        if FileTree.entry? (t.fixFile mode label p vs).2.1 x = t.entry? x then s.entry? x
        else FileTree.entry? (t.fixFile mode label p vs).2.1 x := by
  have hs := ha.holds h
  have hfollow : s.follow (backupPath p) = t.follow (backupPath p) := by
    rw [h.follow_backupPath, hs.follow_backupPath]
  cases happly : applyFixes (Utf8.decode bytes) vs with
  | error r =>
    obtain ⟨log, heq⟩ := h.fixFile_of_refused mode label happly
    obtain ⟨log', heq'⟩ := hs.fixFile_of_refused mode label happly
    rw [heq, heq']
    exact ⟨rfl, fun x => by simp⟩
  | ok after =>
    by_cases hsame : after = Utf8.decode bytes ∨ mode.dryRun = true
    · rw [h.fixFile_of_same label happly hsame, hs.fixFile_of_same label happly hsame]
      exact ⟨rfl, fun x => by simp⟩
    · obtain ⟨log, heq⟩ := h.fixFile_of_changed label happly hsame
      obtain ⟨log', heq'⟩ := hs.fixFile_of_changed label happly hsame
      rw [heq, heq']
      rcases h.writeFix mode after with ⟨failure, hmode, hb, hw⟩ | ⟨w, hw, hb, hrewritten⟩
      · rcases hs.writeFix mode after with ⟨failure', -, hb', hw'⟩ | ⟨w', hw', hb', -⟩
        · obtain rfl : failure = failure' := by simpa [hb, hb'] using hfollow.symm
          rw [hw, hw']
          exact ⟨rfl, fun x => by simp⟩
        · obtain ⟨x, hx⟩ := hb' hmode
          exact absurd (hx.symm.trans (hfollow.trans hb)) (by simp)
      · rcases hs.writeFix mode after with ⟨failure', hmode, hb', hw'⟩ | ⟨w', hw', -, hrewritten'⟩
        · obtain ⟨x, hx⟩ := hb hmode
          exact absurd (hb'.symm.trans (hfollow.trans hx)) (by simp)
        · rw [hw, hw']
          exact ⟨rfl, ha.entry?_rewritten h hrewritten' hrewritten⟩

/-! ## Fixing files one after another -/

/-- Every path leads to a file, and no two of them to the same one. -/
structure HoldsEach (t : FileTree) (ps : List SourcePath) : Prop where
  holds : ∀ p ∈ ps, ∃ place bytes, t.Holds p place bytes
  apart : ∀ p ∈ ps, ∀ q ∈ ps, ∀ x, t.follow p = .ok x → t.follow q = .ok x → p = q

theorem HoldsEach.mono {ps qs : List SourcePath} (h : t.HoldsEach ps) (hsub : ∀ p ∈ qs, p ∈ ps) :
    t.HoldsEach qs :=
  ⟨fun p hp => h.holds p (hsub p hp), fun p hp q hq => h.apart p (hsub p hp) q (hsub q hq)⟩

theorem AgreesAt.refl (t : FileTree) (p : SourcePath) : AgreesAt t t p :=
  ⟨fun _ => rfl, fun _ _ => rfl, fun _ _ => rfl⟩

/-- Fixing one file leaves alone what the fixing of another one looks at. -/
theorem AgreesAt.after_fixFile {place' : SourcePath} {bytes' : List UInt8} (hp : t.Holds p place bytes)
    (hq : t.Holds q place' bytes') (hne : place ≠ place') (hap : AgreesAt s t p) (haq : AgreesAt s t q) :
    AgreesAt (s.fixFile mode label p vs).2.1 t q := by
  rcases (hap.holds hp).fixFile_tree mode label vs with htree | ⟨after, hrewritten⟩
  · rw [htree]
    exact haq
  · refine ⟨fun d => (hrewritten.directories d).trans (haq.directories d), fun x hx => ?_, fun x hx => ?_⟩
    · -- the other file stands neither at the place of this one nor where nothing stands
      obtain rfl : place' = x := by simpa [hq.leads] using hx
      rw [hrewritten.others place' (Ne.symm hne), haq.file place' hx]
      rintro ⟨-, -, hfree⟩
      exact (haq.holds hq).not_free hfree
    · rw [← haq.backup x hx]
      by_cases hplace : x = place
      · subst hplace
        rw [(hap.holds hp).isFile]
        exact isFile_iff.mpr ⟨after, hrewritten.file⟩
      · unfold FileTree.isFile
        rw [hrewritten.others x hplace]
        rintro ⟨-, hb, -⟩
        -- two files have different backups
        obtain ⟨hroot, hx'⟩ := hq.eq_backupPath hx
        obtain ⟨hroot', hx''⟩ := hp.eq_backupPath ((follow_eq_ok_iff hap.directories).mp hb)
        exact hne (eq_of_backupPath_eq hroot' hroot (hx''.symm.trans hx'))

/-- No place is changed by the fixing of two files. -/
theorem HoldsEach.eq_of_changed {ps : List SourcePath} (hps : t.HoldsEach ps) {base root x : SourcePath}
    (hp : p ∈ ps) (hq : q ∈ ps) (hxp : FileTree.entry? (t.fixAlone mode base root vs p).2.1 x ≠ t.entry? x)
    (hxq : FileTree.entry? (t.fixAlone mode base root vs q).2.1 x ≠ t.entry? x) : p = q := by
  obtain ⟨place, bytes, hholds⟩ := hps.holds p hp
  obtain ⟨place', bytes', hholds'⟩ := hps.holds q hq
  -- either place is that of a file or that of a backup, where nothing stood
  rcases changed_place hholds hxp with rfl | ⟨-, hb, hx⟩
  · rcases changed_place hholds' hxq with rfl | ⟨-, -, hx⟩
    · exact hps.apart p hp q hq _ hholds.leads hholds'.leads
    · exact absurd hx hholds.not_free
  · rcases changed_place hholds' hxq with rfl | ⟨-, hb', -⟩
    · exact absurd hx hholds'.not_free
    · obtain ⟨hroot, hplace⟩ := hholds.eq_backupPath hb
      obtain ⟨hroot', hplace'⟩ := hholds'.eq_backupPath hb'
      obtain rfl := eq_of_backupPath_eq hroot hroot' (hplace.symm.trans hplace')
      exact hps.apart p hp q hq _ hholds.leads hholds'.leads

/-- Files that no path leads to stay as they are, whatever other files are fixed. -/
theorem entry?_fixFiles_of_isFile {base root x : SourcePath} {ps : List SourcePath} (hfile : t.isFile x = true)
    (hps : ∀ p ∈ ps, t.follow p ≠ .ok x) :
    FileTree.entry? (t.fixFiles mode base root vs ps).2.1 x = t.entry? x := by
  induction ps generalizing t with
  | nil => rfl
  | cons p ps ih =>
    have hone : FileTree.entry? (t.fixFile mode (SourcePath.shown base root p) p (fixableOf vs p)).2.1 x =
        t.entry? x := entry?_fixFile_of_isFile hfile (hps p List.mem_cons_self)
    refine (ih ?_ fun q hq hleads => ?_).trans hone
    · obtain ⟨bytes, hbytes⟩ := isFile_iff.mp hfile
      exact isFile_iff.mpr ⟨bytes, hone.trans hbytes⟩
    · exact hps q (List.mem_cons_of_mem p hq) ((follow_eq_ok_iff isDirectory_fixFile).mp hleads)

theorem paths_fixFiles (mode : FixMode) (base root : SourcePath) (vs : List Violation) (t : FileTree)
    (ps : List SourcePath) : (t.fixFiles mode base root vs ps).1.map (·.path) = ps := by
  induction ps generalizing t with
  | nil => rfl
  | cons p ps ih =>
    rw [fixFiles, List.map_cons, ih]
    exact congrArg (· :: ps) path_fixFile

theorem isDirectory_fixFiles {base root : SourcePath} (ps : List SourcePath) (d : SourcePath) :
    (t.fixFiles mode base root vs ps).2.1.isDirectory d = t.isDirectory d := by
  induction ps generalizing t with
  | nil => rfl
  | cons p ps ih => exact ih.trans (isDirectory_fixFile d)

/-- The fixing of one file of a run, as a task of its own. -/
def fixTask (mode : FixMode) (base root : SourcePath) (vs : List Violation) (t : FileTree) (p : SourcePath) :
    FileFix × FileTree :=
  ((t.fixAlone mode base root vs p).1, (t.fixAlone mode base root vs p).2.1)

theorem fixFiles_eq_inTurn (mode : FixMode) (base root : SourcePath) (vs : List Violation) (s : FileTree)
    (ps : List SourcePath) :
    (s.fixFiles mode base root vs ps).1 = (inTurn (fixTask mode base root vs) s ps).1 ∧
      (s.fixFiles mode base root vs ps).2.1 = (inTurn (fixTask mode base root vs) s ps).2 := by
  induction ps generalizing s with
  | nil => exact ⟨rfl, rfl⟩
  | cons p ps ih =>
    obtain ⟨hfixes, htree⟩ := ih (s.fixAlone mode base root vs p).2.1
    exact ⟨congrArg (_ :: ·) hfixes, htree⟩

/-- Files do not get in each other's way. -/
theorem HoldsEach.tasksApart {base root : SourcePath} {ps : List SourcePath} (hps : t.HoldsEach ps) :
    TasksApart (fixTask mode base root vs) t (fun s p => AgreesAt s t p) ps := by
  refine ⟨fun p hp s hs => ?_, fun p hp s hs => ?_, fun p hp s hs d => ?_, fun p hp q hq hne s hap haq => ?_,
    fun p hp q hq x => hps.eq_of_changed hp hq⟩
  · obtain ⟨place, bytes, hholds⟩ := hps.holds p hp
    exact (hs.fixFile hholds mode _ _).1
  · obtain ⟨place, bytes, hholds⟩ := hps.holds p hp
    exact (hs.fixFile hholds mode _ _).2
  · obtain ⟨place, bytes, hholds⟩ := hps.holds p hp
    rcases (hs.holds hholds).fixFile_tree mode (SourcePath.shown base root p) (fixableOf vs p) with
      heq | ⟨after, hrewritten⟩
    · rw [fixTask, fixAlone, heq]
    · exact hrewritten.directories d
  · obtain ⟨place, bytes, hholds⟩ := hps.holds p hp
    obtain ⟨place', bytes', hholds'⟩ := hps.holds q hq
    refine AgreesAt.after_fixFile hholds hholds' ?_ hap haq
    rintro rfl
    exact hne (hps.apart p hp q hq _ hholds.leads hholds'.leads)

/-- What becomes of the files `ps`, fixed one after another from the tree `s`, told by what becomes of
each of them by itself in the tree `t`. -/
structure FixedApart (s t : FileTree) (mode : FixMode) (base root : SourcePath) (vs : List Violation)
    (ps : List SourcePath) : Prop where
  files : (s.fixFiles mode base root vs ps).1 = ps.map fun p => (t.fixAlone mode base root vs p).1
  directories : ∀ d, (s.fixFiles mode base root vs ps).2.1.isDirectory d = t.isDirectory d
  untouched : ∀ x, (∀ p ∈ ps, FileTree.entry? (t.fixAlone mode base root vs p).2.1 x = t.entry? x) →
    FileTree.entry? (s.fixFiles mode base root vs ps).2.1 x = s.entry? x
  changed : ∀ p ∈ ps, ∀ x, FileTree.entry? (t.fixAlone mode base root vs p).2.1 x ≠ t.entry? x →
    FileTree.entry? (s.fixFiles mode base root vs ps).2.1 x =
      FileTree.entry? (t.fixAlone mode base root vs p).2.1 x

/-- In whatever order files are fixed, each one becomes what it becomes by itself, and a place holds what
the fixing of one of them puts there, or what it held. -/
theorem HoldsEach.fixedApart {base root : SourcePath} {ps : List SourcePath} (hps : t.HoldsEach ps)
    (hnodup : ps.Nodup) (hs : ∀ p ∈ ps, AgreesAt s t p)
    (hdirectories : ∀ d, s.isDirectory d = t.isDirectory d) : FixedApart s t mode base root vs ps := by
  have hdone : DoneApart (fixTask mode base root vs) s t ps := hps.tasksApart.doneApart hnodup hs
  obtain ⟨hfixes, htree⟩ := fixFiles_eq_inTurn mode base root vs s ps
  refine ⟨hfixes.trans hdone.results, fun d => ?_, fun x hall => ?_, fun p hp x hchanged => ?_⟩
  · rw [htree, hdone.directories, hdirectories]
  · rw [htree]
    exact hdone.untouched x fun p hp hchanges => hchanges (hall p hp)
  · rw [htree]
    exact hdone.changed p hp x hchanged

/-- The order of the files makes no difference to what a place holds. -/
theorem HoldsEach.entry?_fixFiles_perm {base root : SourcePath} {ps qs : List SourcePath}
    (hps : t.HoldsEach ps) (hnodup : ps.Nodup) (hperm : qs.Perm ps) (x : SourcePath) :
    FileTree.entry? (t.fixFiles mode base root vs qs).2.1 x =
      FileTree.entry? (t.fixFiles mode base root vs ps).2.1 x := by
  have hmem : ∀ p, p ∈ qs ↔ p ∈ ps := fun p => hperm.mem_iff
  have hdone : DoneApart (fixTask mode base root vs) t t ps :=
    hps.tasksApart.doneApart hnodup fun p _ => AgreesAt.refl t p
  have hdone' : DoneApart (fixTask mode base root vs) t t qs :=
    (hps.mono fun p => (hmem p).mp).tasksApart.doneApart (hperm.nodup_iff.mpr hnodup) fun p _ => AgreesAt.refl t p
  rw [(fixFiles_eq_inTurn mode base root vs t ps).2, (fixFiles_eq_inTurn mode base root vs t qs).2]
  exact hdone.entry?_eq hdone' hmem x

end FileTree

end HouseStyle
