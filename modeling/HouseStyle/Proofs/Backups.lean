import HouseStyle.Proofs.FixingRun
import HouseStyle.Proofs.FormatterPass
import HouseStyle.Proofs.SelectedFiles

/-!
# Backups over many runs

Runs that fix with backups follow each other, each one over the tree that the one before it has left
(`Runs`). The fixing of a file keeps the bytes that it replaces, once: a backup that is there stays as it
is, since no run finds it (`backupPath_not_mem_found`). The formatter writes the file without a word about
backups, so what a file held before a run changed it is kept exactly if a fix has changed it by then.

- `BackupRun.entry?_of_stands`: what stands at the place of a backup stays there in a run.
- `BackupRun.entry?_backup`: what a run puts at the place of a backup where nothing stands.
- `Runs.entry?_of_stands`, `Runs.entry?_backup`: the same over many runs, by induction on them.
- `backups_kept`: the first run that changes a file, and those after it.
-/

namespace HouseStyle

namespace FileTree

variable {t : FileTree} {mode : FixMode} {base root p q x place : SourcePath} {bytes : List UInt8}
  {vs : List Violation}

/-! ## What fixing keeps -/

/-- A file that a fix changes has its former bytes in its backup. -/
theorem Holds.exists_rewritten (h : t.Holds p place bytes) (hbackup : mode.backup = true)
    (hwrite : mode.dryRun = false) {label : String}
    (hchanged : (t.fixFile mode label p vs).1.changed = true) :
    ∃ x after, t.follow (backupPath p) = .ok x ∧
      Rewritten t (t.fixFile mode label p vs).2.1 mode p place bytes after := by
  cases happly : applyFixes (Utf8.decode bytes) vs with
  | error r =>
    obtain ⟨_, heq⟩ := h.fixFile_of_refused mode label happly
    rw [heq] at hchanged
    exact absurd hchanged (by simp [FileFix.changed, FileFix.rejected])
  | ok after =>
    have hdiff : ¬ (after = Utf8.decode bytes ∨ mode.dryRun = true) := by
      intro hsame
      rw [h.fixFile_of_same label happly hsame] at hchanged
      rcases hsame with rfl | hdry
      · exact absurd hchanged (by simp [FileFix.changed, fixedTo])
      · exact absurd (hdry.symm.trans hwrite) (by simp)
    obtain ⟨_, heq⟩ := h.fixFile_of_changed label happly hdiff
    rw [heq] at hchanged ⊢
    rcases h.writeFix mode after with ⟨failure, -, -, hw⟩ | ⟨w, hw, hkept, hrewritten⟩
    · rw [hw] at hchanged
      exact absurd hchanged (by simp [FileFix.changed, FileFix.rejected])
    · obtain ⟨x, hx⟩ := hkept hbackup
      rw [hw]
      exact ⟨x, _, hx, hrewritten⟩

section Fixed

variable (hps : t.HoldsEach (fixablePaths vs))

include hps

/-- What stands at the place of a backup stays there, unless its own fixes are asked for. -/
theorem entry?_fix_of_stands {e : TreeEntry} (hx : x ∉ fixablePaths vs)
    (hplain : ∀ q ∈ fixablePaths vs, q.IsPlain) (hstands : t.entry? x = some e) :
    FileTree.entry? (t.fix mode base root vs).2.1 x = some e := by
  refine (entry?_fix_of_unchanged hps fun q hq => ⟨fun hleads => ?_, fun hkept => ?_⟩).trans hstands
  · rw [eq_of_follow (hplain q hq) hleads] at hx
    exact hx hq
  · exact absurd (hkept.2.2.entry?_eq_none.symm.trans hstands) (by simp)

/-- A fix puts the former bytes of a file at the place of its backup if it changes the file, and nothing
else puts anything there. -/
theorem entry?_fix_backup (hplain : ∀ q ∈ fixablePaths vs, q.IsPlain) (hbackup : mode.backup = true)
    (hwrite : mode.dryRun = false) (hp : p.IsPlain) (hholds : t.Holds p p bytes)
    (hfree : t.Free (backupPath p)) :
    FileTree.entry? (t.fix mode base root vs).2.1 (backupPath p) =
      if p ∈ (t.fix mode base root vs).1.changedFiles then some (.file bytes) else none := by
  have hfixed : FixedApart t t mode base root vs (fixablePaths vs) := fixedApart_fixablePaths hps
  by_cases hchanged : p ∈ (t.fix mode base root vs).1.changedFiles
  · rw [if_pos hchanged]
    have hfixable := mem_fixablePaths_of_mem_changedFiles hps hchanged
    obtain ⟨x, after, hfollow, hrewritten⟩ :=
      hholds.exists_rewritten hbackup hwrite ((mem_changedFiles_iff hps hfixable).mp hchanged)
    obtain rfl := eq_of_follow (isPlain_backupPath hp) hfollow
    have hkept : FileTree.entry? (t.fixAlone mode base root vs p).2.1 (backupPath p) = some (.file bytes) :=
      hrewritten.backup _ ⟨hbackup, hfollow, hfree⟩
    refine (hfixed.changed p hfixable _ ?_).trans hkept
    rw [hkept, hfree.entry?_eq_none]
    exact Option.some_ne_none _
  · rw [if_neg hchanged]
    refine (hfixed.untouched _ fun q hq => ?_).trans hfree.entry?_eq_none
    by_cases hqp : q = p
    · subst hqp
      rw [fixAlone_tree_of_not_mem_changedFiles hps hq hchanged]
    · -- the backup of another file has another name
      obtain ⟨place, bytes', hholds'⟩ := hps.holds q hq
      refine Classical.byContradiction fun hother => hqp ?_
      obtain rfl := eq_of_follow (hplain q hq) hholds'.leads
      rcases changed_place hholds' hother with heq | ⟨-, hfollow, -⟩
      · rw [heq] at hfree
        exact absurd hfree hholds'.not_free
      · obtain ⟨hroot', hplace⟩ := hholds'.eq_backupPath hfollow
        rw [← hplace] at hfollow
        obtain ⟨hroot, -⟩ := hholds.eq_backupPath hfollow
        exact (eq_of_backupPath_eq hroot hroot' hplace).symm

end Fixed

end FileTree

/-! ## The phases of a run -/

namespace CheckTarget

open FileTree (SameShape)

variable {target : CheckTarget} {w : World} {mode : FixMode} {base p : SourcePath} {tree : FileTree}
  {isOneOfMany : Bool} {deadline : Option Quantity} {reading : Quantity} {r : CheckResult}

theorem path_turn : (target.turn base tree isOneOfMany deadline reading p).path = p := by
  unfold turn
  split
  · rfl
  · exact path_checkFile

/-- A file whose turn came in time is checked as it is without a time limit. -/
theorem violations_turn {vs : List Violation}
    (h : (target.turn base tree isOneOfMany deadline reading p).violations = some vs) :
    vs = target.reportOn base tree isOneOfMany p := by
  unfold turn at h
  split at h
  · exact absurd h (by simp)
  · exact Option.some.inj (h.symm.trans violations_checkFile)

/-- What a run gives, with any time limit: the files that are fixed are among those that were found and can
be read, and so are the files that the formatter is asked about. -/
structure Phases (target : CheckTarget) (w : World) (mode : FixMode) (vs : List Violation)
    (checked : List SourcePath) (r : CheckResult) : Prop where
  files : target.files w = .ok r.found
  among : ∀ p ∈ checked, p ∈ r.found
  fixable : ∀ p ∈ fixablePaths vs, p ∈ r.found ∧ ∃ bytes, w.tree.read? p = .ok bytes
  fix : r.fix = (target.fixPhase w mode vs).2.1
  tree : r.tree =
    let fixed := target.fixPhase w mode vs
    (target.formatPhase w mode checked fixed.2.2.1 fixed.1).2.1

/-- A run concludes from what the turns of its files gave, and a turn reports on its file. -/
theorem exists_outcomes (h : target.check w mode = .ok r) :
    ∃ outcomes : List FileOutcome,
      target.files w = .ok (outcomes.map (·.path)) ∧ r = target.conclude w mode outcomes ∧
      ∀ o ∈ outcomes, ∀ vs, o.violations = some vs →
        vs = target.reportOn w.base w.tree (decide (1 < outcomes.length)) o.path := by
  unfold check at h
  cases hfiles : target.files w with
  | error fault =>
    rw [hfiles] at h
    exact absurd h (by simp [bind, Except.bind])
  | ok found =>
    cases hdeadline : target.deadline (w.clock 0) with
    | error fault =>
      rw [hfiles, hdeadline] at h
      exact absurd h (by simp [bind, Except.bind])
    | ok deadline =>
      rw [hfiles, hdeadline] at h
      refine ⟨found.zipIdx.map fun z => target.turn w.base w.tree
        (decide (1 < found.length)) deadline (w.clock (z.2 + 1)) z.1, ?_, (Except.ok.inj h).symm, ?_⟩
      · rw [List.map_map]
        refine congrArg Except.ok (Eq.symm ?_)
        exact (List.map_congr_left fun _ _ => path_turn).trans (List.zipIdx_map_fst 0 found)
      · intro o ho vs hvs
        obtain ⟨⟨p, k⟩, -, rfl⟩ := List.mem_map.mp ho
        rw [path_turn, List.length_map, List.length_zipIdx]
        exact violations_turn hvs

theorem isFixable_eq_false_of_mem_notes {v : Violation} {skipped total : Nat}
    (h : v ∈ target.unknownRuleNotes ++ skippedNotes skipped total) : v.isFixable = false := by
  rcases List.mem_append.mp h with h | h
  · obtain ⟨id, -, rfl⟩ := List.mem_map.mp h
    exact isFixable_engineNote
  · unfold skippedNotes at h
    split at h
    · exact absurd h List.not_mem_nil
    · rw [List.mem_singleton.mp h]
      exact isFixable_engineNote

/-- The files with fixes in a report were checked, and can be read. -/
theorem checked_of_mem_fixablePaths {outcomes : List FileOutcome} {skipped total : Nat}
    (hreports : ∀ o ∈ outcomes, ∀ vs, o.violations = some vs →
      vs = target.reportOn w.base w.tree isOneOfMany o.path)
    (hp : p ∈ fixablePaths (aggregate (outcomes.filterMap (·.violations) ++
      [target.unknownRuleNotes ++ skippedNotes skipped total]))) :
    p ∈ (outcomes.filter (·.violations.isSome)).map (·.path) ∧ ∃ bytes, w.tree.read? p = .ok bytes := by
  obtain ⟨v, hv, hfix, hpath⟩ := mem_fixablePaths.mp hp
  obtain ⟨vs, hvs, hmem⟩ := exists_mem_of_mem_aggregate hv
  rcases List.mem_append.mp hvs with hvs | hvs
  · obtain ⟨o, ho, hvs⟩ := List.mem_filterMap.mp hvs
    obtain rfl := hreports o ho vs hvs
    obtain rfl : o.path = p := Option.some.inj ((path?_of_mem_reportOn hmem).symm.trans hpath)
    obtain ⟨bytes, hbytes⟩ := exists_file_of_isFixable hmem hfix
    exact ⟨List.mem_map.mpr ⟨o, List.mem_filter.mpr ⟨ho, by rw [hvs]; rfl⟩, rfl⟩, bytes,
      read?_of_file? hbytes⟩
  · rw [List.mem_singleton.mp hvs] at hmem
    rw [isFixable_eq_false_of_mem_notes hmem] at hfix
    exact absurd hfix Bool.false_ne_true

theorem exists_phases (h : target.check w mode = .ok r) :
    ∃ vs checked, target.Phases w mode vs checked r := by
  obtain ⟨outcomes, hfiles, rfl, hreports⟩ := exists_outcomes h
  have hamong : ∀ p ∈ (outcomes.filter (·.violations.isSome)).map (·.path), p ∈ outcomes.map (·.path) := by
    intro p hp
    obtain ⟨o, ho, rfl⟩ := List.mem_map.mp hp
    exact List.mem_map.mpr ⟨o, (List.mem_filter.mp ho).1, rfl⟩
  refine ⟨_, _, hfiles, hamong, fun p hp => ?_, rfl, rfl⟩
  obtain ⟨hchecked, hread⟩ := checked_of_mem_fixablePaths hreports hp
  exact ⟨hamong p hchecked, hread⟩

/-- Only files that were checked are changed by the formatter, and only what they hold. -/
theorem sameShape_formatPhase (checked : List SourcePath) (t : FileTree) (vs : List Violation) :
    SameShape (target.formatPhase w mode checked t vs).2.1 t := by
  unfold formatPhase
  split
  · exact sameShape_formatFiles fun p hp => (List.mem_filter.mp hp).2
  · exact SameShape.refl t

theorem entry?_formatPhase {checked : List SourcePath} {t : FileTree} {vs : List Violation} {x : SourcePath}
    (hx : ∀ p ∈ checked, t.follow p ≠ .ok x) :
    FileTree.entry? (target.formatPhase w mode checked t vs).2.1 x = t.entry? x := by
  unfold formatPhase
  split
  · exact entry?_formatFiles (fun p hp => (List.mem_filter.mp hp).2)
      fun p hp => hx p (List.mem_filter.mp hp).1
  · rfl

end CheckTarget

/-! ## Runs with backups -/

open FileTree (backupPath SameShape HoldsEach)

/-- A run that fixes with backups, over files that are selected by default. -/
structure BackupRun where
  target : CheckTarget
  world : World
  result : CheckResult
  fixing : target.config.fix = true
  included : target.config.included = defaultIncluded
  gives : target.check world { backup := true } = .ok result

namespace BackupRun

variable {r : BackupRun} {p x : SourcePath} {bytes : List UInt8} {vs : List Violation}

/-- The files as the run finds them. -/
def before (r : BackupRun) : FileTree := r.world.tree

/-- The files as the run leaves them. -/
def after (r : BackupRun) : FileTree := r.result.tree

/-- The files that got another text from a fix. -/
def fixedFiles (r : BackupRun) : List SourcePath := (r.result.fix.map (·.changedFiles)).getD []

/-- A place is given to the run by name. -/
def Names (r : BackupRun) (x : SourcePath) : Prop :=
  ∃ given ∈ r.target.paths, SourcePath.resolve r.world.base given = x

/-- The fixing of what was reported. -/
def fixes (r : BackupRun) (vs : List Violation) : FixReport × FileTree × List LogRecord :=
  r.before.fix { backup := true } r.world.base r.target.root vs

/-- A run: first the fixes, and then the formatter, which changes nothing but what the files hold that were
found. -/
structure Passes (r : BackupRun) (vs : List Violation) : Prop where
  plain : ∀ p ∈ r.result.found, p.IsPlain
  apart : r.before.HoldsEach (fixablePaths vs)
  found : ∀ p ∈ fixablePaths vs, p ∈ r.result.found
  fixedFiles : r.fixedFiles = (r.fixes vs).1.changedFiles
  shape : SameShape r.after (r.fixes vs).2.1
  others : ∀ x, x ∉ r.result.found → r.after.entry? x = FileTree.entry? (r.fixes vs).2.1 x
  unformatted : r.target.config.formatter.enabled = false → r.after = (r.fixes vs).2.1

theorem exists_passes (r : BackupRun) : ∃ vs, r.Passes vs := by
  obtain ⟨vs, checked, hphases⟩ := CheckTarget.exists_phases r.gives
  have hfound : ∀ p ∈ r.result.found, p.IsPlain := FileTree.isPlain_of_discover hphases.files
  have hfix := hphases.fix
  have htree := hphases.tree
  rw [CheckTarget.fixPhase_eq r.fixing] at hfix htree
  refine ⟨vs, hfound, ?_, fun p hp => (hphases.fixable p hp).1, ?_, ?_, ?_, ?_⟩
  · exact FileTree.holdsEach_of_isPlain (fun p hp => hfound p (hphases.fixable p hp).1)
      fun p hp => (hphases.fixable p hp).2
  · show (r.result.fix.map _).getD [] = _
    rw [hfix]
    rfl
  · show SameShape r.result.tree _
    rw [htree]
    exact CheckTarget.sameShape_formatPhase _ _ _
  · intro x hx
    show r.result.tree.entry? x = _
    rw [htree]
    refine CheckTarget.entry?_formatPhase fun p hp hleads => hx ?_
    rw [FileTree.eq_of_follow (hfound p (hphases.among p hp)) hleads]
    exact hphases.among p hp
  · intro hformat
    show r.result.tree = _
    rw [htree]
    unfold CheckTarget.formatPhase
    rw [hformat]
    rfl

/-- No run finds a backup that it is not given. -/
theorem backupPath_not_mem_found (hp : p.IsPlain) (hnamed : ¬ r.Names (backupPath p)) :
    backupPath p ∉ r.result.found := by
  intro hmem
  obtain ⟨vs, checked, hphases⟩ := CheckTarget.exists_phases r.gives
  rw [FileTree.filesAt_of_discover hphases.files] at hmem
  obtain ⟨given, hgiven, hmem⟩ := FileTree.mem_filesAt.mp hmem
  rcases FileTree.mem_filesOf_cases hmem with heq | ⟨-, hselects⟩
  · exact hnamed ⟨given, hgiven, heq.symm⟩
  · have hlast : (backupPath p).name.toList.getLast? = some 'k' := by
      have hname : (backupPath p).name = p.name ++ backupEnding := by
        simp [backupPath, SourcePath.child, SourcePath.name]
      rw [hname, String.toList_append, List.getLast?_append]
      rfl
    exact absurd (mem_lastCharacters_of_selects r.included (FileTree.isPlain_backupPath hp) hlast hselects)
      (by decide)

theorem isDirectory_after (r : BackupRun) (d : SourcePath) : r.after.isDirectory d = r.before.isDirectory d := by
  obtain ⟨vs, hpasses⟩ := exists_passes r
  have hfixed : FileTree.FixedApart r.before r.before { backup := true } r.world.base r.target.root vs
      (fixablePaths vs) := FileTree.fixedApart_fixablePaths hpasses.apart
  exact (hpasses.shape.directories d).trans (hfixed.directories d)

/-- What stands at the place of a backup stays there. -/
theorem entry?_of_stands (hp : p.IsPlain) (hnamed : ¬ r.Names (backupPath p)) {e : TreeEntry}
    (hstands : r.before.entry? (backupPath p) = some e) : r.after.entry? (backupPath p) = some e := by
  obtain ⟨vs, hpasses⟩ := exists_passes r
  have hnot := backupPath_not_mem_found hp hnamed
  rw [hpasses.others _ hnot]
  exact FileTree.entry?_fix_of_stands hpasses.apart (fun hmem => hnot (hpasses.found _ hmem))
    (fun q hq => hpasses.plain q (hpasses.found q hq)) hstands

/-- Where nothing stands a run puts what a file held that a fix has changed, and otherwise nothing. -/
theorem entry?_backup (hp : p.IsPlain) (hnamed : ¬ r.Names (backupPath p))
    (hholds : r.before.Holds p p bytes) (hfree : r.before.Free (backupPath p)) :
    r.after.entry? (backupPath p) = if p ∈ r.fixedFiles then some (.file bytes) else none := by
  obtain ⟨vs, hpasses⟩ := exists_passes r
  rw [hpasses.others _ (backupPath_not_mem_found hp hnamed), hpasses.fixedFiles]
  exact FileTree.entry?_fix_backup hpasses.apart (fun q hq => hpasses.plain q (hpasses.found q hq)) rfl rfl
    hp hholds hfree

/-- A file that a fix has changed has a path for its backup. -/
theorem follow_backupPath_of_mem_fixedFiles (hp : p.IsPlain) (h : p ∈ r.fixedFiles) :
    r.before.follow (backupPath p) = .ok (backupPath p) := by
  obtain ⟨vs, hpasses⟩ := exists_passes r
  rw [hpasses.fixedFiles] at h
  have hfixable := FileTree.mem_fixablePaths_of_mem_changedFiles hpasses.apart h
  obtain ⟨place, bytes, hholds⟩ := hpasses.apart.holds p hfixable
  obtain ⟨x, -, hfollow, -⟩ := hholds.exists_rewritten rfl rfl
    ((FileTree.mem_changedFiles_iff hpasses.apart hfixable).mp h)
  rwa [FileTree.eq_of_follow (FileTree.isPlain_backupPath hp) hfollow] at hfollow

/-- Without a formatter only fixes change files. -/
theorem mem_fixedFiles_of_changed (hformat : r.target.config.formatter.enabled = false)
    (hholds : r.before.Holds p p bytes) (hchanged : r.after.read? p ≠ .ok bytes) : p ∈ r.fixedFiles := by
  obtain ⟨vs, hpasses⟩ := exists_passes r
  rw [hpasses.fixedFiles]
  refine Classical.byContradiction fun hmem => hchanged ?_
  rw [hpasses.unformatted hformat]
  refine FileTree.read?_eq_ok_iff.mpr ⟨p, (FileTree.follow_fix_eq_ok_iff hpasses.apart).mpr hholds.leads, ?_⟩
  by_cases hfixable : p ∈ fixablePaths vs
  · refine (FileTree.entry?_fix_of_leads hpasses.apart hfixable hholds.leads).trans ?_
    rw [FileTree.fixAlone_tree_of_not_mem_changedFiles hpasses.apart hfixable hmem]
    exact hholds.stands
  · exact FileTree.entry?_fix_of_stands hpasses.apart hfixable
      (fun q hq => hpasses.plain q (hpasses.found q hq)) hholds.stands

end BackupRun

/-! ## One run after another -/

/-- Runs that follow each other, from the files as the first one finds them to those that the last one
leaves. -/
inductive Runs : FileTree → List BackupRun → FileTree → Prop
  | nil (t : FileTree) : Runs t [] t
  | cons {r : BackupRun} {rs : List BackupRun} {u : FileTree} :
    Runs r.after rs u → Runs r.before (r :: rs) u

namespace Runs

variable {t u : FileTree} {r : BackupRun} {rs : List BackupRun} {p : SourcePath} {bytes : List UInt8}

theorem eq_of_nil (h : Runs t [] u) : u = t := by
  cases h
  rfl

theorem of_cons (h : Runs t (r :: rs) u) : t = r.before ∧ Runs r.after rs u := by
  cases h with
  | cons h => exact ⟨rfl, h⟩

theorem exists_between {ss : List BackupRun} (h : Runs t (rs ++ ss) u) :
    ∃ m, Runs t rs m ∧ Runs m ss u := by
  induction rs generalizing t with
  | nil => exact ⟨t, .nil t, h⟩
  | cons r rs ih =>
    obtain ⟨rfl, hrest⟩ := of_cons h
    obtain ⟨m, hrs, hss⟩ := ih hrest
    exact ⟨m, .cons hrs, hss⟩

theorem isDirectory (h : Runs t rs u) (d : SourcePath) :
    u.isDirectory d = t.isDirectory d := by
  induction h with
  | nil t => rfl
  | cons _ ih => exact ih.trans (BackupRun.isDirectory_after _ d)

section Backup

variable (hp : p.IsPlain) (hnamed : ∀ r ∈ rs, ¬ r.Names (backupPath p))

include hp hnamed

/-- What stands at the place of a backup stays there. -/
theorem entry?_of_stands (h : Runs t rs u) {e : TreeEntry} (hstands : t.entry? (backupPath p) = some e) :
    u.entry? (backupPath p) = some e := by
  induction h with
  | nil t => exact hstands
  | cons _ ih =>
    exact ih (fun r hr => hnamed r (List.mem_cons_of_mem _ hr))
      (BackupRun.entry?_of_stands hp (hnamed _ List.mem_cons_self) hstands)

/-- A backup that can be read is read the same later. -/
theorem read?_of_stands (h : Runs t rs u) {kept : List UInt8} (hkept : t.read? (backupPath p) = .ok kept) :
    u.read? (backupPath p) = .ok kept := by
  have hholds := FileTree.holds_of_read? (FileTree.isPlain_backupPath hp) hkept
  exact FileTree.read?_eq_ok_iff.mpr ⟨backupPath p,
    (FileTree.follow_eq_ok_iff h.isDirectory).mpr hholds.leads, h.entry?_of_stands hp hnamed hholds.stands⟩

/-- Runs that all find a file as it was put its bytes where nothing stood, if a fix changes the file in one
of them, and otherwise nothing. -/
theorem entry?_backup (h : Runs t rs u) (hholds : ∀ r ∈ rs, r.before.Holds p p bytes)
    (hfree : t.Free (backupPath p)) :
    u.entry? (backupPath p) = if ∃ r ∈ rs, p ∈ r.fixedFiles then some (.file bytes) else none := by
  induction h with
  | nil t =>
    rw [if_neg (by simp)]
    exact hfree.entry?_eq_none
  | @cons r rs u h ih =>
    have hone := BackupRun.entry?_backup hp (hnamed r List.mem_cons_self) (hholds r List.mem_cons_self) hfree
    have hnamed' := fun s hs => hnamed s (List.mem_cons_of_mem r hs)
    by_cases hfixed : p ∈ r.fixedFiles
    · rw [if_pos hfixed] at hone
      rw [if_pos ⟨r, List.mem_cons_self, hfixed⟩]
      exact h.entry?_of_stands hp hnamed' hone
    · rw [if_neg hfixed] at hone
      have hfree' : r.after.Free (backupPath p) := by
        refine ⟨?_, (BackupRun.isDirectory_after r _).trans hfree.2⟩
        unfold FileTree.isFile
        rw [hone]
      rw [ih hnamed' (fun s hs => hholds s (List.mem_cons_of_mem r hs)) hfree']
      simp [hfixed]

end Backup

end Runs

/-- **What backups keep.** Runs that fix with backups follow each other, with any time limits and with the
formatter on or off; none of them is given the place of the backup of a file by name. The file, which stands at
the place `p`, holds `bytes` up to one of the runs, and nothing stands at the place of its backup at first. Then after that run the backup
holds `bytes` exactly if a fix has changed the file by then. So if the run changes the file, its bytes are
kept unless only the formatter does it, which writes without keeping anything. A backup that is there stays as
it is in all later runs. -/
theorem backups_kept {t u : FileTree} {earlier later : List BackupRun} {r : BackupRun} {p : SourcePath}
    {bytes : List UInt8} (hruns : Runs t (earlier ++ r :: later) u)
    (hnamed : ∀ s ∈ earlier ++ r :: later, ¬ s.Names (backupPath p))
    (hholds : ∀ s ∈ earlier ++ [r], s.before.Holds p p bytes) :
    (t.Free (backupPath p) →
      (r.after.read? (backupPath p) = .ok bytes ↔ ∃ s ∈ earlier ++ [r], p ∈ s.fixedFiles)) ∧
    (r.target.config.formatter.enabled = false → r.after.read? p ≠ .ok bytes → p ∈ r.fixedFiles) ∧
    ∀ kept, r.after.read? (backupPath p) = .ok kept → u.read? (backupPath p) = .ok kept := by
  rw [List.append_cons] at hruns hnamed
  obtain ⟨m, huntil, hfrom⟩ := hruns.exists_between
  obtain ⟨m', hearlier, hlast⟩ := huntil.exists_between
  obtain ⟨rfl, hnone⟩ := hlast.of_cons
  obtain rfl := hnone.eq_of_nil
  have hp : p.IsPlain := (hholds r (by simp)).isPlain
  have hnamed' : ∀ s ∈ earlier ++ [r], ¬ s.Names (backupPath p) := fun s hs =>
    hnamed s (List.mem_append_left _ hs)
  refine ⟨fun hfree => ?_, fun hformat hchanged => ?_, fun kept hkept => ?_⟩
  · have hentry := huntil.entry?_backup hp hnamed' hholds hfree
    constructor
    · intro hbackup
      have hkept := FileTree.holds_of_read? (FileTree.isPlain_backupPath hp) hbackup
      refine Classical.byContradiction fun hnone => ?_
      rw [if_neg hnone] at hentry
      exact absurd (hentry.symm.trans hkept.stands) (by simp)
    · intro hfixed
      rw [if_pos hfixed] at hentry
      obtain ⟨s, hs, hmem⟩ := hfixed
      -- where the backup of a file goes is a matter of its path, so the last run finds it where it was put
      have hput := BackupRun.follow_backupPath_of_mem_fixedFiles hp hmem
      rw [(hholds s hs).follow_backupPath, ← (hholds r (by simp)).follow_backupPath] at hput
      exact FileTree.read?_eq_ok_iff.mpr ⟨backupPath p,
        (FileTree.follow_eq_ok_iff (BackupRun.isDirectory_after r)).mpr hput, hentry⟩
  · exact BackupRun.mem_fixedFiles_of_changed hformat (hholds r (by simp)) hchanged
  · exact hfrom.read?_of_stands hp
      (fun s hs => hnamed s (List.mem_append_right _ hs)) hkept

/-- A run in which a fix changes the one file of a project. -/
theorem backups_kept_castBehindName :
    ∃ r : BackupRun, r.before = (CheckTarget.onlyFile CheckTarget.castBehindName).tree ∧
      r.after.read? CheckTarget.onlyPath = .ok (Utf8.encode CheckTarget.castBehindFixedName) ∧
      r.after.read? (backupPath CheckTarget.onlyPath) = .ok (Utf8.encode CheckTarget.castBehindName) := by
  have hfiles : CheckTarget.fixOnlyFile.files _ = _ :=
    CheckTarget.files_onlyFile (CheckTarget.holds_onlyFile CheckTarget.castBehindName)
  obtain ⟨result, hcheck, hgives⟩ := CheckTarget.exists_check { backup := true } rfl hfiles
  let r : BackupRun := ⟨CheckTarget.fixOnlyFile, CheckTarget.onlyFile CheckTarget.castBehindName, result, rfl,
    rfl, hcheck⟩
  have hafter : r.after.read? CheckTarget.onlyPath = .ok (Utf8.encode CheckTarget.castBehindFixedName) := by
    have hraw : CheckTarget.fixOnlyFile.rawReport (CheckTarget.onlyFile CheckTarget.castBehindName).base
        (CheckTarget.onlyFile CheckTarget.castBehindName).tree [CheckTarget.onlyPath] = CheckTarget.beforeFix :=
      CheckTarget.rawReport_before
    show result.tree.read? CheckTarget.onlyPath = _
    rw [hgives.tree, CheckTarget.fixPhase_eq rfl, hraw]
    exact (CheckTarget.holds_fixed_of_write rfl _).read?
  have hchanged : r.after.read? CheckTarget.onlyPath ≠ .ok (Utf8.encode CheckTarget.castBehindName) := by
    have hne : Utf8.encode CheckTarget.castBehindFixedName ≠ Utf8.encode CheckTarget.castBehindName := by
      decide
    rw [hafter]
    exact fun heq => hne (Except.ok.inj heq)
  have hnamed : ¬ r.Names (backupPath CheckTarget.onlyPath) := by
    rintro ⟨given, hgiven, hsame⟩
    rw [List.mem_singleton.mp hgiven] at hsame
    exact CheckTarget.resolve_onlyPath_ne hsame
  have hruns : Runs r.before ([] ++ r :: []) r.after := .cons (.nil _)
  obtain ⟨hbackup, hfixed, -⟩ := backups_kept hruns
    (fun s hs => by rwa [List.mem_singleton.mp hs])
    (fun s hs => by rw [List.mem_singleton.mp hs]; exact CheckTarget.holds_onlyFile _)
  have hfree : r.before.Free (backupPath CheckTarget.onlyPath) :=
    CheckTarget.free_onlyFile CheckTarget.castBehindName
  exact ⟨r, rfl, hafter, (hbackup hfree).mpr ⟨r, List.mem_singleton_self r, hfixed rfl hchanged⟩⟩

/-! ## A change that nothing is kept of -/

namespace CheckTarget

/-- A declaration with a blank that the formatter takes away. -/
def spaced : Text := Text.ofString "int a ;\n"

/-- The declaration without it. -/
def tidy : Text := Text.ofString "int a;\n"

/-- The target that asks for fixing the one file and for the formatter. -/
def formatOnlyFile : CheckTarget :=
  { root := ⟨1, []⟩, paths := [onlyPath], config := { fix := true, formatter := { enabled := true } } }

/-- A project of that file, with a formatter. -/
def spacedFile : World := { onlyFile spaced with spawn := fun _ _ => .ended 0 tidy [] }

theorem holds_spacedFile : spacedFile.tree.Holds onlyPath onlyPath (Utf8.encode spaced) := holds_onlyFile spaced

theorem files_spacedFile : formatOnlyFile.files spacedFile = .ok [onlyPath] :=
  files_single rfl (by simp [onlyPath, SourcePath.isPossible]) holds_spacedFile

theorem reportedOn_spaced : ReportedOn formatOnlyFile.config onlyPath spaced [] := by
  rw [spaced, Text.ofString_ofList]
  decide +kernel

theorem rawReport_spacedFile : formatOnlyFile.rawReport spacedFile.base spacedFile.tree [onlyPath] = [] :=
  reportedOn_spaced.rawReport holds_spacedFile rfl

/-- There is nothing to be fixed, and the formatter writes what it gives. -/
theorem tree_of_gives_spacedFile {result : CheckResult}
    (h : formatOnlyFile.Gives spacedFile { backup := true } [onlyPath] result) :
    result.tree = spacedFile.tree.set onlyPath (.file (Utf8.encode tidy)) holds_spacedFile.isPlain := by
  have hfixed : (spacedFile.tree.fix { backup := true } spacedFile.base formatOnlyFile.root []).2.1 =
      spacedFile.tree := by
    simp [FileTree.fix, fixablePaths, fixableViolations, FileTree.fixFiles]
  have hasked : [onlyPath].filter (fun p => (spacedFile.tree.file? p).isSome) = [onlyPath] := by
    rw [List.filter_cons_of_pos (by rw [holds_spacedFile.file?]; rfl), List.filter_nil]
  rw [h.tree, fixPhase_eq rfl, rawReport_spacedFile]
  dsimp only
  rw [hfixed]
  show (formatOnlyFile.formatFiles spacedFile true spacedFile.tree
    ([onlyPath].filter fun p => (spacedFile.tree.file? p).isSome)).2.1 = _
  rw [hasked]
  show (formatOnlyFile.formatFile spacedFile true spacedFile.tree onlyPath).2.1 = _
  exact formatFile_tree_of_ne holds_spacedFile rfl (by rw [reportedOn_spaced.decode]; decide)

/-- The formatter writes a file without a backup: there is nothing to be fixed in it, so no fix has kept what
it held. -/
theorem exists_change_without_backup :
    ∃ (r : BackupRun) (p : SourcePath) (bytes : List UInt8), ¬ r.Names (backupPath p) ∧
      r.before.Free (backupPath p) ∧ r.before.Holds p p bytes ∧ r.after.read? p ≠ .ok bytes ∧ ∀ kept, r.after.read? (backupPath p) ≠ .ok kept := by
  obtain ⟨result, hcheck, hgives⟩ := exists_check { backup := true } rfl files_spacedFile
  let r : BackupRun := ⟨formatOnlyFile, spacedFile, result, rfl, rfl, hcheck⟩
  have hafter : r.after = spacedFile.tree.set onlyPath (.file (Utf8.encode tidy)) holds_spacedFile.isPlain :=
    tree_of_gives_spacedFile hgives
  have hshape : SameShape r.after spacedFile.tree := by
    rw [hafter]
    exact holds_spacedFile.sameShape_set _
  have hread : r.after.Holds onlyPath onlyPath (Utf8.encode tidy) := by
    refine ⟨(hshape.follow onlyPath).trans holds_spacedFile.leads, ?_⟩
    rw [hafter, FileTree.entry?_set, if_pos rfl]
  have hne : Utf8.encode tidy ≠ Utf8.encode spaced := by decide
  refine ⟨r, onlyPath, Utf8.encode spaced, ?_, free_onlyFile spaced, holds_spacedFile, ?_, fun kept hkept => ?_⟩
  · rintro ⟨given, hgiven, hsame⟩
    rw [List.mem_singleton.mp hgiven] at hsame
    exact resolve_onlyPath_ne hsame
  · rw [hread.read?]
    exact fun heq => hne (Except.ok.inj heq)
  · have hbackup := FileTree.holds_of_read? (FileTree.isPlain_backupPath holds_spacedFile.isPlain) hkept
    have hstands := hbackup.isFile
    rw [hshape.files] at hstands
    exact absurd (hstands.symm.trans (free_onlyFile spaced).1) (by simp)

end CheckTarget

end HouseStyle
