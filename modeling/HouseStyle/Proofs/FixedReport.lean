import HouseStyle.Proofs.FixedFiles
import HouseStyle.Proofs.InOrder
import Mathlib.Data.List.Pairwise

/-!
# What fixing leaves of a report

The fixable violations of a file are applied together or not at all. If they are applied they leave the
report (`FileTree.AllApplied`), and otherwise they all stay and a note says why (`FileTree.NoneApplied`).

- `mem_violations_fix_iff`: a violation stays in the report exactly if it was not applied.
- `allApplied_or_noneApplied`: what becomes of one file of a run.
- `fix_all_or_nothing`: a whole run over any report, with the files in any order.
-/

namespace HouseStyle

/-! ## The files with fixable violations -/

theorem nodup_fixablePaths (vs : List Violation) : (fixablePaths vs).Nodup :=
  (List.mergeSort_perm _ _).nodup_iff.mpr (SourcePath.nodup_eraseDups _)

theorem mem_fixablePaths {vs : List Violation} {p : SourcePath} :
    p ∈ fixablePaths vs ↔ ∃ v ∈ vs, v.isFixable = true ∧ v.path? = some p := by
  unfold fixablePaths fixableViolations
  rw [List.mem_mergeSort, List.mem_eraseDups, List.mem_filterMap]
  simp only [List.mem_filter, and_assoc]

theorem fixableViolations_fixableOf (vs : List Violation) (p : SourcePath) :
    fixableViolations (fixableOf vs p) = fixableOf vs p := by
  unfold fixableOf fixableViolations
  simp only [List.filter_filter]
  refine List.filter_congr fun v _ => ?_
  cases v.isFixable <;> simp

/-- Notes are never fixed themselves. -/
theorem isFixable_rejectionNote (p : SourcePath) (reason : String) :
    (rejectionNote p reason).isFixable = false := by
  simp [Violation.isFixable, rejectionNote]

/-! ## The notes -/

/-- The notes on files whose edits were not applied. -/
def FixReport.notes (r : FixReport) : List Violation := r.files.filterMap (·.rejection)

/-- Of the notes of different files, those on one file. -/
theorem filter_notes {note : SourcePath → Option Violation} {ps : List SourcePath} {p : SourcePath}
    (hnote : ∀ q ∈ ps, ∀ n, note q = some n → n.path? = some q) (hnodup : ps.Nodup) (hp : p ∈ ps) :
    (ps.filterMap note).filter (·.path? == some p) = (note p).toList := by
  have hother : ∀ qs : List SourcePath, p ∉ qs → (∀ q ∈ qs, q ∈ ps) →
      (qs.filterMap note).filter (·.path? == some p) = [] := by
    intro qs hqs hsub
    rw [List.filter_eq_nil_iff]
    intro n hn
    obtain ⟨q, hq, hn⟩ := List.mem_filterMap.mp hn
    rw [hnote q (hsub q hq) n hn]
    simp only [beq_iff_eq, Option.some.injEq]
    rintro rfl
    exact hqs hq
  obtain ⟨front, back, rfl⟩ := List.append_of_mem hp
  obtain ⟨-, hback, hapart⟩ := List.nodup_append.mp hnodup
  have hfront : p ∉ front := fun h => hapart p h p List.mem_cons_self rfl
  rw [List.filterMap_append, List.filter_append, hother front hfront (by simp_all), List.nil_append,
    List.filterMap_cons]
  have hrest := hother back (List.nodup_cons.mp hback).1 fun q hq => by simp [hq]
  cases hn : note p with
  | none => exact hrest
  | some n => simp [hrest, hnote p hp n hn]

namespace FileTree

variable {t : FileTree} {mode : FixMode} {base root p place : SourcePath} {bytes : List UInt8}
  {vs : List Violation}

/-! ## A run -/

/-- Why the fixes of a file are not applied: its edits are refused, or the former bytes cannot be kept. -/
def Refuses (t : FileTree) (mode : FixMode) (vs : List Violation) (p : SourcePath) (reason : String) :
    Prop :=
  ∃ bytes, t.read? p = .ok bytes ∧
    ((∃ r, applyFixes (Utf8.decode bytes) (fixableOf vs p) = .error r ∧ reason = r.message) ∨
      ∃ failure, mode.backup = true ∧ t.follow (backupPath p) = .error failure ∧
        reason = "could not write fixed file: " ++ failure.message (backupPath p).toString)

/-- All fixes of a file are applied: it holds the text that its planned edits give, exactly its fixable
violations leave the report, and there is no note on it. -/
structure AllApplied (t after : FileTree) (vs : List Violation) (report : FixReport) (p : SourcePath) :
    Prop where
  content : ∃ bytes edits, t.read? p = .ok bytes ∧
    planEdits (Utf8.decode bytes).length ((fixableOf vs p).flatMap (·.edits)) = .ok edits ∧
    entityKinds (applyEdits (Utf8.decode bytes) edits) = entityKinds (Utf8.decode bytes) ∧
    after.read? p = .ok (Utf8.encode (applyEdits (Utf8.decode bytes) edits))
  leave : ∀ v ∈ vs, v.path? = some p → (v ∈ report.violations ↔ v.isFixable = false)
  unnoted : report.notes.filter (·.path? == some p) = []

/-- No fix of a file is applied: it holds what it held, all its violations stay, and one note is added
that says why. -/
structure NoneApplied (t after : FileTree) (mode : FixMode) (vs : List Violation) (report : FixReport)
    (p : SourcePath) : Prop where
  content : after.read? p = t.read? p
  stay : ∀ v ∈ vs, v.path? = some p → v ∈ report.violations
  noted : ∃ reason, t.Refuses mode vs p reason ∧
    report.notes.filter (·.path? == some p) = [rejectionNote p reason] ∧
    report.violations.countP (·.identity == (rejectionNote p reason).identity) = 1 ∧
    ((∀ v ∈ vs ++ report.notes, v.identity = (rejectionNote p reason).identity →
      v = rejectionNote p reason) → rejectionNote p reason ∈ report.violations)

section Run

variable (hps : t.HoldsEach (fixablePaths vs))

include hps

theorem fixedApart_fixablePaths : FixedApart t t mode base root vs (fixablePaths vs) :=
  hps.fixedApart (nodup_fixablePaths vs) (fun p _ => AgreesAt.refl t p) fun _ => rfl

theorem files_fix : (t.fix mode base root vs).1.files =
    (fixablePaths vs).map fun p => (t.fixAlone mode base root vs p).1 :=
  (fixedApart_fixablePaths hps).files

/-- The notes of a run are those that fixing each file alone gives. -/
theorem notes_fix : (t.fix mode base root vs).1.notes =
    (fixablePaths vs).filterMap fun p => (t.fixAlone mode base root vs p).1.rejection := by
  unfold FixReport.notes
  rw [files_fix hps, List.filterMap_map]
  rfl

omit hps in
theorem path_fixAlone : (t.fixAlone mode base root vs p).1.path = p := path_fixFile

omit hps in
/-- A file is left as it is for a reason, or not at all. -/
theorem rejection_fixAlone (h : t.Holds p place bytes) {note : Violation}
    (hnote : (t.fixAlone mode base root vs p).1.rejection = some note) :
    ∃ reason, note = rejectionNote p reason := by
  unfold fixAlone at hnote
  rcases h.fixFile_cases mode (SourcePath.shown base root p) (fixableOf vs p) with
    ⟨r, -, hfix, -⟩ | ⟨failure, -, -, hfix, -⟩ | ⟨after, -, hfix, -⟩
  · rw [hfix] at hnote
    exact ⟨_, (Option.some.inj hnote).symm⟩
  · rw [hfix] at hnote
    exact ⟨_, (Option.some.inj hnote).symm⟩
  · rw [hfix] at hnote
    exact absurd hnote (by simp [fixedTo])

/-- The notes on one file of a run. -/
theorem filter_notes_fix (hp : p ∈ fixablePaths vs) :
    (t.fix mode base root vs).1.notes.filter (·.path? == some p) =
      (t.fixAlone mode base root vs p).1.rejection.toList := by
  rw [notes_fix hps]
  refine filter_notes (fun q hq n hn => ?_) (nodup_fixablePaths vs) hp
  obtain ⟨place, bytes, hholds⟩ := hps.holds q hq
  obtain ⟨reason, rfl⟩ := rejection_fixAlone hholds hn
  rfl

theorem wasApplied_iff {v : Violation} (hv : v ∈ vs) (hpath : v.path? = some p) :
    wasApplied (t.fix mode base root vs).1.files v = true ↔
      v.isFixable = true ∧ (t.fixAlone mode base root vs p).1.rejection = none := by
  unfold wasApplied
  rw [files_fix hps, Bool.and_eq_true, List.any_map, List.any_eq_true, hpath]
  refine and_congr_right fun hfixable => ⟨?_, fun hnone => ?_⟩
  · rintro ⟨q, hq, heq⟩
    obtain ⟨place, bytes, hholds⟩ := hps.holds q hq
    simp only [Function.comp_apply, path_fixAlone, Bool.and_eq_true, beq_iff_eq,
      Option.some.injEq, Option.isNone_iff_eq_none] at heq
    obtain ⟨rfl, hnone⟩ := heq
    exact hnone
  · have hp := mem_fixablePaths.mpr ⟨v, hv, hfixable, hpath⟩
    obtain ⟨place, bytes, hholds⟩ := hps.holds p hp
    refine ⟨p, hp, ?_⟩
    simp [path_fixAlone, hnone]

/-- A place that is not changed by the fixing of any of the files alone. -/
theorem entry?_fix_of_unchanged {x : SourcePath}
    (h : ∀ p ∈ fixablePaths vs, t.follow p ≠ .ok x ∧ ¬ t.TakesBackup mode p x) :
    FileTree.entry? (t.fix mode base root vs).2.1 x = t.entry? x := by
  refine (fixedApart_fixablePaths hps).untouched x fun p hp => ?_
  obtain ⟨place, bytes, hholds⟩ := hps.holds p hp
  refine Classical.byContradiction fun hchanged => ?_
  rcases changed_place hholds hchanged with rfl | hbackup
  · exact (h p hp).1 hholds.leads
  · exact (h p hp).2 hbackup

/-- A file that leads where no other path leads holds what fixing it alone makes of it. -/
theorem entry?_fix_of_leads {x : SourcePath} (hp : p ∈ fixablePaths vs) (hleads : t.follow p = .ok x) :
    FileTree.entry? (t.fix mode base root vs).2.1 x = FileTree.entry? (t.fixAlone mode base root vs p).2.1 x := by
  by_cases hchanged : FileTree.entry? (t.fixAlone mode base root vs p).2.1 x = t.entry? x
  · rw [hchanged]
    refine (fixedApart_fixablePaths hps).untouched x fun q hq => ?_
    obtain ⟨place, bytes, hholds⟩ := hps.holds p hp
    obtain ⟨place', bytes', hholds'⟩ := hps.holds q hq
    obtain rfl : place = x := by simpa [hholds.leads] using hleads
    refine Classical.byContradiction fun hother => ?_
    rcases changed_place hholds' hother with rfl | ⟨-, -, hfree⟩
    · obtain rfl := hps.apart p hp q hq _ hleads hholds'.leads
      exact hother hchanged
    · exact hholds.not_free hfree
  · exact (fixedApart_fixablePaths hps).changed p hp x hchanged

theorem mem_files_fix (hp : p ∈ fixablePaths vs) :
    (t.fixAlone mode base root vs p).1 ∈ (t.fix mode base root vs).1.files := by
  rw [files_fix hps]
  exact List.mem_map.mpr ⟨p, hp, rfl⟩

theorem paths_fix : (t.fix mode base root vs).1.files.map (·.path) = fixablePaths vs := by
  rw [files_fix hps, List.map_map]
  refine (List.map_congr_left fun p hp => ?_).trans (List.map_id _)
  obtain ⟨place, bytes, hholds⟩ := hps.holds p hp
  exact path_fixAlone

theorem mem_fixablePaths_of_mem_changedFiles (h : p ∈ (t.fix mode base root vs).1.changedFiles) :
    p ∈ fixablePaths vs := by
  obtain ⟨f, hf, rfl⟩ := List.mem_map.mp h
  rw [← paths_fix hps]
  exact List.mem_map.mpr ⟨f, (List.mem_filter.mp hf).1, rfl⟩

theorem mem_changedFiles_iff (hp : p ∈ fixablePaths vs) :
    p ∈ (t.fix mode base root vs).1.changedFiles ↔ (t.fixAlone mode base root vs p).1.changed = true := by
  constructor
  · intro h
    obtain ⟨f, hf, hpath⟩ := List.mem_map.mp h
    obtain ⟨hf, hchanged⟩ := List.mem_filter.mp hf
    rw [files_fix hps] at hf
    obtain ⟨q, hq, rfl⟩ := List.mem_map.mp hf
    obtain ⟨place, bytes, hholds⟩ := hps.holds q hq
    rw [path_fixAlone] at hpath
    exact hpath ▸ hchanged
  · intro hchanged
    obtain ⟨place, bytes, hholds⟩ := hps.holds p hp
    exact List.mem_map.mpr ⟨_, List.mem_filter.mpr ⟨mem_files_fix hps hp, hchanged⟩, path_fixAlone⟩

/-- A file whose fixes were accepted has got another text, or what they gave is the text it had. -/
theorem eq_of_not_mem_changedFiles {after : Text} (hp : p ∈ fixablePaths vs)
    (hfixed : (t.fixAlone mode base root vs p).1 = fixedTo (SourcePath.shown base root p) p bytes after)
    (h : p ∉ (t.fix mode base root vs).1.changedFiles) : after = Utf8.decode bytes := by
  refine Decidable.byContradiction fun hne => h ?_
  rw [mem_changedFiles_iff hps hp, hfixed]
  simpa [FileFix.changed, fixedTo] using Ne.symm hne

/-- The fixing of a file that gets no other text leaves the tree as it is. -/
theorem fixAlone_tree_of_not_mem_changedFiles (hp : p ∈ fixablePaths vs)
    (h : p ∉ (t.fix mode base root vs).1.changedFiles) : (t.fixAlone mode base root vs p).2.1 = t := by
  obtain ⟨place, bytes, hholds⟩ := hps.holds p hp
  rcases hholds.fixFile_cases mode (SourcePath.shown base root p) (fixableOf vs p) with
    ⟨r, -, -, htree⟩ | ⟨failure, -, -, -, htree⟩ | ⟨after, -, hfixed, htree⟩
  · rw [fixAlone, htree]
  · rw [fixAlone, htree]
  · rw [if_pos (Or.inl (eq_of_not_mem_changedFiles hps hp hfixed h))] at htree
    rw [fixAlone, htree]

/-- What a path leads to does not change in a run. -/
theorem follow_fix_eq_ok_iff {q x : SourcePath} :
    (t.fix mode base root vs).2.1.follow q = .ok x ↔ t.follow q = .ok x :=
  have hfixed : FixedApart t t mode base root vs (fixablePaths vs) := fixedApart_fixablePaths hps
  follow_eq_ok_iff hfixed.directories

/-! ## The report -/

theorem isFixable_of_mem_notes {note : Violation} (h : note ∈ (t.fix mode base root vs).1.notes) :
    note.isFixable = false := by
  rw [notes_fix hps] at h
  obtain ⟨p, hp, hnote⟩ := List.mem_filterMap.mp h
  obtain ⟨place, bytes, hholds⟩ := hps.holds p hp
  obtain ⟨reason, rfl⟩ := rejection_fixAlone hholds hnote
  exact isFixable_rejectionNote _ _

end Run

variable {results : List (List Violation)}

/-- The report is put together from what was not applied and the notes. -/
theorem violations_fix (hwrite : mode.dryRun = false) :
    (t.fix mode base root vs).1.violations =
      aggregate [vs.filter (!wasApplied (t.fix mode base root vs).1.files ·),
        (t.fix mode base root vs).1.notes] := by
  unfold fix
  simp only [hwrite]
  rfl

/-- A violation of a report stays in it exactly if it was not applied. -/
theorem mem_violations_fix_iff (hone : OnePerIdentity vs) (hps : t.HoldsEach (fixablePaths vs))
    (hwrite : mode.dryRun = false) {v : Violation} (hv : v ∈ vs) :
    v ∈ (t.fix mode base root vs).1.violations ↔
      wasApplied (t.fix mode base root vs).1.files v = false := by
  rw [violations_fix hwrite]
  constructor
  · intro h
    obtain ⟨ws, hws, hmem⟩ := exists_mem_of_mem_aggregate h
    simp only [List.mem_cons, List.not_mem_nil, or_false] at hws
    rcases hws with rfl | rfl
    · simpa using (List.mem_filter.mp hmem).2
    · unfold wasApplied
      rw [isFixable_of_mem_notes hps hmem]
      rfl
  · intro h
    exact mem_aggregate_of_mem_front (hone.sublist List.filter_sublist)
      (List.mem_filter.mpr ⟨hv, by simp [h]⟩)

/-- A file whose fixes were refused. -/
theorem noneApplied_of_rejection (hone : OnePerIdentity vs) (hps : t.HoldsEach (fixablePaths vs))
    (hwrite : mode.dryRun = false) (hp : p ∈ fixablePaths vs) {reason : String}
    (hreason : t.Refuses mode vs p reason)
    (hrejection : (t.fixAlone mode base root vs p).1.rejection = some (rejectionNote p reason))
    (htree : (t.fixAlone mode base root vs p).2.1 = t) :
    NoneApplied t (t.fix mode base root vs).2.1 mode vs (t.fix mode base root vs).1 p := by
  obtain ⟨place, bytes, hholds⟩ := hps.holds p hp
  have hnotes : (t.fix mode base root vs).1.notes.filter (·.path? == some p) = _ :=
    filter_notes_fix hps hp
  rw [hrejection, Option.toList_some] at hnotes
  have hnote : rejectionNote p reason ∈ (t.fix mode base root vs).1.notes :=
    (List.mem_filter.mp (hnotes ▸ List.mem_singleton_self _)).1
  refine ⟨?_, fun v hv hpath => ?_, reason, hreason, hnotes, ?_, fun hnew => ?_⟩
  · rw [hholds.read?]
    refine read?_eq_ok_iff.mpr ⟨place, (follow_fix_eq_ok_iff hps).mpr hholds.leads, ?_⟩
    rw [entry?_fix_of_leads hps hp hholds.leads, htree]
    exact hholds.stands
  · rw [mem_violations_fix_iff hone hps hwrite hv, Bool.eq_false_iff, Ne, wasApplied_iff hps hv hpath,
      hrejection]
    simp
  · rw [violations_fix hwrite]
    exact count_aggregate (by simp [hnote])
  · rw [violations_fix hwrite]
    refine mem_aggregate_of_identity_new (by simp [hnote]) fun w hw hid => hnew w ?_ hid
    simp only [List.flatten_cons, List.flatten_nil, List.append_nil, List.mem_append,
      List.mem_filter] at hw
    exact List.mem_append.mpr (hw.imp_left And.left)

/-- A file whose fixes were accepted. -/
theorem allApplied_of_applyFixes (hone : OnePerIdentity vs) (hps : t.HoldsEach (fixablePaths vs))
    (hwrite : mode.dryRun = false) (hp : p ∈ fixablePaths vs) (hholds : t.Holds p place bytes)
    {after : Text} (happly : applyFixes (Utf8.decode bytes) (fixableOf vs p) = .ok after)
    (hrejection : (t.fixAlone mode base root vs p).1.rejection = none)
    (htree : if after = Utf8.decode bytes ∨ mode.dryRun = true then (t.fixAlone mode base root vs p).2.1 = t
      else Rewritten t (t.fixAlone mode base root vs p).2.1 mode p place bytes (Utf8.encode after)) :
    AllApplied t (t.fix mode base root vs).2.1 vs (t.fix mode base root vs).1 p := by
  have hnotes : (t.fix mode base root vs).1.notes.filter (·.path? == some p) = _ :=
    filter_notes_fix hps hp
  rw [hrejection, Option.toList_none] at hnotes
  obtain ⟨edits, hplan, rfl, hkinds⟩ := applyFixes_eq_ok_iff.mp happly
  rw [fixableViolations_fixableOf] at hplan
  refine ⟨⟨bytes, edits, hholds.read?, hplan, hkinds, ?_⟩, fun v hv hpath => ?_, hnotes⟩
  · refine read?_eq_ok_iff.mpr ⟨place, (follow_fix_eq_ok_iff hps).mpr hholds.leads, ?_⟩
    rw [entry?_fix_of_leads hps hp hholds.leads]
    split at htree
    next hsame =>
      -- a text that is as it was is not written, and its bytes are those of the file
      rw [htree, hholds.stands]
      rcases hsame with hsame | hdry
      · rw [hsame, Utf8.encode_decode]
      · rw [hwrite] at hdry
        exact absurd hdry (by simp)
    next => exact htree.file
  · rw [mem_violations_fix_iff hone hps hwrite hv, Bool.eq_false_iff, Ne, wasApplied_iff hps hv hpath]
    simp [hrejection]

/-- Of every file with fixable violations all fixes are applied or none. -/
theorem allApplied_or_noneApplied (hone : OnePerIdentity vs) (hps : t.HoldsEach (fixablePaths vs))
    (hwrite : mode.dryRun = false) (hp : p ∈ fixablePaths vs) :
    AllApplied t (t.fix mode base root vs).2.1 vs (t.fix mode base root vs).1 p ∨
      NoneApplied t (t.fix mode base root vs).2.1 mode vs (t.fix mode base root vs).1 p := by
  obtain ⟨place, bytes, hholds⟩ := hps.holds p hp
  rcases hholds.fixFile_cases mode (SourcePath.shown base root p) (fixableOf vs p) with
    ⟨r, happly, hfix, htree⟩ | ⟨failure, hmode, hb, hfix, htree⟩ | ⟨after, happly, hfix, htree⟩
  · refine Or.inr (noneApplied_of_rejection hone hps hwrite hp
      ⟨bytes, hholds.read?, Or.inl ⟨r, happly, rfl⟩⟩ ?_ htree)
    rw [fixAlone, hfix]
    rfl
  · refine Or.inr (noneApplied_of_rejection hone hps hwrite hp
      ⟨bytes, hholds.read?, Or.inr ⟨failure, hmode, hb, rfl⟩⟩ ?_ htree)
    rw [fixAlone, hfix]
    rfl
  · refine Or.inl (allApplied_of_applyFixes hone hps hwrite hp hholds happly ?_ htree)
    rw [fixAlone, hfix]
    rfl

/-- Where nothing stood there is at most the backup of a file that was fixed. -/
theorem entry?_fix_of_none (hps : t.HoldsEach (fixablePaths vs)) {x : SourcePath}
    (hx : t.entry? x = none) (hnew : FileTree.entry? (t.fix mode base root vs).2.1 x ≠ none) :
    mode.backup = true ∧ ∃ p ∈ fixablePaths vs, t.follow (backupPath p) = .ok x ∧
      ∃ bytes, t.read? p = .ok bytes ∧ FileTree.entry? (t.fix mode base root vs).2.1 x = some (.file bytes) := by
  by_cases hsome : ∃ p ∈ fixablePaths vs, FileTree.entry? (t.fixAlone mode base root vs p).2.1 x ≠ t.entry? x
  · obtain ⟨p, hp, hchanged⟩ := hsome
    obtain ⟨place, bytes, hholds⟩ := hps.holds p hp
    rcases changed_place hholds hchanged with rfl | hbackup
    · exact absurd (hholds.stands.symm.trans hx) (by simp)
    · refine ⟨hbackup.1, p, hp, hbackup.2.1, bytes, hholds.read?, ?_⟩
      refine ((fixedApart_fixablePaths hps).changed p hp x hchanged).trans ?_
      rcases hholds.fixFile_tree mode (SourcePath.shown base root p) (fixableOf vs p) with
        htree | ⟨after, hrewritten⟩
      · exact absurd (by rw [fixAlone, htree]) hchanged
      · exact hrewritten.backup x hbackup
  · refine absurd ?_ hnew
    rw [← hx]
    exact (fixedApart_fixablePaths hps).untouched x fun p hp =>
      Decidable.byContradiction fun h => hsome ⟨p, hp, h⟩

/-- **Fixing is all or nothing for each file, and loses no diagnostic.** In a run that writes, over any
report whose fixable violations are those of files: of each such file all fixes are applied or none is;
violations that are not fixable stay, and the report is put together from what was not applied and the
notes; every other file keeps its bytes, and nothing new stands anywhere but the former bytes of a fixed
file in its backup. In whatever order the files get their turns, each becomes the same and so does the
tree. -/
theorem fix_all_or_nothing (t : FileTree) (mode : FixMode) (base root : SourcePath)
    (results : List (List Violation)) (hwrite : mode.dryRun = false)
    (hfiles : t.HoldsEach (fixablePaths (aggregate results))) :
    let vs := aggregate results
    let report := (t.fix mode base root vs).1
    let after := (t.fix mode base root vs).2.1
    (∀ p ∈ fixablePaths vs, AllApplied t after vs report p ∨ NoneApplied t after mode vs report p) ∧
      (∀ v ∈ vs, v.isFixable = false → v ∈ report.violations) ∧
      report.violations = aggregate [vs.filter (!wasApplied report.files ·), report.notes] ∧
      (∀ q bytes, t.read? q = .ok bytes → (∀ p ∈ fixablePaths vs, t.follow p ≠ t.follow q) →
        after.read? q = .ok bytes) ∧
      (∀ x, t.entry? x = none → after.entry? x ≠ none → mode.backup = true ∧
        ∃ p ∈ fixablePaths vs, t.follow (backupPath p) = .ok x ∧
          ∃ bytes, t.read? p = .ok bytes ∧ after.entry? x = some (.file bytes)) ∧
      ∀ order : List SourcePath, order.Perm (fixablePaths vs) →
        ((t.fixFiles mode base root vs order).1.Perm report.files ∧
          ∀ x, FileTree.entry? (t.fixFiles mode base root vs order).2.1 x = after.entry? x) := by
  intro vs report after
  have hone : OnePerIdentity vs := aggregate_onePerIdentity results
  refine ⟨fun p hp => allApplied_or_noneApplied hone hfiles hwrite hp, fun v hv hfixable => ?_,
    violations_fix hwrite, fun q bytes hread hother => ?_, fun x => entry?_fix_of_none hfiles,
    fun order horder => ⟨?_, fun x => ?_⟩⟩
  · refine (mem_violations_fix_iff hone hfiles hwrite hv).mpr ?_
    unfold wasApplied
    rw [hfixable]
    rfl
  · -- a file that is not fixed keeps its place and its bytes
    obtain ⟨place, hholds⟩ := read?_eq_ok_iff.mp hread
    refine read?_eq_ok_iff.mpr ⟨place, (follow_fix_eq_ok_iff hfiles).mpr hholds.leads, ?_⟩
    rw [← hholds.stands]
    refine entry?_fix_of_unchanged hfiles fun p hp => ⟨fun hleads => ?_, fun hbackup => ?_⟩
    · exact hother p hp (hleads.trans hholds.leads.symm)
    · exact hholds.not_free hbackup.2.2
  · -- in another order the same files are fixed, each from its own bytes
    have hmem : ∀ p ∈ order, p ∈ fixablePaths vs := fun p => horder.mem_iff.mp
    have hfixed : FixedApart t t mode base root vs order :=
      (hfiles.mono hmem).fixedApart (horder.nodup_iff.mpr (nodup_fixablePaths vs))
        (fun p _ => AgreesAt.refl t p) fun _ => rfl
    rw [hfixed.files, show report.files = _ from files_fix hfiles]
    exact horder.map _
  · exact hfiles.entry?_fixFiles_perm (nodup_fixablePaths vs) horder x

/-- Two files; the edits for the one are apart, those for the other get in each other's way. -/
def twoFiles : FileTree where
  entries := [(⟨1, ["a.cpp"]⟩, .file [105, 110, 116, 32, 65, 59]),
    (⟨1, ["b.cpp"]⟩, .file [105, 110, 116, 32, 66, 59])]

/-- A violation in a file that some edits fix. -/
def misnamedIn (file : String) (edits : List Edit) : Violation :=
  { ruleId := "naming-casing", severity := .warning, message := "name", category := .naming, edits
    autofix := true, location := some { path := some ⟨1, [file]⟩, startLine := some 1 } }

/-- A report on two files with violations that can be fixed. -/
def twoFilesReport : List (List Violation) :=
  [[misnamedIn "a.cpp" [⟨4, 5, Text.ofString "a"⟩]],
    [misnamedIn "b.cpp" [⟨4, 5, Text.ofString "b"⟩, ⟨4, 5, Text.ofString "c"⟩]]]

theorem mem_fixablePaths_twoFilesReport {p : SourcePath} :
    p ∈ fixablePaths (aggregate twoFilesReport) ↔ p = ⟨1, ["a.cpp"]⟩ ∨ p = ⟨1, ["b.cpp"]⟩ := by
  rw [mem_fixablePaths]
  simp only [mem_aggregate]
  have hfirst : firstOfEach [] twoFilesReport.flatten = twoFilesReport.flatten := by decide +kernel
  rw [hfirst]
  constructor
  · rintro ⟨v, hv, -, hpath⟩
    have hall : ∀ v ∈ twoFilesReport.flatten,
        v.path? = some ⟨1, ["a.cpp"]⟩ ∨ v.path? = some ⟨1, ["b.cpp"]⟩ := by decide +kernel
    have hv := hall v hv
    rw [hpath] at hv
    simpa using hv
  · have hsome : ∀ q ∈ [(⟨1, ["a.cpp"]⟩ : SourcePath), ⟨1, ["b.cpp"]⟩],
        ∃ v ∈ twoFilesReport.flatten, v.isFixable = true ∧ v.path? = some q := by decide +kernel
    intro hp
    exact hsome p (by simpa using hp)

theorem holds_twoFiles_first : twoFiles.Holds ⟨1, ["a.cpp"]⟩ ⟨1, ["a.cpp"]⟩ [105, 110, 116, 32, 65, 59] :=
  ⟨rfl, by decide +kernel⟩

theorem holds_twoFiles_second : twoFiles.Holds ⟨1, ["b.cpp"]⟩ ⟨1, ["b.cpp"]⟩ [105, 110, 116, 32, 66, 59] :=
  ⟨rfl, by decide +kernel⟩

theorem holdsEach_twoFiles : twoFiles.HoldsEach (fixablePaths (aggregate twoFilesReport)) := by
  have ha := holds_twoFiles_first
  have hb := holds_twoFiles_second
  refine ⟨fun p hp => ?_, fun p hp q hq x hpx hqx => ?_⟩
  · rcases mem_fixablePaths_twoFilesReport.mp hp with rfl | rfl
    · exact ⟨_, _, ha⟩
    · exact ⟨_, _, hb⟩
  · rcases mem_fixablePaths_twoFilesReport.mp hp with rfl | rfl <;>
      rcases mem_fixablePaths_twoFilesReport.mp hq with rfl | rfl
    · rfl
    · exact absurd (ha.leads.symm.trans (hpx.trans (hqx.symm.trans hb.leads))) (by simp)
    · exact absurd (ha.leads.symm.trans (hqx.trans (hpx.symm.trans hb.leads))) (by simp)
    · rfl

/-- Each of the two files has one violation. -/
theorem fixableOf_twoFilesReport {p : SourcePath} {v : Violation}
    (h : fixableOf twoFilesReport.flatten p = [v]) : fixableOf (aggregate twoFilesReport) p = [v] := by
  have hfirst : firstOfEach [] twoFilesReport.flatten = twoFilesReport.flatten := by decide +kernel
  have hperm : (aggregate twoFilesReport).Perm twoFilesReport.flatten := by
    unfold aggregate
    rw [hfirst]
    exact List.mergeSort_perm _ _
  exact List.perm_singleton.mp (h ▸ (hperm.filter _).filter _)

theorem applyFixes_twoFiles_first :
    applyFixes (Utf8.decode [105, 110, 116, 32, 65, 59])
      (fixableOf (aggregate twoFilesReport) ⟨1, ["a.cpp"]⟩) = .ok (Text.ofString "int a;") := by
  rw [fixableOf_twoFilesReport (v := misnamedIn "a.cpp" [⟨4, 5, Text.ofString "a"⟩]) (by decide +kernel)]
  exact @applyFixes_of_fixesTo (fun _ => _) {} false .here _ _ (by decide +kernel)

theorem planEdits_twoFiles_second (edits : List Edit) :
    planEdits (Utf8.decode [105, 110, 116, 32, 66, 59]).length
      ((fixableOf (aggregate twoFilesReport) ⟨1, ["b.cpp"]⟩).flatMap (·.edits)) ≠ .ok edits := by
  rw [fixableOf_twoFilesReport (v := misnamedIn "b.cpp" [⟨4, 5, Text.ofString "b"⟩, ⟨4, 5, Text.ofString "c"⟩])
    (by decide +kernel)]
  intro hplan
  obtain ⟨hmem, -, hapart⟩ := planEdits_ok hplan
  have hsymm : Std.Symm fun a b : Edit => a.Before b ∨ b.Before a := ⟨fun _ _ => Or.symm⟩
  have heither : edits.Pairwise fun a b => a.Before b ∨ b.Before a := hapart.imp Or.inl
  have hb : ⟨4, 5, Text.ofString "b"⟩ ∈ edits := (hmem _).mpr (by simp [misnamedIn])
  have hc : ⟨4, 5, Text.ofString "c"⟩ ∈ edits := (hmem _).mpr (by simp [misnamedIn])
  -- of two edits of one name neither is in front of the other
  rcases heither.forall hb hc (by decide) with hbefore | hbefore <;> exact absurd hbefore.1 (by decide)

/-- What fixing the two files gives. -/
def twoFilesFixed : FixReport × FileTree × List LogRecord :=
  twoFiles.fix {} .here .here (aggregate twoFilesReport)

/-- The fixes of the first file are all applied, and those of the second one are not. -/
theorem fix_two_files :
    AllApplied twoFiles twoFilesFixed.2.1 (aggregate twoFilesReport) twoFilesFixed.1 ⟨1, ["a.cpp"]⟩ ∧
      NoneApplied twoFiles twoFilesFixed.2.1 {} (aggregate twoFilesReport) twoFilesFixed.1 ⟨1, ["b.cpp"]⟩ := by
  have hall := (fix_all_or_nothing twoFiles {} .here .here twoFilesReport rfl holdsEach_twoFiles).1
  constructor
  · rcases hall _ (mem_fixablePaths_twoFilesReport.mpr (Or.inl rfl)) with happlied | hnone
    · exact happlied
    · -- the edits of the first file are not refused
      obtain ⟨reason, ⟨bytes, hread, ⟨refusal, hrefused, -⟩ | ⟨-, hbackup, -⟩⟩, -⟩ := hnone.noted
      · obtain rfl := Except.ok.inj (holds_twoFiles_first.read?.symm.trans hread)
        exact absurd hrefused (by rw [applyFixes_twoFiles_first]; simp)
      · exact absurd hbackup (by decide)
  · rcases hall _ (mem_fixablePaths_twoFilesReport.mpr (Or.inr rfl)) with happlied | hnone
    · -- and those of the second one cannot be planned
      obtain ⟨bytes, edits, hread, hplan, -⟩ := happlied.content
      obtain rfl := Except.ok.inj (holds_twoFiles_second.read?.symm.trans hread)
      exact absurd hplan (planEdits_twoFiles_second edits)
    · exact hnone

end FileTree

end HouseStyle
