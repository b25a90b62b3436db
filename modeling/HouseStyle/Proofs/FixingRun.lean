import HouseStyle.Project.Check
import HouseStyle.Proofs.FixedPoints
import HouseStyle.Proofs.FixedReport
import HouseStyle.Proofs.FoundFiles
import HouseStyle.Proofs.InOrder

/-!
# What the report of a fixing run says of the files

A run that fixes does not check the files again. Its report is that of the files as they were found,
without what was applied (`check_fixing`), and so it describes the files as they are left only where they
are as they were found.

- `detectEnabled_fix`: no rule asks whether violations are to be fixed.
- `mem_rawReport_of_leftAlone`: two checks agree on the files that hold the same.
- `fixing_report`: the report of a fixing run beside those of a check before and a check after it.
- `exists_report_behind`: a violation that a fix has moved is reported where it stood.
-/

namespace HouseStyle

/-! ## What a check looks at -/

section Detection

variable (config : Config) (isOneOfMany fix : Bool) (path : SourcePath) (text : Text)

theorem CastRule.check_fix :
    CastRule.check (.ofText { config with fix } isOneOfMany path text) =
      CastRule.check (.ofText config isOneOfMany path text) := by
  have hfrom : ∀ names before code,
      CastRule.checkFrom (.ofText { config with fix } isOneOfMany path text) names before code =
        CastRule.checkFrom (.ofText config isOneOfMany path text) names before code := by
    intro names before code
    induction code generalizing before with
    | nil => rfl
    | cons t ts ih =>
      unfold CastRule.checkFrom
      rw [ih]
      rfl
  exact hfrom _ _ _

/-- No rule asks whether violations are to be fixed. -/
theorem check_fix {r : Rule} (hr : r ∈ Rule.builtin) :
    r.check (.ofText { config with fix } isOneOfMany path text) =
      r.check (.ofText config isOneOfMany path text) := by
  simp only [Rule.builtin, List.mem_cons, List.not_mem_nil, or_false] at hr
  rcases hr with rfl | rfl | rfl | rfl | rfl | rfl | rfl | rfl
  case inr.inr.inr.inr.inl => exact congrArg Except.ok (CastRule.check_fix config isOneOfMany fix path text)
  all_goals rfl

theorem detectEnabled_fix :
    detectEnabled (.ofText { config with fix } isOneOfMany path text) =
      detectEnabled (.ofText config isOneOfMany path text) := by
  have hrule : ∀ r ∈ Rule.enabled config,
      detectRule (.ofText { config with fix } isOneOfMany path text) r =
        detectRule (.ofText config isOneOfMany path text) r := by
    intro r hr
    unfold detectRule
    rw [check_fix config isOneOfMany fix path text (List.mem_filter.mp hr).1]
    rfl
  show (Rule.enabled config).flatMap _ ++ _ = (Rule.enabled config).flatMap _ ++ _
  rw [List.flatMap_def, List.flatMap_def, List.map_congr_left hrule]
  rfl

/-- What is reported on a file is placed in it. -/
theorem path?_of_mem_detectEnabled {v : Violation}
    (h : v ∈ detectEnabled (.ofText config isOneOfMany path text)) : v.path? = some path := by
  unfold detectEnabled detect at h
  rcases List.mem_append.mp h with h | h
  · obtain ⟨r, hr, hv⟩ := List.mem_flatMap.mp h
    have hbuiltin := (List.mem_filter.mp hr).1
    obtain ⟨w, hw, rfl, -⟩ := (mem_detectRule_iff hbuiltin).mp hv
    have hpath := (isOf_of_mem_reports hbuiltin hw).location_path
    unfold withSeverity
    split <;> exact hpath
  · obtain ⟨note, -, rfl⟩ := List.mem_map.mp h
    rfl

end Detection

/-! ## A check without a time limit -/

namespace CheckTarget

variable {target : CheckTarget} {w : World} {mode : FixMode} {base : SourcePath} {tree : FileTree}
  {isOneOfMany : Bool} {p : SourcePath} {found : List SourcePath}

/-- What is reported on one file of a tree. -/
def reportOn (target : CheckTarget) (base : SourcePath) (tree : FileTree) (isOneOfMany : Bool)
    (p : SourcePath) : List Violation :=
  ((target.checkFile base tree isOneOfMany p).violations).getD []

/-- The report on some files of a tree, before anything is fixed. -/
def rawReport (target : CheckTarget) (base : SourcePath) (tree : FileTree) (found : List SourcePath) :
    List Violation :=
  aggregate (found.map (target.reportOn base tree (decide (1 < found.length))) ++
    [target.unknownRuleNotes])

theorem violations_checkFile :
    (target.checkFile base tree isOneOfMany p).violations =
      some (target.reportOn base tree isOneOfMany p) := by
  unfold reportOn checkFile
  split <;> rfl

theorem reportOn_of_file {bytes : List UInt8} (h : tree.file? p = some bytes) :
    target.reportOn base tree isOneOfMany p =
      detectEnabled (.ofText target.config isOneOfMany p (Utf8.decode bytes)) := by
  unfold reportOn checkFile
  rw [h]
  rfl

theorem path?_of_mem_reportOn {v : Violation} (h : v ∈ target.reportOn base tree isOneOfMany p) :
    v.path? = some p := by
  unfold reportOn checkFile at h
  split at h
  · obtain rfl := List.mem_singleton.mp h
    rfl
  · exact path?_of_mem_detectEnabled _ _ _ _ h

/-- The notes of the checker itself are not to be fixed. -/
theorem isFixable_engineNote {id message : String} {severity : Severity} {path : Option SourcePath}
    {line : Nat} : (engineNote id severity message path line).isFixable = false := by
  rw [Bool.eq_false_iff]
  intro hfix
  exact absurd (Violation.facts_of_isFixable hfix).2 (by simp [engineNote])

/-- Only files that can be read have violations that can be fixed. -/
theorem exists_file_of_isFixable {v : Violation} (h : v ∈ target.reportOn base tree isOneOfMany p)
    (hfix : v.isFixable = true) : ∃ bytes, tree.file? p = some bytes := by
  cases hfile : tree.file? p with
  | some bytes => exact ⟨bytes, rfl⟩
  | none =>
    unfold reportOn checkFile at h
    rw [hfile] at h
    obtain rfl := List.mem_singleton.mp h
    exact absurd hfix (by rw [isFixable_engineNote]; exact Bool.false_ne_true)

/-- The target with nothing to be fixed. -/
def withoutFix (target : CheckTarget) : CheckTarget :=
  { target with config := { target.config with fix := false } }

theorem reportOn_withoutFix :
    target.withoutFix.reportOn base tree isOneOfMany p = target.reportOn base tree isOneOfMany p := by
  unfold reportOn checkFile
  cases tree.file? p with
  | none => rfl
  | some bytes => exact detectEnabled_fix target.config isOneOfMany false p (Utf8.decode bytes)

theorem rawReport_withoutFix :
    target.withoutFix.rawReport base tree found = target.rawReport base tree found := by
  unfold rawReport
  rw [show target.withoutFix.reportOn base tree = target.reportOn base tree from
    funext fun _ => funext fun _ => reportOn_withoutFix]
  rfl

/-- Without a time limit every file is checked. -/
theorem check_eq (target : CheckTarget) (w : World) (mode : FixMode)
    (htimeout : target.config.timeout = none) :
    target.check w mode = (target.files w).map fun found => target.conclude w mode
      (found.map (target.checkFile w.base w.tree (decide (1 < found.length)))) := by
  have hturn : ∀ (many : Bool) (found : List SourcePath),
      (found.zipIdx.map fun z => target.turn w.base w.tree many none (w.clock (z.2 + 1)) z.1) =
        found.map (target.checkFile w.base w.tree many) := by
    intro many found
    show found.zipIdx.map (target.checkFile w.base w.tree many ∘ Prod.fst) = _
    rw [← List.map_map, List.zipIdx_map_fst]
  unfold check deadline
  rw [htimeout]
  cases target.files w with
  | error fault => rfl
  | ok found => exact congrArg (Except.ok ∘ target.conclude w mode) (hturn _ found)

theorem path_checkFile : (target.checkFile base tree isOneOfMany p).path = p := by
  unfold checkFile
  split <;> rfl

theorem filterMap_violations (ps : List SourcePath) :
    (ps.map (target.checkFile base tree isOneOfMany)).filterMap (·.violations) =
      ps.map (target.reportOn base tree isOneOfMany) := by
  induction ps with
  | nil => rfl
  | cons p ps ih => rw [List.map_cons, List.filterMap_cons, violations_checkFile, ih, List.map_cons]

theorem fixPhase_eq (hfix : target.config.fix = true) (w : World) (mode : FixMode) (vs : List Violation) :
    let fixed := w.tree.fix mode w.base target.root vs
    target.fixPhase w mode vs = (fixed.1.violations, some fixed.1, fixed.2.1, fixed.2.2) := if_pos hfix

/-- The tree of a run without a time limit when its files have been fixed and the formatter has not been
asked. -/
def fixedTree (target : CheckTarget) (w : World) (mode : FixMode) : FileTree :=
  match target.files w with
  | .ok found => (target.fixPhase w mode (target.rawReport w.base w.tree found)).2.2.1
  | .error _ => w.tree

theorem fixedTree_eq (hfiles : target.files w = .ok found) :
    target.fixedTree w mode = (target.fixPhase w mode (target.rawReport w.base w.tree found)).2.2.1 := by
  unfold fixedTree
  rw [hfiles]

/-- What a run over files that are all checked gives, phase by phase. -/
structure Gives (target : CheckTarget) (w : World) (mode : FixMode) (ps : List SourcePath)
    (r : CheckResult) : Prop where
  found : r.found = ps
  files : r.files = ps
  fix : r.fix = (target.fixPhase w mode (target.rawReport w.base w.tree ps)).2.1
  violations : r.violations =
    let fixed := target.fixPhase w mode (target.rawReport w.base w.tree ps)
    (target.formatPhase w mode ps fixed.2.2.1 fixed.1).1
  tree : r.tree =
    let fixed := target.fixPhase w mode (target.rawReport w.base w.tree ps)
    (target.formatPhase w mode ps fixed.2.2.1 fixed.1).2.1
  status : r.status = runStatus r.violations target.config.failOnError false
  incomplete : r.incomplete = false

theorem gives_conclude (target : CheckTarget) (w : World) (mode : FixMode) (found : List SourcePath) :
    target.Gives w mode found (target.conclude w mode
      (found.map (target.checkFile w.base w.tree (decide (1 < found.length))))) := by
  have hpaths : (found.map (target.checkFile w.base w.tree (decide (1 < found.length)))).map (·.path) =
      found := by
    rw [List.map_map]
    exact (List.map_congr_left fun p _ => path_checkFile).trans (List.map_id _)
  have hall : (found.map (target.checkFile w.base w.tree (decide (1 < found.length)))).filter
      (·.violations.isSome) = found.map (target.checkFile w.base w.tree (decide (1 < found.length))) := by
    refine List.filter_eq_self.mpr fun o ho => ?_
    obtain ⟨p, -, rfl⟩ := List.mem_map.mp ho
    rw [violations_checkFile]
    rfl
  unfold conclude
  simp only [hall, hpaths, filterMap_violations, Nat.sub_self, skippedNotes, ↓reduceIte, List.append_nil]
  exact ⟨rfl, rfl, rfl, rfl, rfl, rfl, rfl⟩

theorem check_eq_error_iff (htimeout : target.config.timeout = none) {fault : RunFault} :
    target.check w mode = .error fault ↔ target.files w = .error fault := by
  rw [check_eq target w mode htimeout]
  cases target.files w <;> simp [Except.map]

theorem exists_check (mode : FixMode) (htimeout : target.config.timeout = none)
    (hfiles : target.files w = .ok found) :
    ∃ r, target.check w mode = .ok r ∧ target.Gives w mode found r := by
  refine ⟨_, ?_, gives_conclude target w mode found⟩
  rw [check_eq target w mode htimeout, hfiles]
  rfl

/-- What a run gives for files that are all checked, without a formatter. -/
theorem conclude_eq (target : CheckTarget) (w : World) (mode : FixMode)
    (hformat : target.config.formatter.enabled = false) (found : List SourcePath) :
    let r := target.conclude w mode
      (found.map (target.checkFile w.base w.tree (decide (1 < found.length))))
    let fixed := target.fixPhase w mode (target.rawReport w.base w.tree found)
    r.found = found ∧ r.violations = fixed.1 ∧ r.fix = fixed.2.1 ∧ r.tree = fixed.2.2.1 := by
  have hgives := gives_conclude target w mode found
  have hphase : ∀ tree vs, target.formatPhase w mode found tree vs = (vs, tree, [], []) := by
    intro tree vs
    unfold formatPhase
    rw [hformat]
    rfl
  refine ⟨hgives.found, hgives.violations.trans ?_, hgives.fix, hgives.tree.trans ?_⟩
  · dsimp only
    rw [hphase]
  · dsimp only
    rw [hphase]

/-- A run that does not fix reports what it finds. -/
theorem check_withoutFix (mode : FixMode) (htimeout : target.config.timeout = none)
    (hformat : target.config.formatter.enabled = false) (hfiles : target.files w = .ok found) :
    ∃ r, target.withoutFix.check w mode = .ok r ∧ r.found = found ∧
      r.violations = target.rawReport w.base w.tree found := by
  have hcheck := check_eq target.withoutFix w mode htimeout
  have hfiles' : target.withoutFix.files w = .ok found := hfiles
  obtain ⟨hfound, hviolations, -⟩ :=
    conclude_eq target.withoutFix w mode hformat found
  rw [hfiles'] at hcheck
  exact ⟨_, hcheck, hfound, hviolations.trans rawReport_withoutFix⟩

theorem files_of_check_withoutFix (htimeout : target.config.timeout = none)
    (hformat : target.config.formatter.enabled = false) {r : CheckResult}
    (h : target.withoutFix.check w mode = .ok r) : target.files w = .ok r.found := by
  cases hfiles : target.files w with
  | error fault =>
    have hfiles' : target.withoutFix.files w = .error fault := hfiles
    rw [check_eq target.withoutFix w mode htimeout, hfiles'] at h
    exact absurd h (by simp [Except.map])
  | ok found =>
    obtain ⟨r', hr', hfound, -⟩ := check_withoutFix mode htimeout hformat hfiles
    obtain rfl := Except.ok.inj (h.symm.trans hr')
    rw [hfound]

/-- A run that fixes applies the fixes of what it finds. -/
theorem check_fixing (hfix : target.config.fix = true) (htimeout : target.config.timeout = none)
    (hformat : target.config.formatter.enabled = false) {r : CheckResult}
    (h : target.check w mode = .ok r) :
    let fixed := w.tree.fix mode w.base target.root (target.rawReport w.base w.tree r.found)
    target.files w = .ok r.found ∧ r.violations = fixed.1.violations ∧ r.fix = some fixed.1 ∧
      r.tree = fixed.2.1 := by
  rw [check_eq target w mode htimeout] at h
  cases hfiles : target.files w with
  | error fault => rw [hfiles] at h; exact absurd h (by simp [Except.map])
  | ok found =>
    rw [hfiles] at h
    obtain ⟨hfound, hviolations, hreport, htree⟩ := conclude_eq target w mode hformat found
    rw [fixPhase_eq hfix] at hviolations hreport htree
    obtain rfl := Except.ok.inj h
    simp only [hfound]
    exact ⟨trivial, hviolations, hreport, htree⟩

/-! ## A run that fixes -/

/-- What a run leaves as it was: the fixing gave the file no other text, and what can be read at its path
is what could be read before. -/
structure LeftAlone (before after : FileTree) (report : FixReport) (p : SourcePath) : Prop where
  unchanged : p ∉ report.changedFiles
  same : after.file? p = before.file? p

section Fixing

variable {t : FileTree} {root : SourcePath}

/-- The fixable violations of a file are among what is reported on it. -/
theorem mem_reportOn_of_mem_fixableOf {v : Violation}
    (h : v ∈ fixableOf (target.rawReport base t found) p) :
    p ∈ found ∧ v ∈ target.reportOn base t (decide (1 < found.length)) p ∧ v.isFixable = true := by
  obtain ⟨hv, hpath⟩ := List.mem_filter.mp h
  obtain ⟨hv, hfix⟩ := List.mem_filter.mp hv
  obtain ⟨vs, hvs, hmem⟩ := exists_mem_of_mem_aggregate hv
  rcases List.mem_append.mp hvs with hvs | hvs
  · obtain ⟨q, hq, rfl⟩ := List.mem_map.mp hvs
    obtain rfl : q = p := by simpa [path?_of_mem_reportOn hmem] using hpath
    exact ⟨hq, hmem, hfix⟩
  · obtain rfl := List.mem_singleton.mp hvs
    obtain ⟨id, -, rfl⟩ := List.mem_map.mp hmem
    exact absurd hfix (by rw [isFixable_engineNote]; exact Bool.false_ne_true)

theorem mem_found_of_mem_fixablePaths (hp : p ∈ fixablePaths (target.rawReport base t found)) :
    p ∈ found ∧ ∃ bytes, t.file? p = some bytes := by
  obtain ⟨v, hv, hfix, hpath⟩ := mem_fixablePaths.mp hp
  obtain ⟨hp, hmem, -⟩ := mem_reportOn_of_mem_fixableOf
    (List.mem_filter.mpr ⟨List.mem_filter.mpr ⟨hv, hfix⟩, by simpa using hpath⟩)
  exact ⟨hp, exists_file_of_isFixable hmem hfix⟩

theorem read?_of_file? {bytes : List UInt8} (h : t.file? p = some bytes) : t.read? p = .ok bytes := by
  unfold FileTree.file? at h
  split at h
  next b hb =>
    rw [hb, Option.some.inj h]
  next => exact absurd h (by simp)

/-- Where files are found at places, the fixes of a run are those of files, and of different ones. -/
theorem holdsEach_rawReport (target : CheckTarget) (base : SourcePath) (hplain : ∀ p ∈ found, p.IsPlain) :
    t.HoldsEach (fixablePaths (target.rawReport base t found)) := by
  refine FileTree.holdsEach_of_isPlain (fun p hp => hplain p (mem_found_of_mem_fixablePaths hp).1)
    fun p hp => ?_
  obtain ⟨-, bytes, hbytes⟩ := mem_found_of_mem_fixablePaths hp
  exact ⟨bytes, read?_of_file? hbytes⟩

/-- No fix of a file that is left alone was applied. -/
theorem wasApplied_eq_false_of_leftAlone (hplain : ∀ p ∈ found, p.IsPlain) {v : Violation}
    (hv : v ∈ target.rawReport base t found)
    (hleft : ∀ p ∈ found, v.path? = some p →
      p ∉ (t.fix mode base root (target.rawReport base t found)).1.changedFiles) :
    wasApplied (t.fix mode base root (target.rawReport base t found)).1.files v = false := by
  have hps := holdsEach_rawReport target base (t := t) hplain
  rw [Bool.eq_false_iff]
  intro happlied
  have hfix : v.isFixable = true := (Bool.and_eq_true_iff.mp happlied).1
  obtain ⟨p, hpath⟩ : ∃ p, v.path? = some p := by
    unfold Violation.isFixable at hfix
    cases hl : v.location with
    | none => simp [hl] at hfix
    | some l =>
      cases hp : l.path with
      | none => simp [hl, hp] at hfix
      | some p => exact ⟨p, by simp [Violation.path?, hl, hp]⟩
  obtain ⟨hp, bytes, hfile⟩ := mem_found_of_mem_fixablePaths (mem_fixablePaths.mpr ⟨v, hv, hfix, hpath⟩)
  obtain ⟨place, hholds⟩ := FileTree.read?_eq_ok_iff.mp (read?_of_file? hfile)
  have haccepted := ((FileTree.wasApplied_iff hps hv hpath).mp happlied).2
  rcases hholds.fixFile_cases mode (SourcePath.shown base root p)
      (fixableOf (target.rawReport base t found) p) with
    ⟨r, -, hrejected, -⟩ | ⟨failure, -, -, hrejected, -⟩ | ⟨after, happly, hfixed, -⟩
  · rw [FileTree.fixAlone, hrejected] at haccepted
    exact absurd haccepted (by simp [FileFix.rejected])
  · rw [FileTree.fixAlone, hrejected] at haccepted
    exact absurd haccepted (by simp [FileFix.rejected])
  · -- the fixes were accepted and gave the text back, which no fix does
    have hsame : after = Utf8.decode bytes :=
      FileTree.eq_of_not_mem_changedFiles hps (mem_fixablePaths.mpr ⟨v, hv, hfix, hpath⟩) hfixed
        (hleft p hp hpath)
    have hsub : ∀ u ∈ fixableOf (target.rawReport base t found) p, u ∈ detectEnabled
        (.ofText target.config (decide (1 < found.length)) p (Utf8.decode bytes)) := by
      intro u hu
      rw [← reportOn_of_file hfile]
      exact (mem_reportOn_of_mem_fixableOf hu).2.1
    refine applyFixes_ne_self hsub ?_ hfix (by rw [happly, hsame])
    exact List.mem_filter.mpr ⟨List.mem_filter.mpr ⟨hv, hfix⟩, by simpa using hpath⟩

/-- On what is left alone a check of the tree that a run leaves reports what the run found. -/
theorem mem_rawReport_of_leftAlone {after : FileTree} {v : Violation}
    (hsame : ∀ p ∈ found, v.pathText = some p.toString → after.file? p = t.file? p) :
    v ∈ target.rawReport base after found ↔ v ∈ target.rawReport base t found := by
  refine mem_aggregate_congr fun p hp => ?_
  by_cases hpath : v.pathText = some p.toString
  · have hreport : target.reportOn base after (decide (1 < found.length)) p =
        target.reportOn base t (decide (1 < found.length)) p := by
      unfold reportOn checkFile
      rw [hsame p hp hpath]
    rw [hreport]
  · -- nothing that is reported on this file has the identity of the violation
    have hnone : ∀ tree : FileTree,
        (target.reportOn base tree (decide (1 < found.length)) p).find? (·.identity == v.identity) = none := by
      intro tree
      rw [List.find?_eq_none]
      intro w hw hid
      refine hpath ?_
      rw [← pathText_eq_of_identity_eq (by simpa using hid)]
      unfold Violation.pathText
      have := path?_of_mem_reportOn hw
      unfold Violation.path? at this
      rw [this]
      rfl
    rw [hnone, hnone]

/-- Without backups a file that has not got another text is left alone. -/
theorem leftAlone_of_unchanged (hbackup : mode.backup = false) (hplain : ∀ p ∈ found, p.IsPlain)
    (hp : p ∈ found)
    (h : p ∉ (t.fix mode base root (target.rawReport base t found)).1.changedFiles) :
    LeftAlone t (t.fix mode base root (target.rawReport base t found)).2.1
      (t.fix mode base root (target.rawReport base t found)).1 p := by
  have hps := holdsEach_rawReport target base (t := t) hplain
  refine ⟨h, ?_⟩
  have hshape : FileTree.SameShape (t.fix mode base root (target.rawReport base t found)).2.1 t :=
    FileTree.sameShape_fixFiles hbackup base root _ _
  unfold FileTree.file?
  rw [hshape.read? fun x hx => ?_]
  by_cases hfixable : p ∈ fixablePaths (target.rawReport base t found)
  · refine (FileTree.entry?_fix_of_leads hps hfixable hx).trans ?_
    rw [FileTree.fixAlone_tree_of_not_mem_changedFiles hps hfixable h]
  · refine FileTree.entry?_fix_of_unchanged hps fun q hq => ⟨fun hleads => hfixable ?_, fun hb => ?_⟩
    · -- two places do not lead to one
      have hqp := FileTree.eq_of_follow (hplain q (mem_found_of_mem_fixablePaths hq).1) hleads
      rw [← FileTree.eq_of_follow (hplain p hp) hx, hqp]
      exact hq
    · exact absurd (hb.1.symm.trans hbackup) (by simp)

end Fixing

/-! ## A project of one file -/

/-- The path of the one file of a project. -/
def onlyPath : SourcePath := ⟨1, ["a.cpp"]⟩

/-- A project of one file. -/
def onlyFile (text : Text) : World :=
  { base := ⟨1, []⟩, tree := FileTree.set {} onlyPath (.file (Utf8.encode text)), clock := fun _ => .whole 0
    spawn := fun _ _ => .timedOut }

/-- The target that asks for fixing that file. -/
def fixOnlyFile : CheckTarget := { root := ⟨1, []⟩, paths := [onlyPath], config := { fix := true } }

theorem holds_onlyFile (text : Text) : (onlyFile text).tree.Holds onlyPath onlyPath (Utf8.encode text) :=
  ⟨rfl, rfl⟩

theorem resolve_onlyPath_ne : SourcePath.resolve ⟨1, []⟩ onlyPath ≠ FileTree.backupPath onlyPath := by
  decide

theorem free_onlyFile (text : Text) : (onlyFile text).tree.Free (FileTree.backupPath onlyPath) := by
  have hother : (FileTree.backupPath onlyPath == onlyPath) = false := by decide
  have hnone : (onlyFile text).tree.entry? (FileTree.backupPath onlyPath) = none := by
    show List.lookup _ [(onlyPath, _)] = none
    rw [List.lookup_cons, hother]
    rfl
  have habove : FileTree.isBelow (FileTree.backupPath onlyPath) onlyPath = false := by decide
  constructor
  · unfold FileTree.isFile
    rw [hnone]
  · unfold FileTree.isDirectory
    rw [hnone]
    simp only [onlyFile, FileTree.set, List.any_cons, List.filter_nil, List.any_nil, habove]
    rfl

/-- The one file that is asked for is found. -/
theorem files_single {bytes : List UInt8} (hpaths : target.paths = [p]) (hpossible : p.isPossible = true)
    (h : w.tree.Holds p p bytes) : target.files w = .ok [p] := by
  have hresolve : SourcePath.resolve w.base p = p := h.isPlain.resolve w.base
  have hallow : w.tree.allow w.base p = .ok () := by
    unfold FileTree.allow
    rw [hresolve, h.leads, hpossible]
    rfl
  have hfiles : w.tree.filesAt target.config w.base target.root [p] = [p] := by
    unfold FileTree.filesAt FileTree.filesOf
    simp only [List.flatMap_cons, List.flatMap_nil, hresolve,
      FileTree.isDirectory_eq_false_of_isFile h.isFile]
    simp [sortedPaths, List.eraseDups_cons]
  unfold files FileTree.discover
  rw [hpaths]
  show ((w.tree.allow w.base p).bind fun _ => .ok ()).map _ = _
  rw [hallow]
  exact congrArg Except.ok hfiles

theorem files_onlyFile {w : World} {bytes : List UInt8} (h : w.tree.Holds onlyPath onlyPath bytes) :
    fixOnlyFile.files w = .ok [onlyPath] :=
  files_single rfl (by simp [onlyPath, SourcePath.isPossible]) h

/-- A declaration whose name is not in its style, with a cast behind it. -/
def castBehindName : Text := Text.ofString "int aB=(int)x;"

/-- The declaration with its name in style. -/
def castBehindFixedName : Text := Text.ofString "int a_b=(int)x;"

/-- A text that a check reads as it stands, with what it finds in it, in the order of a report. -/
structure ReportedOn (config : Config) (p : SourcePath) (text : Text) (vs : List Violation) : Prop where
  decode : Utf8.decode (Utf8.encode text) = text
  order : InOrder text
  found : detectEnabled (.asRead config false p text) = vs
  distinct : firstOfEach [] vs = vs
  sorted : vs.Pairwise fun a b => Violation.precedes a b = true

instance (config : Config) (p : SourcePath) (text : Text) (vs : List Violation) :
    Decidable (ReportedOn config p text vs) :=
  decidable_of_iff (_ ∧ _ ∧ _ ∧ _ ∧ _)
    ⟨fun ⟨hdecode, horder, hfound, hdistinct, hsorted⟩ => ⟨hdecode, horder, hfound, hdistinct, hsorted⟩,
      fun h => ⟨h.decode, h.order, h.found, h.distinct, h.sorted⟩⟩

/-- The report on one file. -/
theorem ReportedOn.rawReport {text : Text} {vs : List Violation} (h : ReportedOn target.config p text vs)
    (hholds : tree.Holds p p (Utf8.encode text)) (hrules : target.config.rules = []) :
    target.rawReport base tree [p] = vs := by
  have hreport : target.reportOn base tree false p = vs := by
    rw [reportOn_of_file hholds.file?, h.decode, SourceFile.ofText_eq_asRead h.order, h.found]
  have hnotes : target.unknownRuleNotes = [] := by
    simp [unknownRuleNotes, unknownRules, Config.unknownRuleIds, hrules]
  unfold CheckTarget.rawReport
  rw [hnotes]
  show aggregate [target.reportOn base tree false p, []] = vs
  have hflatten : [vs, []].flatten = vs := by simp
  rw [hreport, aggregate_of_pairwise (by rw [hflatten, h.distinct]; exact h.sorted), hflatten, h.distinct]

/-- The fixed text, for edits that come up in order. -/
theorem ReportedOn.applyFixes {config : Config} {text updated : Text} {vs : List Violation}
    (h : ReportedOn config p text vs) (hfix : fixesTo (fixableOf vs p) text updated = true) :
    applyFixes text (fixableOf vs p) = .ok updated := by
  have happly : HouseStyle.applyFixes text (fixableOf (detectEnabled (.ofText config false p text)) p) =
      .ok updated := by
    refine applyFixes_of_fixesTo (fun f => fixableOf (detectEnabled f) p) ?_
    rw [h.found]
    exact hfix
  rwa [SourceFile.ofText_eq_asRead h.order, h.found] at happly

/-- What is found before the fix. -/
def beforeFix : List Violation :=
  detectEnabled (.asRead fixOnlyFile.config false onlyPath castBehindName)

/-- What is found after the fix. -/
def afterFix : List Violation :=
  detectEnabled (.asRead fixOnlyFile.config false onlyPath castBehindFixedName)

/-- What is said of the name, in a file with that path. -/
def misnamedAt (p : SourcePath) : Violation :=
  { ruleId := "naming-casing", severity := .error, category := .naming
    message := "Variable `aB` should be lower_snake_case (`a_b`)."
    location := some ⟨some p, some 1, some 5, some 1, some 7, some 4, some 6⟩
    suggestion := some "rename to `a_b`", edits := [⟨4, 6, Text.ofString "a_b"⟩], autofix := true }

/-- What is said of the cast, with so many characters in front of it. -/
def castAt (offset : Nat) : Violation :=
  { ruleId := "no-c-style-cast", severity := .warning, category := .typeSafety
    message := "C-style cast to `int`; use static_cast<int>(...)."
    location := some ⟨some onlyPath, some 1, some (offset + 1), some 1, some (offset + 6), some offset,
      some (offset + 5)⟩
    suggestion := some "static_cast<int>(x)"
    edits := [⟨offset, offset + 6, Text.ofString "static_cast<int>(x)"⟩], autofix := false }

theorem isFixable_misnamedAt (p : SourcePath) : (misnamedAt p).isFixable = true := by
  have hengine : (misnamedAt p).isEngineNote = false :=
    isEngineNote_of_ruleId (r := .total NamingRule.info NamingRule.check) (by simp [Rule.builtin]) rfl
  unfold Violation.isFixable
  rw [hengine]
  rfl

theorem isFixable_castAt (offset : Nat) : (castAt offset).isFixable = false := by
  simp [Violation.isFixable, castAt]

set_option maxRecDepth 10000 in
/-- The reports before and after the fix, and the edits that lead from one to the other. -/
theorem reportedOn_castBehindNames :
    ReportedOn fixOnlyFile.config onlyPath castBehindName [misnamedAt onlyPath, castAt 7] ∧
      ReportedOn fixOnlyFile.config onlyPath castBehindFixedName [castAt 8] ∧
      fixesTo (fixableOf [misnamedAt onlyPath, castAt 7] onlyPath) castBehindName castBehindFixedName = true := by
  rw [castBehindName, castBehindFixedName, Text.ofString_ofList, Text.ofString_ofList]
  decide +kernel

theorem reportedOn_castBehindName :
    ReportedOn fixOnlyFile.config onlyPath castBehindName [misnamedAt onlyPath, castAt 7] :=
  reportedOn_castBehindNames.1

theorem reportedOn_castBehindFixedName :
    ReportedOn fixOnlyFile.config onlyPath castBehindFixedName [castAt 8] :=
  reportedOn_castBehindNames.2.1

theorem beforeFix_eq : beforeFix = [misnamedAt onlyPath, castAt 7] := reportedOn_castBehindName.found

theorem afterFix_eq : afterFix = [castAt 8] := reportedOn_castBehindFixedName.found

theorem rawReport_before :
    fixOnlyFile.rawReport ⟨1, []⟩ (onlyFile castBehindName).tree [onlyPath] = beforeFix :=
  (reportedOn_castBehindName.rawReport (holds_onlyFile castBehindName) rfl).trans beforeFix_eq.symm

theorem applyFixes_castBehindName :
    applyFixes castBehindName (fixableOf beforeFix onlyPath) = .ok castBehindFixedName := by
  rw [beforeFix_eq]
  exact reportedOn_castBehindName.applyFixes reportedOn_castBehindNames.2.2

theorem fixablePaths_before : fixablePaths beforeFix = [onlyPath] := by
  have hfixable : fixableViolations beforeFix = [misnamedAt onlyPath] := by
    rw [beforeFix_eq]
    simp [fixableViolations, isFixable_misnamedAt, isFixable_castAt]
  have hpaths : [misnamedAt onlyPath].filterMap (·.path?) = [onlyPath] := rfl
  unfold fixablePaths
  rw [hfixable, hpaths]
  simp [List.eraseDups_cons]

theorem holdsEach_before : (onlyFile castBehindName).tree.HoldsEach (fixablePaths beforeFix) := by
  rw [fixablePaths_before]
  refine ⟨fun p hp => ?_, fun p hp q hq _ _ _ => ?_⟩
  · rw [List.mem_singleton.mp hp]
    exact ⟨_, _, holds_onlyFile castBehindName⟩
  · rw [List.mem_singleton.mp hp, List.mem_singleton.mp hq]

/-- A run that writes leaves the fixed text, with a backup or without. -/
theorem holds_fixed_of_write {mode : FixMode} (hwrite : mode.dryRun = false) (root : SourcePath) :
    ((onlyFile castBehindName).tree.fix mode ⟨1, []⟩ root beforeFix).2.1.Holds onlyPath onlyPath
      (Utf8.encode castBehindFixedName) := by
  have hholds := holds_onlyFile castBehindName
  have hdecode := reportedOn_castBehindName.decode
  have hp : onlyPath ∈ fixablePaths beforeFix := by simp [fixablePaths_before]
  have hkeep : (onlyFile castBehindName).tree.follow (FileTree.backupPath onlyPath) =
      .ok (FileTree.backupPath onlyPath) := by
    rw [hholds.follow_backupPath, if_neg (by decide), if_neg (by decide), if_neg (by decide)]
  refine ⟨(FileTree.follow_fix_eq_ok_iff holdsEach_before).mpr hholds.leads, ?_⟩
  refine (FileTree.entry?_fix_of_leads holdsEach_before hp hholds.leads).trans ?_
  rcases hholds.fixFile_cases mode (SourcePath.shown ⟨1, []⟩ root onlyPath) (fixableOf beforeFix onlyPath)
    with ⟨r, happly, -⟩ | ⟨failure, -, hfailure, -⟩ | ⟨after, happly, -, htree⟩
  · rw [hdecode, applyFixes_castBehindName] at happly
    exact absurd happly (by simp)
  · exact absurd (hkeep.symm.trans hfailure) (by simp)
  · rw [hdecode, applyFixes_castBehindName, Except.ok.injEq] at happly
    subst happly
    have hdiff : ¬ (castBehindFixedName = castBehindName ∨ mode.dryRun = true) := by
      rw [hwrite]
      decide
    rw [hdecode, if_neg hdiff] at htree
    exact htree.file

theorem holds_fixed (root : SourcePath) :
    ((onlyFile castBehindName).tree.fix {} ⟨1, []⟩ root beforeFix).2.1.Holds onlyPath onlyPath
      (Utf8.encode castBehindFixedName) :=
  holds_fixed_of_write rfl root

theorem check_castBehindName :
    ∃ r, fixOnlyFile.check (onlyFile castBehindName) {} = .ok r ∧ r.found = [onlyPath] := by
  obtain ⟨hfound, -⟩ := conclude_eq fixOnlyFile (onlyFile castBehindName) {} rfl [onlyPath]
  refine ⟨_, ?_, hfound⟩
  rw [check_eq fixOnlyFile (onlyFile castBehindName) {} rfl,
    files_onlyFile (holds_onlyFile castBehindName)]
  rfl

/-! ## The report of a fixing run -/

/-- **What the report of a fixing run says of the files.** A run with fixing on, without a dry run, a time
limit or a formatter, does not check the files again: its report is that of the same run with fixing off,
without the violations that were applied and with the notes on files whose fixes were refused. What it
says of a file that it has left alone is what a second check, with fixing off, says of it. Without backups
the second check finds the same files, and every file that has not got another text is left alone. -/
theorem fixing_report (target : CheckTarget) (w : World) (mode : FixMode) (r : CheckResult)
    (hfix : target.config.fix = true) (hwrite : mode.dryRun = false)
    (htimeout : target.config.timeout = none) (hformat : target.config.formatter.enabled = false)
    (hrun : target.check w mode = .ok r) :
    ∃ first report, target.withoutFix.check w mode = .ok first ∧ first.found = r.found ∧
      r.fix = some report ∧
      r.violations = aggregate [first.violations.filter (!wasApplied report.files ·), report.notes] ∧
      (∀ second, target.withoutFix.check { w with tree := r.tree } mode = .ok second →
        second.found = r.found → ∀ v,
          (∀ p ∈ r.found, v.pathText = some p.toString → LeftAlone w.tree r.tree report p) →
          (v ∈ second.violations → v ∈ r.violations) ∧
            (v ∈ r.violations → v ∈ second.violations ∨ v ∈ report.notes)) ∧
      (mode.backup = false →
        (∃ second, target.withoutFix.check { w with tree := r.tree } mode = .ok second ∧
          second.found = r.found) ∧
        ∀ p ∈ r.found, p ∉ report.changedFiles → LeftAlone w.tree r.tree report p) := by
  obtain ⟨hfiles, hviolations, hreport, htree⟩ := check_fixing hfix htimeout hformat hrun
  obtain ⟨first, hfirst, hfirstfound, hfirstviolations⟩ :=
    check_withoutFix mode htimeout hformat hfiles
  have hplain : ∀ p ∈ r.found, p.IsPlain := FileTree.isPlain_of_discover hfiles
  have hps := holdsEach_rawReport target w.base (t := w.tree) hplain
  refine ⟨first, _, hfirst, hfirstfound, hreport, ?_, ?_, ?_⟩
  · rw [hviolations, hfirstviolations]
    exact FileTree.violations_fix hwrite
  · intro second hsecond hsecondfound v hleft
    -- a second check of the same files finds what it is said to find in the files it read
    have hfiles' := files_of_check_withoutFix htimeout hformat hsecond
    rw [hsecondfound] at hfiles'
    obtain ⟨second', hsecond', -, hsecondviolations⟩ :=
      check_withoutFix mode htimeout hformat hfiles'
    obtain rfl := Except.ok.inj (hsecond.symm.trans hsecond')
    have hsame : v ∈ second.violations ↔ v ∈ target.rawReport w.base w.tree r.found := by
      rw [hsecondviolations]
      exact mem_rawReport_of_leftAlone fun p hp hpath => (hleft p hp hpath).same
    rw [hsame, hviolations]
    constructor
    · intro hv
      refine (FileTree.mem_violations_fix_iff (aggregate_onePerIdentity _) hps hwrite hv).mpr ?_
      refine wasApplied_eq_false_of_leftAlone hplain hv fun p hp hpath => (hleft p hp ?_).unchanged
      unfold Violation.pathText
      unfold Violation.path? at hpath
      rw [hpath]
      rfl
    · intro hv
      rw [FileTree.violations_fix hwrite] at hv
      obtain ⟨vs, hvs, hmem⟩ := exists_mem_of_mem_aggregate hv
      simp only [List.mem_cons, List.not_mem_nil, or_false] at hvs
      rcases hvs with rfl | rfl
      · exact Or.inl (List.mem_filter.mp hmem).1
      · exact Or.inr hmem
  · intro hbackup
    -- without backups no file is added, and the same files are found
    rw [htree]
    refine ⟨?_, fun p hp hunchanged => leftAlone_of_unchanged hbackup hplain hp hunchanged⟩
    have hshape : FileTree.SameShape
        (w.tree.fix mode w.base target.root (target.rawReport w.base w.tree r.found)).2.1 w.tree :=
      FileTree.sameShape_fixFiles hbackup w.base target.root _ _
    have hfiles' : target.files { w with tree := _ } = .ok r.found := hshape.discover hfiles
    obtain ⟨second, hsecond, hsecondfound, -⟩ := check_withoutFix mode htimeout hformat hfiles'
    exact ⟨second, hsecond, hsecondfound⟩

/-- The run of the example, which the general theorem is about. -/
theorem fixing_report_castBehindName :
    ∃ r first report, fixOnlyFile.check (onlyFile castBehindName) {} = .ok r ∧
      fixOnlyFile.withoutFix.check (onlyFile castBehindName) {} = .ok first ∧ r.fix = some report ∧
      r.violations = aggregate [first.violations.filter (!wasApplied report.files ·), report.notes] := by
  obtain ⟨r, hrun, -⟩ := check_castBehindName
  obtain ⟨first, report, hfirst, -, hreport, hviolations, -⟩ :=
    fixing_report fixOnlyFile (onlyFile castBehindName) {} r rfl rfl rfl rfl hrun
  exact ⟨r, first, report, hrun, hfirst, hreport, hviolations⟩

set_option maxRecDepth 10000 in
/-- A report that is not that of a second check: the cast is reported where it stood before the name in
front of it was fixed. -/
theorem exists_report_behind :
    ∃ (target : CheckTarget) (w : World) (r second : CheckResult) (v : Violation),
      target.config.fix = true ∧ target.config.timeout = none ∧ target.config.formatter.enabled = false ∧
      target.check w {} = .ok r ∧ target.withoutFix.check { w with tree := r.tree } {} = .ok second ∧
      v ∈ r.violations ∧ v.ruleId ≠ "engine/fix-rejected" ∧
      ∀ u ∈ second.violations, ¬ (u.ruleId = v.ruleId ∧ u.message = v.message ∧ u.line = v.line ∧
        u.location.bind (·.startColumn) = v.location.bind (·.startColumn)) := by
  obtain ⟨r, hrun, hfound⟩ := check_castBehindName
  obtain ⟨-, hviolations, -, htree⟩ := check_fixing rfl rfl rfl hrun
  rw [hfound] at hviolations htree
  have hraw : fixOnlyFile.rawReport (onlyFile castBehindName).base (onlyFile castBehindName).tree
      [onlyPath] = beforeFix := rawReport_before
  rw [hraw] at hviolations htree
  have hfixed : r.tree.Holds onlyPath onlyPath (Utf8.encode castBehindFixedName) := by
    rw [htree]
    exact holds_fixed _
  obtain ⟨second, hsecond, -, hsecondviolations⟩ := check_withoutFix
    (w := { onlyFile castBehindName with tree := r.tree }) {} rfl rfl (files_onlyFile hfixed)
  have hafter : fixOnlyFile.rawReport ⟨1, []⟩ r.tree [onlyPath] = afterFix :=
    (reportedOn_castBehindFixedName.rawReport hfixed rfl).trans afterFix_eq.symm
  have hcast : ∃ v ∈ beforeFix, v.isFixable = false ∧ v.ruleId ≠ "engine/fix-rejected" ∧
      ∀ u ∈ afterFix, ¬ (u.ruleId = v.ruleId ∧ u.message = v.message ∧ u.line = v.line ∧
        u.location.bind (·.startColumn) = v.location.bind (·.startColumn)) := by
    rw [beforeFix_eq, afterFix_eq]
    refine ⟨castAt 7, by simp, isFixable_castAt 7, by decide, fun u hu hsame => ?_⟩
    obtain rfl := List.mem_singleton.mp hu
    exact absurd hsame.2.2.2 (by decide)
  obtain ⟨v, hv, hfixable, hid, hmoved⟩ := hcast
  refine ⟨fixOnlyFile, onlyFile castBehindName, r, second, v, rfl, rfl, rfl, hrun, hsecond, ?_, hid, ?_⟩
  · rw [hviolations]
    refine (FileTree.mem_violations_fix_iff (rawReport_before ▸ aggregate_onePerIdentity _)
      holdsEach_before rfl hv).mpr ?_
    unfold wasApplied
    rw [hfixable]
    rfl
  · rw [show second.violations = afterFix from hsecondviolations.trans hafter]
    exact hmoved

end CheckTarget

end HouseStyle
