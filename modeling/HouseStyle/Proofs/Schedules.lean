import HouseStyle.Proofs.FixingRun
import HouseStyle.Proofs.FormatterPass
import Mathlib.Data.List.Basic

/-!
# Runs on a pool of workers

With several workers the tasks of a phase get their turns in some other order (`TurnOrder`): those that check
the files, then those that fix them, then those that ask the formatter about them. Each result goes in the
slot of its input, and a phase is over before the next one starts. The tasks of a phase are apart, so the
order makes no difference (`TurnOrder.run_of_tasksApart`), and a run on a pool gives what a run with one worker gives
(`pooled_run`).
-/

namespace HouseStyle

open FileTree (inTurn TasksApart DoneApart HoldsEach AgreesAt)

variable {β : Type}

/-- An order in which tasks get their turns: their inputs, with their numbers, put in some other order. -/
structure TurnOrder where
  arrange : List (SourcePath × Nat) → List (SourcePath × Nat)
  perm : ∀ inputs, (arrange inputs).Perm inputs

namespace TurnOrder

/-- Tasks that get their turns in an order: what they give, each in the slot of its input, and the tree that
they leave. -/
def run (order : TurnOrder) (task : FileTree → SourcePath → β × FileTree) (t : FileTree)
    (ps : List SourcePath) : List β × FileTree :=
  let turns := order.arrange ps.zipIdx
  let (results, t) := inTurn task t (turns.map (·.1))
  let slots := (turns.map (·.2)).zip results
  (ps.zipIdx.filterMap fun (_, k) => slots.lookup k, t)

end TurnOrder

/-- The orders of the three phases of a run. -/
structure Schedule where
  checks : TurnOrder
  fixes : TurnOrder
  formats : TurnOrder

/-- What a run on a pool gives. -/
structure PooledResult where
  /-- The files that were checked. -/
  files : List SourcePath
  violations : List Violation
  status : RunStatus
  incomplete : Bool
  fix : Option FixReport
  tree : FileTree

/-- A run on a pool gives the same as a run with one worker, and the files hold the same. -/
structure PooledResult.SameAs (r : PooledResult) (s : CheckResult) : Prop where
  files : r.files = s.files
  violations : r.violations = s.violations
  status : r.status = s.status
  incomplete : r.incomplete = s.incomplete
  fix : r.fix = s.fix
  contents : ∀ x, FileTree.entry? r.tree x = FileTree.entry? s.tree x

/-- A world in which the formatter answers by what a file holds in a tree. -/
def World.answering (w : World) (formatter : SourcePath → List UInt8 → Nat → SpawnOutcome) (t : FileTree) :
    World :=
  { w with spawn := fun p => formatter p ((t.file? p).getD []) }

namespace CheckTarget

/-- The check of one file, as a task of its own. -/
def checkTask (target : CheckTarget) (base : SourcePath) (isOneOfMany : Bool) (t : FileTree) (p : SourcePath) :
    FileOutcome × FileTree :=
  (target.checkFile base t isOneOfMany p, t)

/-- The report on what became of files. -/
def fixReport (mode : FixMode) (vs : List Violation) (files : List FileFix) : FixReport :=
  { files
    violations := aggregate [if mode.dryRun then vs else vs.filter (!wasApplied files ·),
      files.filterMap (·.rejection)]
    dryRun := mode.dryRun }

/-- What becomes of the report and the tree before the formatter is asked. -/
def fixPooled (target : CheckTarget) (w : World) (mode : FixMode) (order : TurnOrder) (t : FileTree)
    (vs : List Violation) : List Violation × Option FixReport × FileTree :=
  if target.config.fix then
    let (files, t) := order.run (FileTree.fixTask mode w.base target.root vs) t (fixablePaths vs)
    let report := fixReport mode vs files
    (report.violations, some report, t)
  else (vs, none, t)

/-- What the formatter adds to the report. It answers by what a file holds when its turn comes. -/
def formatPooled (target : CheckTarget) (w : World)
    (formatter : SourcePath → List UInt8 → Nat → SpawnOutcome) (mode : FixMode) (order : TurnOrder)
    (checked : List SourcePath) (t : FileTree) (vs : List Violation) : List Violation × FileTree :=
  if target.config.formatter.enabled then
    let writeBack := target.config.fix && !mode.dryRun
    let (notes, t) := order.run (target.formatTask (w.answering formatter) writeBack) t
      (checked.filter fun p => (t.file? p).isSome)
    (aggregate [vs, notes.flatten], t)
  else (vs, t)

/-- A run without a time limit on a pool of workers. -/
def checkPooled (target : CheckTarget) (w : World)
    (formatter : SourcePath → List UInt8 → Nat → SpawnOutcome) (mode : FixMode) (schedule : Schedule) :
    Except RunFault PooledResult := do
  let found ← target.files w
  let (outcomes, t) :=
    schedule.checks.run (target.checkTask w.base (decide (1 < found.length))) w.tree found
  let vs := aggregate (outcomes.filterMap (·.violations) ++ [target.unknownRuleNotes])
  let (vs, fix, t) := target.fixPooled w mode schedule.fixes t vs
  let (vs, t) := target.formatPooled w formatter mode schedule.formats found t vs
  return { files := found, violations := vs, fix, tree := t, incomplete := false
           status := runStatus vs target.config.failOnError false }

end CheckTarget

/-! ## One phase -/

theorem lookup_of_mem {α : Type} {k : Nat} {a : α} {pairs : List (Nat × α)}
    (hkeys : (pairs.map (·.1)).Nodup) (h : (k, a) ∈ pairs) : pairs.lookup k = some a := by
  obtain ⟨front, back, rfl⟩ := List.append_of_mem h
  refine List.lookup_eq_some_iff.mpr ⟨front, back, rfl, ?_⟩
  intro pair hpair
  rw [List.map_append, List.nodup_append] at hkeys
  have hne := hkeys.2.2 pair.1 (List.mem_map.mpr ⟨pair, hpair, rfl⟩) k
    (List.mem_map.mpr ⟨(k, a), List.mem_cons_self, rfl⟩)
  simpa using Ne.symm hne

/-- Two trees in which every place holds the same. -/
structure FileTree.Alike (s t : FileTree) : Prop where
  entry : ∀ x, s.entry? x = t.entry? x
  directories : ∀ d, s.isDirectory d = t.isDirectory d

namespace FileTree.Alike

variable {s t : FileTree}

theorem refl (t : FileTree) : Alike t t := ⟨fun _ => rfl, fun _ => rfl⟩

theorem agreesAt (h : Alike s t) (p : SourcePath) : AgreesAt s t p := by
  refine ⟨h.directories, fun x _ => h.entry x, fun x _ => ?_⟩
  unfold isFile
  rw [h.entry]

theorem file? (h : Alike s t) (p : SourcePath) : s.file? p = t.file? p := by
  refine Option.ext fun bytes => ?_
  simp only [file?_eq_some_iff, read?_eq_ok_iff]
  have hholds : ∀ place, s.Holds p place bytes ↔ t.Holds p place bytes := by
    intro place
    have hleads : s.follow p = .ok place ↔ t.follow p = .ok place := follow_eq_ok_iff h.directories
    exact ⟨fun hs => ⟨hleads.mp hs.leads, (h.entry place).symm.trans hs.stands⟩,
      fun ht => ⟨hleads.mpr ht.leads, (h.entry place).trans ht.stands⟩⟩
  simp only [hholds]

end FileTree.Alike

section Phase

variable {task task' : FileTree → SourcePath → β × FileTree} {agrees : FileTree → SourcePath → Prop}
  {s t : FileTree} {ps : List SourcePath}

namespace TurnOrder

theorem mem_arrange_map (order : TurnOrder) {p : SourcePath} :
    p ∈ (order.arrange ps.zipIdx).map (·.1) ↔ p ∈ ps := by
  rw [((order.perm ps.zipIdx).map (·.1)).mem_iff, List.zipIdx_map_fst]

/-- What the tasks give that get their turns in an order, if each gives what it gives by itself. -/
theorem slots_eq (order : TurnOrder) (f : SourcePath → β) {results : List β}
    (hresults : results = ((order.arrange ps.zipIdx).map (·.1)).map f) :
    (ps.zipIdx.filterMap fun (_, k) => (((order.arrange ps.zipIdx).map (·.2)).zip results).lookup k) =
      ps.map f := by
  have hslots : ((order.arrange ps.zipIdx).map (·.2)).zip results =
      (order.arrange ps.zipIdx).map fun turn => (turn.2, f turn.1) := by
    rw [hresults, List.map_map, List.zip_map']
    rfl
  have hkeys : (((order.arrange ps.zipIdx).map fun turn => (turn.2, f turn.1)).map (·.1)).Nodup := by
    rw [List.map_map]
    refine ((order.perm ps.zipIdx).map (·.2)).nodup_iff.mpr ?_
    rw [List.zipIdx_map_snd]
    exact List.nodup_range'
  rw [hslots]
  have hlookup : ∀ input ∈ ps.zipIdx,
      ((order.arrange ps.zipIdx).map fun turn => (turn.2, f turn.1)).lookup input.2 = some (f input.1) := by
    intro input hinput
    refine lookup_of_mem hkeys (List.mem_map.mpr ⟨input, ?_, rfl⟩)
    exact (order.perm ps.zipIdx).mem_iff.mpr hinput
  rw [List.filterMap_congr hlookup]
  show ps.zipIdx.filterMap (some ∘ f ∘ Prod.fst) = ps.map f
  rw [List.filterMap_eq_map, ← List.map_map, List.zipIdx_map_fst]

/-- Tasks that are apart give what they give in turn, whatever the order, and leave a tree in which every
place holds what it holds then. -/
theorem run_of_tasksApart (order : TurnOrder) (h : TasksApart task t agrees ps)
    (h' : TasksApart task' t agrees ps) (halone : ∀ p ∈ ps, task' t p = task t p) (hnodup : ps.Nodup)
    (hs : ∀ p ∈ ps, agrees s p) (ht : ∀ p ∈ ps, agrees t p) (halike : s.Alike t) :
    (order.run task s ps).1 = (inTurn task' t ps).1 ∧
      (order.run task s ps).2.Alike (inTurn task' t ps).2 := by
  have hmem : ∀ p, p ∈ (order.arrange ps.zipIdx).map (·.1) ↔ p ∈ ps := fun p => order.mem_arrange_map
  have hnodup' : ((order.arrange ps.zipIdx).map (·.1)).Nodup := by
    refine ((order.perm ps.zipIdx).map (·.1)).nodup_iff.mpr ?_
    rwa [List.zipIdx_map_fst]
  have hserial : DoneApart task' t t ps := h'.doneApart hnodup ht
  have hpooled : DoneApart task s t ((order.arrange ps.zipIdx).map (·.1)) :=
    (h.mono fun p => (hmem p).mp).doneApart hnodup' fun p hp => hs p ((hmem p).mp hp)
  have hchanges : ∀ p ∈ ps, ∀ x, FileTree.Changes task' t p x ↔ FileTree.Changes task t p x := by
    intro p hp x
    unfold FileTree.Changes
    rw [halone p hp]
  refine ⟨?_, fun x => ?_, fun d => ?_⟩
  · rw [hserial.results, List.map_congr_left fun p hp => congrArg Prod.fst (halone p hp)]
    exact order.slots_eq (fun p => (task t p).1) hpooled.results
  · show FileTree.entry? (inTurn task s _).2 x = _
    by_cases hsome : ∃ p ∈ ps, FileTree.Changes task t p x
    · obtain ⟨p, hp, hchanged⟩ := hsome
      rw [hserial.changed p hp x ((hchanges p hp x).mpr hchanged),
        hpooled.changed p ((hmem p).mpr hp) x hchanged, halone p hp]
    · have hnone : ∀ p ∈ ps, ¬ FileTree.Changes task t p x := fun p hp h => hsome ⟨p, hp, h⟩
      rw [hserial.untouched x fun p hp h => hnone p hp ((hchanges p hp x).mp h),
        hpooled.untouched x fun p hp => hnone p ((hmem p).mp hp), halike.entry]
  · show (inTurn task s _).2.isDirectory d = _
    rw [hserial.directories, hpooled.directories, halike.directories]

end TurnOrder

end Phase

/-! ## The phases of a run -/

namespace CheckTarget

variable {target : CheckTarget} {w : World} {mode : FixMode} {found : List SourcePath} {s t : FileTree}
  {formatter : SourcePath → List UInt8 → Nat → SpawnOutcome}

/-- No check of a file changes the tree, so in any order the files are checked as they were found. -/
theorem run_checkTask (order : TurnOrder) (base : SourcePath) (isOneOfMany : Bool) :
    order.run (target.checkTask base isOneOfMany) t found =
      (found.map (target.checkFile base t isOneOfMany), t) := by
  have hturns : ∀ ps, inTurn (target.checkTask base isOneOfMany) t ps =
      (ps.map (target.checkFile base t isOneOfMany), t) := by
    intro ps
    induction ps with
    | nil => rfl
    | cons p ps ih =>
      show (let (results, t') := inTurn (target.checkTask base isOneOfMany) t ps
        (target.checkFile base t isOneOfMany p :: results, t')) = _
      rw [ih]
      rfl
  refine Prod.ext ?_ ?_
  · exact order.slots_eq (target.checkFile base t isOneOfMany) (congrArg Prod.fst (hturns _))
  · show (inTurn (target.checkTask base isOneOfMany) t _).2 = t
    rw [hturns]

/-- The files are fixed as they are with one worker. -/
theorem fixPooled_eq (target : CheckTarget) (w : World) (mode : FixMode) (order : TurnOrder)
    (hplain : ∀ p ∈ found, p.IsPlain) :
    let vs := target.rawReport w.base w.tree found
    let pooled := target.fixPooled w mode order w.tree vs
    let serial := target.fixPhase w mode vs
    pooled.1 = serial.1 ∧ pooled.2.1 = serial.2.1 ∧ pooled.2.2.Alike serial.2.2.1 := by
  intro vs
  unfold fixPooled fixPhase
  by_cases hfix : target.config.fix = true
  · have hps : w.tree.HoldsEach (fixablePaths vs) := holdsEach_rawReport target w.base hplain
    obtain ⟨hfiles, htree⟩ := FileTree.fixFiles_eq_inTurn mode w.base target.root vs w.tree (fixablePaths vs)
    obtain ⟨hresults, halike⟩ := order.run_of_tasksApart hps.tasksApart hps.tasksApart (fun _ _ => rfl)
      (nodup_fixablePaths vs) (fun p _ => AgreesAt.refl w.tree p) (fun p _ => AgreesAt.refl w.tree p)
      (FileTree.Alike.refl w.tree)
    rw [← hfiles] at hresults
    rw [← htree] at halike
    have hreport : fixReport mode vs (order.run (FileTree.fixTask mode w.base target.root vs) w.tree
        (fixablePaths vs)).1 = (w.tree.fix mode w.base target.root vs).1 := by
      rw [hresults]
      rfl
    rw [if_pos hfix, if_pos hfix]
    exact ⟨congrArg FixReport.violations hreport, congrArg some hreport, halike⟩
  · rw [if_neg hfix, if_neg hfix]
    exact ⟨rfl, rfl, FileTree.Alike.refl w.tree⟩

/-- The formatter gives for the files what it gives with one worker, if it answers by what a file holds. -/
theorem formatPooled_eq (target : CheckTarget) (w : World)
    (formatter : SourcePath → List UInt8 → Nat → SpawnOutcome) (mode : FixMode) (order : TurnOrder)
    (hplain : ∀ p ∈ found, p.IsPlain) (hnodup : found.Nodup) (halike : s.Alike t) (vs : List Violation) :
    let pooled := target.formatPooled w formatter mode order found s vs
    let serial := target.formatPhase (w.answering formatter t) mode found t vs
    pooled.1 = serial.1 ∧ pooled.2.Alike serial.2.1 := by
  unfold formatPooled formatPhase
  by_cases hformat : target.config.formatter.enabled = true
  · rw [if_pos hformat, if_pos hformat]
    have hsame : (found.filter fun p => (s.file? p).isSome) = found.filter fun p => (t.file? p).isSome :=
      List.filter_congr fun p _ => by rw [halike.file?]
    dsimp only
    rw [hsame]
    have hps : t.HoldsEach (found.filter fun p => (t.file? p).isSome) := by
      refine FileTree.holdsEach_of_isPlain (fun p hp => hplain p (List.mem_filter.mp hp).1) ?_
      intro p hp
      obtain ⟨place, bytes, hholds⟩ := FileTree.exists_holds_of_isSome (List.mem_filter.mp hp).2
      exact ⟨bytes, hholds.read?⟩
    have hworld : ∀ p ∈ found.filter fun p => (t.file? p).isSome, ∀ s', s'.file? p = t.file? p →
        (w.answering formatter s').spawn p = (w.answering formatter t).spawn p := by
      intro p _ s' hs'
      show formatter p ((s'.file? p).getD []) = formatter p ((t.file? p).getD [])
      rw [hs']
    obtain ⟨hnotes, htree⟩ := formatFiles_eq_inTurn target (w.answering formatter t)
      (target.config.fix && !mode.dryRun) t (found.filter fun p => (t.file? p).isSome)
    obtain ⟨hresults, halike'⟩ := order.run_of_tasksApart (formatsApart hps (w.answering formatter) hworld)
      (formatsApart hps (fun _ => w.answering formatter t) fun _ _ _ _ => rfl) (fun _ _ => rfl)
      (hnodup.filter _) (fun p _ => halike.agreesAt p) (fun p _ => AgreesAt.refl t p) halike
    refine ⟨?_, htree ▸ halike'⟩
    rw [hnotes, ← hresults]
  · rw [if_neg hformat, if_neg hformat]
    exact ⟨rfl, halike⟩

theorem checkPooled_eq (target : CheckTarget) (w : World)
    (formatter : SourcePath → List UInt8 → Nat → SpawnOutcome) (mode : FixMode) (schedule : Schedule)
    (hfound : target.files w = .ok found) :
    let fixed := target.fixPooled w mode schedule.fixes w.tree (target.rawReport w.base w.tree found)
    let formatted := target.formatPooled w formatter mode schedule.formats found fixed.2.2 fixed.1
    target.checkPooled w formatter mode schedule =
      .ok { files := found, violations := formatted.1, fix := fixed.2.1, tree := formatted.2
            incomplete := false, status := runStatus formatted.1 target.config.failOnError false } := by
  unfold checkPooled
  rw [hfound]
  simp only [bind, Except.bind, run_checkTask, filterMap_violations]
  rfl

end CheckTarget

/-! ## Two files whose tasks are done backwards -/

/-- The last task first. -/
def TurnOrder.backwards : TurnOrder := ⟨List.reverse, List.reverse_perm⟩

/-- A project of two files. -/
def twoFilesWorld : World :=
  { base := ⟨1, []⟩, tree := FileTree.twoFiles, clock := fun _ => .whole 0, spawn := fun _ _ => .timedOut }

/-- The target that asks for fixing and formatting both. -/
def fixTwoFiles : CheckTarget :=
  { root := ⟨1, []⟩, paths := [⟨1, ["a.cpp"]⟩, ⟨1, ["b.cpp"]⟩]
    config := { fix := true, formatter := { enabled := true } } }

/-- A formatter that puts a line end behind whatever it is given. -/
def endingLines (_ : SourcePath) (bytes : List UInt8) (_ : Nat) : SpawnOutcome :=
  .ended 0 (Utf8.decode bytes ++ [.scalar '\n']) []

theorem exists_files_fixTwoFiles : ∃ found, fixTwoFiles.files twoFilesWorld = .ok found := by
  have hallow : ∀ name, name = "a.cpp" ∨ name = "b.cpp" →
      FileTree.twoFiles.allow ⟨1, []⟩ ⟨1, [name]⟩ = .ok () := by
    intro name hname
    unfold FileTree.allow
    rcases hname with rfl | rfl
    all_goals
      rw [if_neg (by simp [SourcePath.isPossible])]
      rfl
  refine ⟨FileTree.twoFiles.filesAt fixTwoFiles.config ⟨1, []⟩ ⟨1, []⟩ fixTwoFiles.paths, ?_⟩
  have hpaths : fixTwoFiles.paths.forM (FileTree.twoFiles.allow ⟨1, []⟩) = .ok () := by
    show ((FileTree.twoFiles.allow ⟨1, []⟩ ⟨1, ["a.cpp"]⟩).bind fun _ =>
      (FileTree.twoFiles.allow ⟨1, []⟩ ⟨1, ["b.cpp"]⟩).bind fun _ => .ok ()) = .ok ()
    rw [hallow _ (Or.inl rfl), hallow _ (Or.inr rfl)]
    rfl
  show (fixTwoFiles.paths.forM (FileTree.twoFiles.allow ⟨1, []⟩)).map _ = _
  rw [hpaths]
  rfl

/-! ## Whole runs -/

/-- **Worker count and scheduling do not matter.** A run without a time limit, in which the formatter answers
by the path of a file and by what it holds when its turn comes, gives the same in every schedule as with one
worker: the same files, violations, status and report on the fixing, and every place holds the same. (With
one worker a file holds at the turn of the formatter what it holds when the files have been fixed.) -/
theorem pooled_run (target : CheckTarget) (w : World)
    (formatter : SourcePath → List UInt8 → Nat → SpawnOutcome) (mode : FixMode) (schedule : Schedule)
    (htimeout : target.config.timeout = none) :
    let serial := target.check (w.answering formatter (target.fixedTree w mode)) mode
    (∀ fault, target.checkPooled w formatter mode schedule = .error fault ↔ serial = .error fault) ∧
      ∀ r, target.checkPooled w formatter mode schedule = .ok r → ∃ s, serial = .ok s ∧ r.SameAs s := by
  intro serial
  have hfiles : target.files (w.answering formatter (target.fixedTree w mode)) = target.files w := rfl
  cases hfound : target.files w with
  | error fault =>
    have hpooled : target.checkPooled w formatter mode schedule = .error fault := by
      unfold CheckTarget.checkPooled
      rw [hfound]
      rfl
    have hserial : serial = .error fault :=
      (CheckTarget.check_eq_error_iff htimeout).mpr (hfiles.trans hfound)
    rw [hpooled, hserial]
    exact ⟨fun _ => by rw [Except.error.injEq, Except.error.injEq], fun r hr => absurd hr (by simp)⟩
  | ok found =>
    obtain ⟨s, hserial, hgives⟩ := CheckTarget.exists_check mode htimeout (hfiles.trans hfound)
    have hplain : ∀ p ∈ found, p.IsPlain := FileTree.isPlain_of_discover hfound
    obtain ⟨hvs, hfix, halike⟩ :=
      CheckTarget.fixPooled_eq target w mode schedule.fixes hplain
    obtain ⟨hviolations, hcontents⟩ :=
      CheckTarget.formatPooled_eq target w formatter mode schedule.formats hplain
        (FileTree.nodup_of_discover hfound) halike
        (target.fixPooled w mode schedule.fixes w.tree (target.rawReport w.base w.tree found)).1
    have hserial : serial = .ok s := hserial
    rw [hvs] at hviolations hcontents
    rw [CheckTarget.checkPooled_eq target w formatter mode schedule hfound, hvs, hserial]
    refine ⟨fun _ => by simp, fun r hr => ⟨s, rfl, ?_⟩⟩
    obtain rfl := Except.ok.inj hr
    rw [CheckTarget.fixedTree_eq hfound] at hgives
    -- the report and the tree of the pool are those of the formatter's turns with one worker
    have hreport := hviolations.trans hgives.violations.symm
    have htree := fun x => (hcontents.entry x).trans (congrArg (FileTree.entry? · x) hgives.tree.symm)
    refine ⟨hgives.files.symm, hreport, ?_, hgives.incomplete.symm, hfix.trans hgives.fix.symm, htree⟩
    rw [hgives.status, ← hreport]

/-- Two files are fixed and formatted backwards. -/
theorem pooled_run_two_files :
    ∃ r s, fixTwoFiles.checkPooled twoFilesWorld endingLines {} ⟨.backwards, .backwards, .backwards⟩ = .ok r ∧
      fixTwoFiles.check (twoFilesWorld.answering endingLines (fixTwoFiles.fixedTree twoFilesWorld {})) {} =
        .ok s ∧
      r.SameAs s := by
  obtain ⟨found, hfound⟩ := exists_files_fixTwoFiles
  have hpooled := CheckTarget.checkPooled_eq fixTwoFiles twoFilesWorld endingLines {}
    ⟨.backwards, .backwards, .backwards⟩ hfound
  obtain ⟨s, hserial, hsame⟩ := (pooled_run fixTwoFiles twoFilesWorld endingLines {}
    ⟨.backwards, .backwards, .backwards⟩ rfl).2 _ hpooled
  exact ⟨_, s, hpooled, hserial, hsame⟩

end HouseStyle
