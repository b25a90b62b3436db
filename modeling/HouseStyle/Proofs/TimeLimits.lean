import HouseStyle.Proofs.Quantities
import HouseStyle.Proofs.RuleReports

/-!
# Runs with a time limit

The first reading of the clock and the limit give the deadline of a run, and a file is skipped if the clock has
reached the deadline at its turn. A clock that does not run backwards stays there, so the files that are checked
come first in the list (`turns_eq`), and all that follows is done for these alone: the report, the fixes, the
formatter and the status (`CutAfter`).

The files that are checked should be those whose readings are below the deadline. That is so if the deadline is
a number (`cut_exact_iff`). The configuration also accepts a limit that is not one, since such a limit is not
zero or less; no reading is below the deadline then, and none has reached it either, so every file is checked
(`exists_limit_without_effect`).
-/

namespace HouseStyle

/-! ## Which turns come in time -/

namespace World

variable {w : World} {deadline : Quantity}

/-- The clock does not run backwards. -/
def ClockRuns (w : World) : Prop := ∀ k, (w.clock k).le (w.clock (k + 1)) = true

theorem ClockRuns.isNumber (h : w.ClockRuns) (k : Nat) : (w.clock k).IsNumber :=
  Quantity.isNumber_of_le_left (h k)

theorem ClockRuns.le (h : w.ClockRuns) {j k : Nat} (hjk : j ≤ k) : (w.clock j).le (w.clock k) = true := by
  induction k, hjk using Nat.le_induction with
  | base => exact (h.isNumber j).le_refl
  | succ k _ ih => exact Quantity.le_trans ih (h k)

/-- How many of the first turns come before the clock reaches a deadline. -/
def turnsInTime (w : World) (deadline : Quantity) (total : Nat) : Nat :=
  (List.range total).findIdx fun k => deadline.le (w.clock (k + 1))

theorem turnsInTime_le (w : World) (deadline : Quantity) (total : Nat) : w.turnsInTime deadline total ≤ total :=
  List.findIdx_le_length.trans_eq List.length_range

/-- A turn comes in time if the clock has not reached the deadline by then. -/
theorem ClockRuns.lt_turnsInTime_iff (h : w.ClockRuns) {k total : Nat} (hk : k < total) :
    k < w.turnsInTime deadline total ↔ deadline.le (w.clock (k + 1)) = false := by
  constructor
  · intro hlt
    have hnot := List.not_of_lt_findIdx hlt
    rwa [List.getElem_range] at hnot
  · intro hbefore
    by_contra hge
    have hle : w.turnsInTime deadline total ≤ k := Nat.le_of_not_lt hge
    -- the deadline has been reached at the first turn that comes too late, and so it has at this one
    have hfirst : deadline.le (w.clock (w.turnsInTime deadline total + 1)) = true := by
      have hlt : (List.range total).findIdx (fun k => deadline.le (w.clock (k + 1))) <
          (List.range total).length := by
        rw [List.length_range]
        exact hle.trans_lt hk
      have hfound := List.findIdx_getElem (w := hlt)
      rwa [List.getElem_range] at hfound
    rw [Quantity.le_trans hfirst (h.le (Nat.succ_le_succ hle))] at hbefore
    exact absurd hbefore (by simp)

end World

namespace CheckTarget

variable {target : CheckTarget} {w : World} {mode : FixMode} {ps : List SourcePath} {n : Nat}
  {deadline : Quantity} {r : CheckResult}

/-! ## A run over given files -/

/-- A run over some files. -/
def checkFiles (target : CheckTarget) (w : World) (mode : FixMode) (ps : List SourcePath) :
    Except RunFault CheckResult := do
  let deadline ← target.deadline (w.clock 0)
  let outcomes := ps.zipIdx.map fun (p, k) =>
    target.turn w.base w.tree (decide (1 < ps.length)) deadline (w.clock (k + 1)) p
  return target.conclude w mode outcomes

/-- A run over a target is one over the files that it finds. -/
theorem check_eq_checkFiles (target : CheckTarget) (w : World) (mode : FixMode) :
    target.check w mode = (target.files w).bind (target.checkFiles w mode) := rfl

/-- What the turns of some files give if all but the first `n` come too late. -/
def outcomesUpTo (target : CheckTarget) (w : World) (ps : List SourcePath) (n : Nat) : List FileOutcome :=
  (ps.take n).map (target.checkFile w.base w.tree (decide (1 < ps.length))) ++
    (ps.drop n).map fun p => { path := p, violations := none }

/-- The files whose turns come in time are the first ones. -/
theorem turns_eq (hclock : w.ClockRuns) :
    (ps.zipIdx.map fun z => target.turn w.base w.tree (decide (1 < ps.length)) (some deadline)
        (w.clock (z.2 + 1)) z.1) =
      target.outcomesUpTo w ps (w.turnsInTime deadline ps.length) := by
  have hle := w.turnsInTime_le deadline ps.length
  unfold outcomesUpTo
  refine List.ext_getElem ?_ fun k hk _ => ?_
  · simp [hle]
  · have hk : k < ps.length := by simpa using hk
    have hturn : k < w.turnsInTime deadline ps.length ↔ deadline.le (w.clock (k + 1)) = false :=
      hclock.lt_turnsInTime_iff hk
    rw [List.getElem_map, List.getElem_zipIdx, Nat.zero_add, turn, Option.any_some, List.getElem_append]
    by_cases hin : k < w.turnsInTime deadline ps.length
    · rw [hturn.mp hin, dif_pos (by simpa [hle] using hin)]
      simp
    · rw [Bool.not_eq_false _ |>.mp (mt hturn.mpr hin), dif_neg (by simpa [hle] using hin)]
      simp [hle, Nat.add_sub_cancel' (Nat.le_of_not_lt hin)]

theorem checkFiles_eq (mode : FixMode) (ps : List SourcePath) {limit : Quantity}
    (hlimit : target.config.timeout = some limit) (hdeadline : (w.clock 0).add? limit = some deadline)
    (hclock : w.ClockRuns) :
    target.checkFiles w mode ps =
      .ok (target.conclude w mode (target.outcomesUpTo w ps (w.turnsInTime deadline ps.length))) := by
  rw [← turns_eq hclock]
  unfold checkFiles CheckTarget.deadline
  rw [hlimit]
  dsimp only
  rw [hdeadline]
  rfl

/-! ## What is left to do for the files that were checked -/

/-- The note on files that were skipped. -/
def incompleteNote (skipped total : Nat) : Violation :=
  engineNote "incomplete-run" .warning
    ("Timeout reached: " ++ toString skipped ++ " of " ++ toString total ++ " file(s) were not checked.") none 1

/-- Whether a violation is a note on skipped files. -/
def isIncompleteNote (v : Violation) : Bool := v.ruleId == "engine/incomplete-run"

/-- The note on the files behind the first `n` of `total` files, if there are any. -/
def notesBehind (n total : Nat) : List Violation :=
  if n < total then [incompleteNote (total - n) total] else []

/-- The report on the first `n` of some files, before anything is fixed: what is reported on each of them in a
project of all the files, the notes on the configuration, and the note on the files behind them. -/
def reportUpTo (target : CheckTarget) (w : World) (ps : List SourcePath) (n : Nat) : List Violation :=
  aggregate ((ps.take n).map (target.reportBy (Rule.enabled target.config) w ps) ++
    [target.unknownRuleNotes ++ notesBehind n ps.length])

/-- A run over some files that is cut after the first `n` of them. The other files have no part in the report,
beside the note that tells how many they are; nothing is fixed in them, the formatter is not asked about them,
and they hold what they held; and the run is incomplete, unless it fails. -/
structure CutAfter (target : CheckTarget) (w : World) (ps : List SourcePath) (n : Nat) (r : CheckResult) :
    Prop where
  found : r.found = ps
  files : r.files = ps.take n
  report : target.config.fix = false → target.config.formatter.enabled = false →
    r.violations = target.reportUpTo w ps n
  noted : r.violations.filter isIncompleteNote = notesBehind n ps.length
  fixed : ∀ report, r.fix = some report → ∀ f ∈ report.files, f.path ∈ ps.take n
  formatted : ∀ call ∈ r.calls, ∃ p ∈ ps.take n, call = target.config.formatter.command ++ [p.toString]
  others : ∀ x, w.tree.isFile x = true → (∀ p ∈ ps.take n, w.tree.follow p ≠ .ok x) →
    r.tree.entry? x = w.tree.entry? x
  fails : r.status = .fail ↔ target.config.failOnError = true ∧ ∃ v ∈ r.violations, v.severity = .error
  incomplete : r.status = .incomplete ↔ n < ps.length ∧ r.status ≠ .fail

theorem skippedNotes_eq (hn : n ≤ ps.length) : skippedNotes (ps.length - n) ps.length = notesBehind n ps.length := by
  unfold skippedNotes notesBehind incompleteNote skippedText
  by_cases hlt : n < ps.length
  · rw [if_neg (by omega), if_pos hlt]
    simp only [String.append_assoc]
    rfl
  · rw [if_pos (by omega), if_neg hlt]

theorem reportOn_eq_reportBy (p : SourcePath) :
    target.reportOn w.base w.tree (decide (1 < ps.length)) p =
      target.reportBy (Rule.enabled target.config) w ps p := by
  unfold reportOn checkFile reportBy source?
  cases w.tree.file? p <;> rfl

theorem paths_outcomesUpTo (target : CheckTarget) (w : World) (ps : List SourcePath) (n : Nat) :
    (target.outcomesUpTo w ps n).map (·.path) = ps := by
  unfold outcomesUpTo
  rw [List.map_append, List.map_map, List.map_map]
  have hpath : ∀ p, ((·.path) ∘ target.checkFile w.base w.tree (decide (1 < ps.length))) p = p :=
    fun p => path_checkFile
  rw [List.map_congr_left fun p _ => hpath p]
  simp [Function.comp_def]

theorem checked_outcomesUpTo (target : CheckTarget) (w : World) (ps : List SourcePath) (n : Nat) :
    ((target.outcomesUpTo w ps n).filter (·.violations.isSome)).map (·.path) = ps.take n := by
  unfold outcomesUpTo
  rw [List.filter_append, List.filter_map, List.filter_map]
  have hchecked : ∀ p, ((·.violations.isSome) ∘ target.checkFile w.base w.tree (decide (1 < ps.length))) p = true :=
    fun p => by simp [violations_checkFile]
  have hpath : ∀ p, ((·.path) ∘ target.checkFile w.base w.tree (decide (1 < ps.length))) p = p :=
    fun p => path_checkFile
  rw [List.filter_eq_self.mpr fun p _ => hchecked p, List.filter_eq_nil_iff.mpr (by simp), List.map_nil,
    List.append_nil, List.map_map, List.map_congr_left fun p _ => hpath p, List.map_id']

theorem results_outcomesUpTo (target : CheckTarget) (w : World) (ps : List SourcePath) (n : Nat) :
    (target.outcomesUpTo w ps n).filterMap (·.violations) =
      (ps.take n).map (target.reportBy (Rule.enabled target.config) w ps) := by
  have hskipped : ((ps.drop n).map fun p => (⟨p, none, []⟩ : FileOutcome)).filterMap (·.violations) = [] := by
    refine List.filterMap_eq_nil_iff.mpr fun o ho => ?_
    obtain ⟨p, -, rfl⟩ := List.mem_map.mp ho
    rfl
  unfold outcomesUpTo
  rw [List.filterMap_append, filterMap_violations, hskipped, List.append_nil,
    List.map_congr_left fun p _ => reportOn_eq_reportBy p]

theorem reportOn_of_mem_outcomesUpTo :
    ∀ o ∈ target.outcomesUpTo w ps n, ∀ vs, o.violations = some vs →
      vs = target.reportOn w.base w.tree (decide (1 < ps.length)) o.path := by
  intro o ho vs hvs
  rcases List.mem_append.mp ho with ho | ho
  · obtain ⟨p, -, rfl⟩ := List.mem_map.mp ho
    rw [path_checkFile]
    exact Option.some.inj (hvs.symm.trans violations_checkFile)
  · obtain ⟨p, -, rfl⟩ := List.mem_map.mp ho
    exact absurd hvs (by simp)

theorem reportUpTo_eq (hn : n ≤ ps.length) :
    target.reportUpTo w ps n = aggregate ((target.outcomesUpTo w ps n).filterMap (·.violations) ++
      [target.unknownRuleNotes ++ skippedNotes (ps.length - n) ps.length]) := by
  rw [results_outcomesUpTo, skippedNotes_eq hn]
  rfl

/-- Only files that were checked have fixes in the report. -/
theorem mem_take_of_mem_fixablePaths (hn : n ≤ ps.length) {p : SourcePath}
    (h : p ∈ fixablePaths (target.reportUpTo w ps n)) : p ∈ ps.take n := by
  rw [reportUpTo_eq hn] at h
  rw [← checked_outcomesUpTo target w ps n]
  exact (checked_of_mem_fixablePaths reportOn_of_mem_outcomesUpTo h).1

/-! ### The note on skipped files -/

theorem isIncompleteNote_congr (u v : Violation) (h : u.identity = v.identity) :
    isIncompleteNote u = isIncompleteNote v :=
  congrArg (· == "engine/incomplete-run") (congrArg Identity.ruleId h)

theorem isIncompleteNote_of_mem_reportBy {p : SourcePath} {v : Violation}
    (h : v ∈ target.reportBy (Rule.enabled target.config) w ps p) : isIncompleteNote v = false := by
  have hid : v.ruleId ≠ "engine/incomplete-run" := by
    unfold reportBy source? at h
    cases hfile : w.tree.file? p with
    | none =>
      rw [hfile] at h
      rw [List.mem_singleton.mp h]
      show "engine/unreadable-file" ≠ _
      decide
    | some bytes =>
      rw [hfile] at h
      have hdetected : v ∈ detectEnabled (.ofText target.config (decide (1 < ps.length)) p (Utf8.decode bytes)) := h
      rcases ruleId_of_mem_detectEnabled hdetected with hid | hid | hid
      · intro heq
        rw [heq] at hid
        exact absurd hid (by decide)
      all_goals
        rw [hid]
        decide
  exact beq_eq_false_iff_ne.mpr hid

theorem filter_notesBehind (n total : Nat) : (notesBehind n total).filter isIncompleteNote = notesBehind n total := by
  unfold notesBehind
  split <;> rfl

theorem firstOfEach_notesBehind (n total : Nat) : firstOfEach [] (notesBehind n total) = notesBehind n total := by
  unfold notesBehind
  split <;> rfl

theorem eq_notesBehind_of_perm {vs : List Violation} {total : Nat} (h : vs.Perm (notesBehind n total)) :
    vs = notesBehind n total := by
  unfold notesBehind at h ⊢
  split
  · rw [if_pos ‹_›] at h
    exact List.perm_singleton.mp h
  · rw [if_neg ‹_›] at h
    exact h.eq_nil

/-- Before anything is fixed the report has one note on skipped files if there are any. -/
theorem filter_reportUpTo (target : CheckTarget) (w : World) (ps : List SourcePath) (n : Nat) :
    (target.reportUpTo w ps n).filter isIncompleteNote = notesBehind n ps.length := by
  have hfiles : ((ps.take n).map (target.reportBy (Rule.enabled target.config) w ps)).flatten.filter
      isIncompleteNote = [] := by
    refine List.filter_eq_nil_iff.mpr fun v hv => ?_
    obtain ⟨vs, hvs, hv⟩ := List.mem_flatten.mp hv
    obtain ⟨p, -, rfl⟩ := List.mem_map.mp hvs
    rw [isIncompleteNote_of_mem_reportBy hv]
    exact Bool.false_ne_true
  have hrules : target.unknownRuleNotes.filter isIncompleteNote = [] := by
    refine List.filter_eq_nil_iff.mpr fun v hv => ?_
    obtain ⟨id, -, rfl⟩ := List.mem_map.mp hv
    show ¬ (("engine/unknown-rule" == "engine/incomplete-run") = true)
    decide
  have hperm := filter_aggregate isIncompleteNote_congr ((ps.take n).map
    (target.reportBy (Rule.enabled target.config) w ps) ++ [target.unknownRuleNotes ++ notesBehind n ps.length])
  rw [List.flatten_append, List.filter_append, hfiles, List.flatten_singleton, List.filter_append, hrules,
    filter_notesBehind, List.nil_append, List.nil_append] at hperm
  exact eq_notesBehind_of_perm (hperm.trans (.of_eq (firstOfEach_notesBehind n ps.length)))

/-- What a run gives that is cut after the first `n` files, phase by phase. -/
structure PhasesUpTo (target : CheckTarget) (w : World) (mode : FixMode) (ps : List SourcePath) (n : Nat)
    (r : CheckResult) : Prop where
  found : r.found = ps
  files : r.files = ps.take n
  fix : r.fix = (target.fixPhase w mode (target.reportUpTo w ps n)).2.1
  formatted : let fixed := target.fixPhase w mode (target.reportUpTo w ps n)
    let formatted := target.formatPhase w mode (ps.take n) fixed.2.2.1 fixed.1
    r.violations = formatted.1 ∧ r.tree = formatted.2.1 ∧ r.calls = formatted.2.2.1
  status : r.status = runStatus r.violations target.config.failOnError (decide (n < ps.length))

theorem phasesUpTo_conclude (hn : n ≤ ps.length) :
    target.PhasesUpTo w mode ps n (target.conclude w mode (target.outcomesUpTo w ps n)) := by
  have hlength : (ps.take n).length = n := by rw [List.length_take, Nat.min_eq_left hn]
  have hskipped : (0 < ps.length - n) = (n < ps.length) := by rw [Nat.sub_pos_iff_lt]
  unfold conclude
  simp only [paths_outcomesUpTo, checked_outcomesUpTo, hlength, ← reportUpTo_eq hn, hskipped]
  exact ⟨rfl, rfl, rfl, ⟨rfl, rfl, rfl⟩, rfl⟩

namespace PhasesUpTo

section Consequences

variable (h : target.PhasesUpTo w mode ps n r)

include h

theorem report (hfix : target.config.fix = false) (hformat : target.config.formatter.enabled = false) :
    r.violations = target.reportUpTo w ps n := by
  have hfixed : target.fixPhase w mode (target.reportUpTo w ps n) = (target.reportUpTo w ps n, none, w.tree, []) :=
    if_neg (by simp [hfix])
  rw [h.formatted.1, hfixed]
  unfold formatPhase
  rw [hformat]
  rfl

theorem fixed (hn : n ≤ ps.length) {report : FixReport} (hreport : r.fix = some report) :
    ∀ f ∈ report.files, f.path ∈ ps.take n := by
  have hphase := h.fix
  by_cases hfix : target.config.fix = true
  · rw [fixPhase_eq hfix, hreport] at hphase
    obtain rfl := Option.some.inj hphase
    intro f hf
    have hpath := List.mem_map_of_mem (f := FileFix.path) hf
    rw [show (w.tree.fix mode w.base target.root (target.reportUpTo w ps n)).1.files.map (·.path) = _ from
      FileTree.paths_fixFiles mode w.base target.root _ w.tree _] at hpath
    exact mem_take_of_mem_fixablePaths hn hpath
  · rw [show target.fixPhase w mode (target.reportUpTo w ps n) = _ from if_neg hfix, hreport] at hphase
    exact absurd hphase (by simp)

theorem calls {call : List String} (hcall : call ∈ r.calls) :
    ∃ p ∈ ps.take n, call = target.config.formatter.command ++ [p.toString] := by
  rw [h.formatted.2.2] at hcall
  unfold formatPhase at hcall
  split at hcall
  · obtain ⟨p, hp, hcall⟩ := exists_of_mem_calls_formatFiles hcall
    exact ⟨p, (List.mem_filter.mp hp).1, hcall⟩
  · exact absurd hcall List.not_mem_nil

theorem others (hn : n ≤ ps.length) {x : SourcePath} (hfile : w.tree.isFile x = true)
    (hx : ∀ p ∈ ps.take n, w.tree.follow p ≠ .ok x) : r.tree.entry? x = w.tree.entry? x := by
  obtain ⟨hdirectories, hentry⟩ : (∀ d, (target.fixPhase w mode (target.reportUpTo w ps n)).2.2.1.isDirectory d =
      w.tree.isDirectory d) ∧ FileTree.entry? (target.fixPhase w mode (target.reportUpTo w ps n)).2.2.1 x =
        w.tree.entry? x := by
    unfold fixPhase
    split
    · exact ⟨FileTree.isDirectory_fixFiles _, FileTree.entry?_fixFiles_of_isFile hfile fun p hp =>
        hx p (mem_take_of_mem_fixablePaths hn hp)⟩
    · exact ⟨fun _ => rfl, rfl⟩
  rw [h.formatted.2.1]
  refine (entry?_formatPhase fun p hp hleads => hx p hp ?_).trans hentry
  exact (FileTree.follow_eq_ok_iff hdirectories).mp hleads

/-- The note on skipped files stays in the report, and no other one comes in. -/
theorem noted : r.violations.filter isIncompleteNote = notesBehind n ps.length := by
  have hraw := filter_reportUpTo target w ps n
  have hadvice : ∀ v ∈ target.reportUpTo w ps n, isIncompleteNote v = true → v.isFixable = false := by
    intro v hv hpicked
    have hmem : v ∈ notesBehind n ps.length := hraw ▸ List.mem_filter.mpr ⟨hv, hpicked⟩
    unfold notesBehind at hmem
    split at hmem
    · rw [List.mem_singleton.mp hmem]
      exact isFixable_engineNote
    · exact absurd hmem List.not_mem_nil
  obtain ⟨hone, hfixed⟩ := filter_fixPhase target w mode isIncompleteNote_congr
    (fun note hid => by rw [isIncompleteNote, hid]; decide) (aggregate_onePerIdentity _) hadvice
  have hformatted := filter_formatPhase target w mode isIncompleteNote_congr
    (fun note hid => by rcases hid with hid | hid <;> rw [isIncompleteNote, hid] <;> decide) hone (ps.take n)
    (target.fixPhase w mode (target.reportUpTo w ps n)).2.2.1
  rw [h.formatted.1]
  exact eq_notesBehind_of_perm ((hformatted.trans hfixed).trans (.of_eq hraw))

end Consequences

end PhasesUpTo

/-! ### The status -/

theorem runStatus_eq_fail_iff {vs : List Violation} {failOnError incomplete : Bool} :
    runStatus vs failOnError incomplete = .fail ↔
      failOnError = true ∧ ∃ v ∈ vs, v.severity = .error := by
  unfold runStatus
  by_cases hfail : (failOnError && vs.any (·.severity == .error)) = true
  · rw [if_pos hfail]
    simpa using hfail
  · rw [if_neg hfail]
    have hnot : ¬ (failOnError = true ∧ ∃ v ∈ vs, v.severity = .error) := by simpa using hfail
    refine iff_of_false ?_ hnot
    split
    · simp
    · split <;> simp

theorem runStatus_eq_incomplete_iff {vs : List Violation} {failOnError incomplete : Bool} :
    runStatus vs failOnError incomplete = .incomplete ↔
      incomplete = true ∧ runStatus vs failOnError incomplete ≠ .fail := by
  unfold runStatus
  split
  · simp
  · cases incomplete with
    | true => simp
    | false =>
      simp only [Bool.false_eq_true, ↓reduceIte, false_and, iff_false]
      split <;> simp

/-- A run that is cut is cut cleanly. -/
theorem cutAfter_conclude (mode : FixMode) (hn : n ≤ ps.length) :
    target.CutAfter w ps n (target.conclude w mode (target.outcomesUpTo w ps n)) := by
  have h : target.PhasesUpTo w mode ps n _ := phasesUpTo_conclude hn
  refine ⟨h.found, h.files, h.report, h.noted, fun _ => h.fixed hn, fun _ => h.calls, fun _ => h.others hn, ?_, ?_⟩
  · rw [h.status]
    exact runStatus_eq_fail_iff
  · rw [h.status, runStatus_eq_incomplete_iff, decide_eq_true_eq]

/-! ## The cut is where it should be -/

/-- **A time limit cuts a run cleanly, and in the right place if the deadline is a number.** A run over any files
with a time limit, on a clock that does not run backwards, checks the first `n` of them and nothing is done for the
others (`CutAfter`). The files that are checked are those whose readings are below the deadline just if the
deadline is a number or there are no files. The deadline is the sum of the first reading and the limit, rounded as
such sums are; there is one unless a whole number is too large to be rounded. The files may be those that the
target has, which a check runs over, or any others. -/
theorem cut_exact_iff (target : CheckTarget) (w : World) (mode : FixMode) (ps : List SourcePath)
    (limit deadline : Quantity) (hlimit : target.config.timeout = some limit)
    (hdeadline : (w.clock 0).add? limit = some deadline) (hclock : w.ClockRuns) :
    ∃ n r, n ≤ ps.length ∧ target.checkFiles w mode ps = .ok r ∧
      (target.files w = .ok ps → target.check w mode = .ok r) ∧ target.CutAfter w ps n r ∧
      ((∀ k < ps.length, k < n ↔ (w.clock (k + 1)).Below deadline) ↔ deadline.IsNumber ∨ ps = []) := by
  have hn := w.turnsInTime_le deadline ps.length
  have hrun := checkFiles_eq mode ps hlimit hdeadline hclock
  have hcheck : target.files w = .ok ps → target.check w mode = target.checkFiles w mode ps := by
    intro hfiles
    rw [check_eq_checkFiles, hfiles]
    rfl
  refine ⟨w.turnsInTime deadline ps.length, _, hn, hrun, fun hfiles => (hcheck hfiles).trans hrun,
    cutAfter_conclude mode hn, ?_⟩
  constructor
  · intro hexact
    by_contra hnot
    obtain ⟨hnan, hne⟩ := not_or.mp hnot
    -- the first file is checked, though its reading is not below the deadline
    have hfirst : 0 < ps.length := List.length_pos_of_ne_nil hne
    have hin : 0 < w.turnsInTime deadline ps.length :=
      (hclock.lt_turnsInTime_iff hfirst).mpr (Quantity.le_eq_false_of_not_isNumber hnan)
    exact Quantity.not_below_of_not_isNumber hnan ((hexact 0 hfirst).mp hin)
  · rintro (hnumber | rfl) k hk
    · rw [hclock.lt_turnsInTime_iff hk, (hclock.isNumber (k + 1)).below_iff hnumber]
    · exact absurd hk (Nat.not_lt_zero k)

/-- A project of two files with a clock that goes from zero to a hundred seconds between their turns. -/
def lateSecondFile : World :=
  { base := ⟨1, []⟩, tree := FileTree.twoFiles
    clock := fun k => .real (if k ≤ 1 then .zero else .ofRatio false 100 1), spawn := fun _ _ => .timedOut }

/-- The target that asks for fixing and formatting both within ten seconds. -/
def withinTenSeconds : CheckTarget :=
  { root := ⟨1, []⟩, paths := [⟨1, ["a.cpp"]⟩, ⟨1, ["b.cpp"]⟩]
    config := { failOnError := false, fix := true, formatter := { enabled := true }
                timeout := some (.real (.ofRatio false 10 1)) } }

theorem clockRuns_lateSecondFile : lateSecondFile.ClockRuns := by
  intro k
  show Quantity.le (.real (if k ≤ 1 then .zero else .ofRatio false 100 1))
    (.real (if k + 1 ≤ 1 then .zero else .ofRatio false 100 1)) = true
  split
  · split <;> decide +kernel
  · rw [if_neg (by omega)]
    decide +kernel

/-- The first file is checked and the second one is left alone. -/
theorem cut_before_second_file :
    ∃ r, withinTenSeconds.checkFiles lateSecondFile {} withinTenSeconds.paths = .ok r ∧
      r.files = [⟨1, ["a.cpp"]⟩] ∧ r.violations.filter isIncompleteNote = [incompleteNote 1 2] ∧
      r.status = .incomplete ∧
      r.tree.entry? ⟨1, ["b.cpp"]⟩ = FileTree.entry? FileTree.twoFiles ⟨1, ["b.cpp"]⟩ := by
  have hzero : (Quantity.real .zero).IsFinite := ⟨_, rfl⟩
  have hdeadline : (lateSecondFile.clock 0).add? (.real (.ofRatio false 10 1)) =
      some (.real (Binary64.add .zero (.ofRatio false 10 1))) := rfl
  obtain ⟨n, r, hn, hrun, -, hcut, hexact⟩ := cut_exact_iff withinTenSeconds lateSecondFile {} withinTenSeconds.paths
    (.real (.ofRatio false 10 1)) _ rfl hdeadline clockRuns_lateSecondFile
  have hnumber : (Quantity.real (Binary64.add .zero (.ofRatio false 10 1))).IsNumber :=
    (hzero.isNumber_add?_iff hdeadline).mpr (Binary64.isSome_value?_ofRatio false 10 1)
  have hbelow := fun k => (clockRuns_lateSecondFile.isNumber k).below_iff hnumber
  have hplaces := hexact.mpr (Or.inl hnumber)
  have hfirst : 0 < n := (hplaces 0 (by decide)).mpr ((hbelow 1).mpr (by decide +kernel))
  have hsecond : ¬ 1 < n := fun hlt => absurd ((hbelow 2).mp ((hplaces 1 (by decide)).mp hlt)) (by decide +kernel)
  obtain rfl : n = 1 := by omega
  refine ⟨r, hrun, hcut.files, hcut.noted, hcut.incomplete.mpr ⟨by decide, fun hfail => ?_⟩,
    hcut.others _ rfl fun p hp => ?_⟩
  · exact absurd (hcut.fails.mp hfail).1 (by decide)
  · rw [List.mem_singleton.mp hp]
    decide +kernel

/-! ### A limit that is not a number -/

/-- The target for one file with such a limit. -/
def withoutNumber : CheckTarget :=
  { root := ⟨1, []⟩, paths := [onlyPath], config := { timeout := some (.real .nan) } }

/-- The configuration accepts a limit that is not a number. With it a file is checked whose reading is not below
the deadline, and the run is complete. -/
theorem exists_limit_without_effect :
    ∃ (target : CheckTarget) (w : World) (ps : List SourcePath) (limit deadline : Quantity) (r : CheckResult),
      Config.ofTable? "" none [("timeout", .float .nan)] = .ok target.config ∧
      target.config.timeout = some limit ∧ (w.clock 0).add? limit = some deadline ∧ w.ClockRuns ∧
      target.checkFiles w {} ps = .ok r ∧ r.files = ps ∧ r.violations.filter isIncompleteNote = [] ∧
      r.status ≠ .incomplete ∧ ∃ k < ps.length, ¬ (w.clock (k + 1)).Below deadline := by
  have hclock : (onlyFile []).ClockRuns := fun _ => rfl
  have hnan : ¬ (Quantity.real .nan).IsNumber := Bool.false_ne_true
  have hlimit : withoutNumber.config.timeout = some (.real .nan) := rfl
  have hdeadline : ((onlyFile []).clock 0).add? (.real .nan) = some (.real .nan) := rfl
  have hone : (onlyFile []).turnsInTime (.real .nan) [onlyPath].length = 1 := rfl
  have hrun := checkFiles_eq {} [onlyPath] hlimit hdeadline hclock
  rw [hone] at hrun
  have hcut : withoutNumber.CutAfter (onlyFile []) [onlyPath] 1 _ := cutAfter_conclude {} (Nat.le_refl 1)
  exact ⟨withoutNumber, onlyFile [], [onlyPath], .real .nan, .real .nan, _, rfl, hlimit, hdeadline, hclock, hrun,
    hcut.files, hcut.noted, fun h => absurd (hcut.incomplete.mp h).1 (Nat.lt_irrefl 1), 0, Nat.one_pos,
    Quantity.not_below_of_not_isNumber hnan⟩

end CheckTarget

end HouseStyle
