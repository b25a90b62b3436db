import HouseStyle.Proofs.FixingRun
import HouseStyle.Proofs.TokenPlaces
import Mathlib.Data.List.Pairwise

/-!
# Which notes of the checker itself reach the report

The checker notes what it could not do: settings of rules that it does not know, rules whose checks failed,
regions of suppression that are never closed. The notes are placed coarsely (all of the first kind in the
configuration, all of the second kind at the start of their file, and those on the regions that one comment
opens at this comment), and of several violations of one rule at one place a report keeps only the first. So
the report has all the notes just when they do not meet.

The rules of the library never fail. What is said of failing checks is said of a run by any rules
(`CheckTarget.checkBy`), of which a run of the checker is the one by the rules that are enabled
(`check_eq_checkBy`).

- `notes_kept_iff`: the exact condition under which every note reaches the report.
- `keepsNotes_check_iff`: the same for a run of the checker, whose rules never fail.
- `exists_lost_note`: two unknown rules, and one note.
-/

namespace HouseStyle

open Suppressions

/-! ## Notes that a report keeps -/

/-- Violations of one identity are one, where each identity is there once. -/
theorem OnePerIdentity.eq_of_identity_eq {vs : List Violation} (h : OnePerIdentity vs) {v v' : Violation}
    (hv : v ∈ vs) (hv' : v' ∈ vs) (hsame : v.identity = v'.identity) : v = v' := by
  by_contra hne
  have hsymm : Std.Symm fun v w : Violation => v.identity ≠ w.identity := ⟨fun _ _ => Ne.symm⟩
  exact List.Pairwise.forall h hv hv' hne hsame

/-! ## Runs by any rules -/

namespace CheckTarget

variable {target : CheckTarget} {w : World} {mode : FixMode} {rules : List Rule} {found : List SourcePath}
  {r : CheckResult}

/-- Checks one file by some rules, as it is in a tree. -/
def checkFileBy (rules : List Rule) (target : CheckTarget) (base : SourcePath) (tree : FileTree)
    (isOneOfMany : Bool) (p : SourcePath) : FileOutcome :=
  match tree.file? p with
  | none => target.checkFile base tree isOneOfMany p
  | some bytes =>
    { path := p
      violations := some (detect (SourceFile.ofText target.config isOneOfMany p (Utf8.decode bytes)) rules) }

/-- A run by some rules over the files of a target. -/
def checkBy (rules : List Rule) (target : CheckTarget) (w : World) (mode : FixMode) :
    Except RunFault CheckResult := do
  let found ← target.files w
  let deadline ← target.deadline (w.clock 0)
  let outcomes := found.zipIdx.map fun (p, k) =>
    if deadline.any (·.le (w.clock (k + 1))) then { path := p, violations := none }
    else target.checkFileBy rules w.base w.tree (decide (1 < found.length)) p
  return target.conclude w mode outcomes

/-- The checker runs by the rules that are enabled. -/
theorem check_eq_checkBy (target : CheckTarget) (w : World) (mode : FixMode) :
    target.check w mode = target.checkBy (Rule.enabled target.config) w mode := by
  have hfile : target.checkFile = target.checkFileBy (Rule.enabled target.config) := by
    funext base tree isOneOfMany p
    unfold checkFileBy
    split
    · rfl
    · next bytes hfile =>
      unfold checkFile
      rw [hfile]
      rfl
  unfold check checkBy turn
  rw [hfile]

/-- The file at a path, as a run that finds some files reads it. -/
def source? (target : CheckTarget) (w : World) (found : List SourcePath) (p : SourcePath) : Option SourceFile :=
  (w.tree.file? p).map fun bytes =>
    SourceFile.ofText target.config (decide (1 < found.length)) p (Utf8.decode bytes)

/-- What some rules report on a file, if it can be read. -/
def reportBy (rules : List Rule) (target : CheckTarget) (w : World) (found : List SourcePath)
    (p : SourcePath) : List Violation :=
  match target.source? w found p with
  | none => [engineNote "unreadable-file" .warning "File could not be read; it was not checked." (some p) 1]
  | some f => detect f rules

/-- What a run finds before its repetitions are dropped. -/
def findings (rules : List Rule) (target : CheckTarget) (w : World) (found : List SourcePath) :
    List (List Violation) :=
  found.map (target.reportBy rules w found) ++ [target.unknownRuleNotes]

theorem checkFileBy_eq (p : SourcePath) :
    (target.checkFileBy rules w.base w.tree (decide (1 < found.length)) p).path = p ∧
      (target.checkFileBy rules w.base w.tree (decide (1 < found.length)) p).violations =
        some (target.reportBy rules w found p) := by
  unfold checkFileBy reportBy source? checkFile
  cases w.tree.file? p <;> exact ⟨rfl, rfl⟩

/-- Without a time limit every file is checked. -/
theorem checkBy_eq (htimeout : target.config.timeout = none) :
    target.checkBy rules w mode = (target.files w).map fun found => target.conclude w mode
      (found.map (target.checkFileBy rules w.base w.tree (decide (1 < found.length)))) := by
  unfold checkBy deadline
  rw [htimeout]
  cases target.files w with
  | error fault => rfl
  | ok found =>
    have hall : (found.zipIdx.map fun (p, _) =>
        target.checkFileBy rules w.base w.tree (decide (1 < found.length)) p) =
          found.map (target.checkFileBy rules w.base w.tree (decide (1 < found.length))) := by
      show found.zipIdx.map (target.checkFileBy rules w.base w.tree _ ∘ Prod.fst) = _
      rw [← List.map_map, List.zipIdx_map_fst]
    exact congrArg (Except.ok ∘ target.conclude w mode) hall

/-- What the formatter adds takes nothing away. -/
theorem kept_formatPhase (checked : List SourcePath) (tree : FileTree) (results : List (List Violation)) :
    OnePerIdentity (target.formatPhase w mode checked tree (aggregate results)).1 ∧
      ∀ v ∈ aggregate results, v ∈ (target.formatPhase w mode checked tree (aggregate results)).1 := by
  have hone := aggregate_onePerIdentity results
  unfold formatPhase
  split
  · exact ⟨aggregate_onePerIdentity _, fun v hv => mem_aggregate_of_mem_front hone hv⟩
  · exact ⟨hone, fun v hv => hv⟩

/-- A run that neither fixes nor stops early reports what it finds, but for repetitions. -/
theorem kept_of_checkBy (htimeout : target.config.timeout = none) (hfix : target.config.fix = false)
    (h : target.checkBy rules w mode = .ok r) :
    target.files w = .ok r.files ∧ OnePerIdentity r.violations ∧
      ∀ v ∈ aggregate (target.findings rules w r.files), v ∈ r.violations := by
  rw [checkBy_eq htimeout] at h
  cases hfiles : target.files w with
  | error fault => rw [hfiles] at h; exact absurd h (by simp [Except.map])
  | ok found =>
    rw [hfiles] at h
    change Except.ok (target.conclude w mode _) = _ at h
    obtain rfl := Except.ok.inj h
    generalize hcheck : target.checkFileBy rules w.base w.tree (decide (1 < found.length)) = check
    have hpath : ∀ p, (check p).path = p := fun p => hcheck ▸ (checkFileBy_eq p).1
    have hviolations : ∀ p, (check p).violations = some (target.reportBy rules w found p) := fun p =>
      hcheck ▸ (checkFileBy_eq p).2
    have hpaths : (found.map check).map (·.path) = found := by
      rw [List.map_map]
      exact (List.map_congr_left fun p _ => hpath p).trans (List.map_id _)
    have hall : (found.map check).filter (·.violations.isSome) = found.map check := by
      refine List.filter_eq_self.mpr fun o ho => ?_
      obtain ⟨p, -, rfl⟩ := List.mem_map.mp ho
      rw [hviolations]
      rfl
    have hresults : (found.map check).filterMap (·.violations) = found.map (target.reportBy rules w found) := by
      rw [List.filterMap_map, ← List.filterMap_eq_map]
      exact congrArg (List.filterMap · found) (funext hviolations)
    have hphase : ∀ vs, target.fixPhase w mode vs = (vs, none, w.tree, []) := fun vs => by
      unfold fixPhase
      rw [if_neg (by rw [hfix]; exact Bool.false_ne_true)]
    unfold conclude
    simp only [hall, hpaths, hresults, hphase, Nat.sub_self, skippedNotes, ↓reduceIte, List.append_nil]
    exact ⟨trivial, kept_formatPhase _ _ _⟩

/-! ## What a run finds -/

/-- The note on a rule that has settings but is not known. -/
def unknownRuleNote (target : CheckTarget) (id : String) : Violation :=
  engineNote "unknown-rule" .warning ("Configuration refers to unknown rule `" ++ id ++ "`.")
    target.config.source 1

/-- The note on a region that a comment of a file opens and nothing closes. -/
def regionNote (f : SourceFile) (region : String × Token) : Violation :=
  placeNote f (unterminated region.1 region.2)

/-- Rules that report violations of their own and leave the notes to the checker. -/
def LeaveNotes (rules : List Rule) : Prop :=
  ∀ rule ∈ rules, ∀ f vs, rule.check f = .ok vs → ∀ v ∈ vs, v.isEngineNote = false

theorem leaveNotes_enabled (config : Config) : LeaveNotes (Rule.enabled config) := by
  intro rule hrule f vs hcheck v hv
  have hbuiltin := (List.mem_filter.mp hrule).1
  rw [check_eq_reports hbuiltin f, Except.ok.injEq] at hcheck
  rw [← hcheck] at hv
  exact isEngineNote_of_isOf hbuiltin (isOf_of_mem_reports hbuiltin hv)

/-- What a run by some rules can find. -/
inductive Finds (rules : List Rule) (target : CheckTarget) (w : World) (found : List SourcePath) :
    Violation → Prop where
  | unknown {id : String} (hid : id ∈ target.unknownRules) : Finds rules target w found (target.unknownRuleNote id)
  | unreadable (p : SourcePath) : Finds rules target w found
      (engineNote "unreadable-file" .warning "File could not be read; it was not checked." (some p) 1)
  | failure {p : SourcePath} {f : SourceFile} {rule : Rule} {failure : RuleFailure} (hp : p ∈ found)
      (hf : target.source? w found p = some f) (hrule : rule ∈ rules) (hcheck : rule.check f = .error failure) :
      Finds rules target w found (ruleErrorNote f rule.info.id failure)
  | violation {v : Violation} (hv : v.isEngineNote = false) : Finds rules target w found v
  | stray {v : Violation} (hv : v.ruleId = "engine/stray-suppression-end") : Finds rules target w found v
  | region {p : SourcePath} {f : SourceFile} {region : String × Token} (hp : p ∈ found)
      (hf : target.source? w found p = some f) (hregion : region ∈ openRegions f.tokens) :
      Finds rules target w found (regionNote f region)

theorem source?_eq_some {p : SourcePath} {f : SourceFile} (h : target.source? w found p = some f) :
    f.path = p ∧ f.tokens = tokens f.text ∧ f.suppressions = Suppressions.ofTokens f.tokens := by
  obtain ⟨bytes, -, rfl⟩ := Option.map_eq_some_iff.mp h
  exact ⟨rfl, rfl, rfl⟩

theorem finds_of_mem_detectRule (hrules : LeaveNotes rules) {p : SourcePath} {f : SourceFile} (hp : p ∈ found)
    (hf : target.source? w found p = some f) {rule : Rule} (hrule : rule ∈ rules) {v : Violation}
    (hv : v ∈ detectRule f rule) : Finds rules target w found v := by
  unfold detectRule at hv
  split at hv
  · next failure hcheck =>
    rw [List.mem_singleton.mp hv]
    exact .failure hp hf hrule hcheck
  · next vs hcheck =>
    obtain ⟨v', hv', rfl⟩ := List.mem_map.mp (List.mem_filter.mp hv).1
    refine .violation ?_
    unfold Violation.isEngineNote
    rw [ruleId_withSeverity]
    exact hrules rule hrule f vs hcheck v' hv'

theorem finds_of_mem_findings (hrules : LeaveNotes rules) {v : Violation}
    (h : v ∈ (target.findings rules w found).flatten) : Finds rules target w found v := by
  obtain ⟨vs, hvs, hv⟩ := List.mem_flatten.mp h
  rcases List.mem_append.mp hvs with hvs | hvs
  · obtain ⟨p, hp, rfl⟩ := List.mem_map.mp hvs
    unfold reportBy at hv
    split at hv
    · rw [List.mem_singleton.mp hv]
      exact .unreadable p
    · next f hf =>
      rcases List.mem_append.mp hv with hv | hv
      · obtain ⟨rule, hrule, hv⟩ := List.mem_flatMap.mp hv
        exact finds_of_mem_detectRule hrules hp hf hrule hv
      · obtain ⟨note, hnote, rfl⟩ := List.mem_map.mp hv
        obtain ⟨-, -, hsuppressions⟩ := source?_eq_some hf
        rw [hsuppressions] at hnote
        rcases mem_notes_iff.mp hnote with hstray | ⟨region, hregion, rfl⟩
        · refine .stray ?_
          obtain ⟨comment, -, rfl⟩ := (Reading.from_ofTokens f.tokens).notes note hstray
          rfl
        · exact .region hp hf hregion
  · rw [List.mem_singleton.mp hvs] at hv
    obtain ⟨id, hid, rfl⟩ := List.mem_map.mp hv
    exact .unknown hid

theorem mem_findings_unknown {id : String} (hid : id ∈ target.unknownRules) :
    target.unknownRuleNote id ∈ (target.findings rules w found).flatten :=
  List.mem_flatten.mpr ⟨target.unknownRuleNotes, by simp [findings], List.mem_map.mpr ⟨id, hid, rfl⟩⟩

theorem mem_findings_of_mem_detect {p : SourcePath} {f : SourceFile} (hp : p ∈ found)
    (hf : target.source? w found p = some f) {v : Violation} (hv : v ∈ detect f rules) :
    v ∈ (target.findings rules w found).flatten := by
  refine List.mem_flatten.mpr ⟨target.reportBy rules w found p, ?_, ?_⟩
  · exact List.mem_append_left _ (List.mem_map_of_mem hp)
  · unfold reportBy
    rw [hf]
    exact hv

theorem mem_findings_failure {p : SourcePath} {f : SourceFile} {rule : Rule} {failure : RuleFailure}
    (hp : p ∈ found) (hf : target.source? w found p = some f) (hrule : rule ∈ rules)
    (hcheck : rule.check f = .error failure) :
    ruleErrorNote f rule.info.id failure ∈ (target.findings rules w found).flatten := by
  refine mem_findings_of_mem_detect hp hf (List.mem_append_left _ (List.mem_flatMap.mpr ⟨rule, hrule, ?_⟩))
  unfold detectRule
  rw [hcheck]
  exact List.mem_singleton.mpr rfl

theorem mem_findings_region {p : SourcePath} {f : SourceFile} {region : String × Token} (hp : p ∈ found)
    (hf : target.source? w found p = some f) (hregion : region ∈ openRegions f.tokens) :
    regionNote f region ∈ (target.findings rules w found).flatten := by
  refine mem_findings_of_mem_detect hp hf (List.mem_append_right _ (List.mem_map_of_mem ?_))
  rw [(source?_eq_some hf).2.2]
  exact mem_notes_iff.mpr (Or.inr ⟨region, hregion, rfl⟩)

/-! ## Notes at one place -/

/-- A report with every note on the settings and the files of a run by some rules. -/
structure KeepsNotes (rules : List Rule) (target : CheckTarget) (w : World) (found : List SourcePath)
    (vs : List Violation) : Prop where
  /-- Each rule that has settings but is not known. -/
  unknown : ∀ id ∈ target.unknownRules, target.unknownRuleNote id ∈ vs
  /-- Each rule whose check of a file fails. -/
  failures : ∀ p ∈ found, ∀ f, target.source? w found p = some f → ∀ rule ∈ rules, ∀ failure,
    rule.check f = .error failure → ruleErrorNote f rule.info.id failure ∈ vs
  /-- Each region that is open where a file ends. -/
  regions : ∀ p ∈ found, ∀ f, target.source? w found p = some f → ∀ region ∈ openRegions f.tokens,
    regionNote f region ∈ vs

/-- No two different notes of one kind are placed at one place. -/
structure NotesApart (rules : List Rule) (target : CheckTarget) (w : World) (found : List SourcePath) : Prop where
  /-- There is at most one unknown rule. -/
  unknown : ∀ id ∈ target.unknownRules, ∀ id' ∈ target.unknownRules, id = id'
  /-- In no file two rules fail that have different things to say. -/
  failures : ∀ p ∈ found, ∀ f, target.source? w found p = some f → ∀ rule ∈ rules, ∀ rule' ∈ rules,
    ∀ failure failure', rule.check f = .error failure → rule'.check f = .error failure' →
    ruleErrorNote f rule.info.id failure = ruleErrorNote f rule'.info.id failure'
  /-- No comment opens two regions that are never closed and are spoken of differently. -/
  regions : ∀ p ∈ found, ∀ f, target.source? w found p = some f → ∀ region ∈ openRegions f.tokens,
    ∀ region' ∈ openRegions f.tokens, region.2 = region'.2 → regionNote f region = regionNote f region'

/-- What is found is a note of one of three kinds, or it is of another name. -/
theorem Finds.cases_of_ruleId {v : Violation} (h : Finds rules target w found v) :
    (v.ruleId = "engine/unknown-rule" ∧ ∃ id ∈ target.unknownRules, v = target.unknownRuleNote id) ∨
      (v.ruleId = "engine/rule-error" ∧ ∃ p ∈ found, ∃ f, target.source? w found p = some f ∧
        ∃ rule ∈ rules, ∃ failure, rule.check f = .error failure ∧ v = ruleErrorNote f rule.info.id failure) ∨
      (v.ruleId = "engine/unterminated-suppression" ∧ ∃ p ∈ found, ∃ f, target.source? w found p = some f ∧
        ∃ region ∈ openRegions f.tokens, v = regionNote f region) ∨
      v.ruleId ∉ ["engine/unknown-rule", "engine/rule-error", "engine/unterminated-suppression"] := by
  cases h with
  | @unknown id hid => exact Or.inl ⟨rfl, id, hid, rfl⟩
  | unreadable p =>
    have hid : "engine/unreadable-file" ∉
        ["engine/unknown-rule", "engine/rule-error", "engine/unterminated-suppression"] := by decide
    exact Or.inr (Or.inr (Or.inr hid))
  | @failure p f rule failure hp hf hrule hcheck =>
    exact Or.inr (Or.inl ⟨rfl, p, hp, f, hf, rule, hrule, failure, hcheck, rfl⟩)
  | violation hv =>
    refine Or.inr (Or.inr (Or.inr fun hmem => ?_))
    have hnames : ∀ ruleId ∈ ["engine/unknown-rule", "engine/rule-error", "engine/unterminated-suppression"],
        "engine/".isPrefixOf ruleId = true := by decide +kernel
    exact absurd ((hnames _ hmem).symm.trans hv) (by decide)
  | stray hv =>
    rw [hv]
    exact Or.inr (Or.inr (Or.inr (by decide)))
  | @region p f region hp hf hregion => exact Or.inr (Or.inr (Or.inl ⟨rfl, p, hp, f, hf, region, hregion, rfl⟩))

theorem Finds.unknown_of_ruleId {v : Violation} (h : Finds rules target w found v)
    (hid : v.ruleId = "engine/unknown-rule") : ∃ id ∈ target.unknownRules, v = target.unknownRuleNote id := by
  have hcases := h.cases_of_ruleId
  rw [hid] at hcases
  rcases hcases with ⟨-, hnote⟩ | ⟨hother, -⟩ | ⟨hother, -⟩ | hother
  · exact hnote
  all_goals exact absurd hother (by decide)

theorem Finds.failure_of_ruleId {v : Violation} (h : Finds rules target w found v)
    (hid : v.ruleId = "engine/rule-error") : ∃ p ∈ found, ∃ f, target.source? w found p = some f ∧
      ∃ rule ∈ rules, ∃ failure, rule.check f = .error failure ∧ v = ruleErrorNote f rule.info.id failure := by
  have hcases := h.cases_of_ruleId
  rw [hid] at hcases
  rcases hcases with ⟨hother, -⟩ | ⟨-, hnote⟩ | ⟨hother, -⟩ | hother
  case inr.inl => exact hnote
  all_goals exact absurd hother (by decide)

theorem Finds.region_of_ruleId {v : Violation} (h : Finds rules target w found v)
    (hid : v.ruleId = "engine/unterminated-suppression") : ∃ p ∈ found, ∃ f, target.source? w found p = some f ∧
      ∃ region ∈ openRegions f.tokens, v = regionNote f region := by
  have hcases := h.cases_of_ruleId
  rw [hid] at hcases
  rcases hcases with ⟨hother, -⟩ | ⟨hother, -⟩ | ⟨-, hnote⟩ | hother
  case inr.inr.inl => exact hnote
  all_goals exact absurd hother (by decide)

/-- Notes with one identity in plain paths are on one file. -/
theorem source_eq_of_identity_eq (hplain : ∀ p ∈ found, p.IsPlain) {p p' : SourcePath} {f f' : SourceFile}
    (hp : p ∈ found) (hp' : p' ∈ found) (hf : target.source? w found p = some f)
    (hf' : target.source? w found p' = some f') {v v' : Violation} (hv : v.pathText = some f.path.toString)
    (hv' : v'.pathText = some f'.path.toString) (h : v'.identity = v.identity) : f' = f := by
  have htext := pathText_eq_of_identity_eq h
  rw [hv, hv', (source?_eq_some hf).1, (source?_eq_some hf').1, Option.some.injEq] at htext
  obtain rfl := (hplain p' hp').eq_of_toString (hplain p hp) htext
  exact Option.some.inj (hf'.symm.trans hf)

/-- Notes on regions with one identity are on the regions of one comment. -/
theorem comment_eq_of_identity_eq {p : SourcePath} {f : SourceFile} (hf : target.source? w found p = some f)
    {region region' : String × Token} (hregion : region ∈ openRegions f.tokens)
    (hregion' : region' ∈ openRegions f.tokens)
    (h : (regionNote f region').identity = (regionNote f region).identity) : region'.2 = region.2 := by
  obtain ⟨-, htokens, -⟩ := source?_eq_some hf
  have hmem : ∀ region ∈ openRegions f.tokens, region.2 ∈ tokens f.text := fun region hregion =>
    htokens ▸ (Reading.from_ofTokens f.tokens).opened region hregion
  have hplace := congrArg Identity.place h
  simp only [regionNote, placeNote, unterminated, note, Violation.identity, Option.map_some, Option.getD_some,
    Option.some.injEq, Prod.mk.injEq, Int.natCast_inj] at hplace
  exact eq_of_place_eq (hmem region' hregion') (hmem region hregion) hplace.2.1 hplace.2.2.1

theorem KeepsNotes.mono {vs ws : List Violation} (h : KeepsNotes rules target w found vs) (hsub : ∀ v ∈ vs, v ∈ ws) :
    KeepsNotes rules target w found ws :=
  ⟨fun id hid => hsub _ (h.unknown id hid),
    fun p hp f hf rule hrule failure hcheck => hsub _ (h.failures p hp f hf rule hrule failure hcheck),
    fun p hp f hf region hregion => hsub _ (h.regions p hp f hf region hregion)⟩

/-- Notes that are apart all reach a report. -/
theorem keepsNotes_of_apart (hrules : LeaveNotes rules) (hplain : ∀ p ∈ found, p.IsPlain)
    (h : NotesApart rules target w found) :
    KeepsNotes rules target w found (aggregate (target.findings rules w found)) := by
  have hfinds : ∀ v ∈ (target.findings rules w found).flatten, Finds rules target w found v := fun v hv =>
    finds_of_mem_findings hrules hv
  refine ⟨fun id hid => ?_, fun p hp f hf rule hrule failure hcheck => ?_, fun p hp f hf region hregion => ?_⟩
  · refine mem_aggregate_of_identity_new (mem_findings_unknown hid) fun v hv hsame => ?_
    obtain ⟨id', hid', rfl⟩ := (hfinds v hv).unknown_of_ruleId (congrArg Identity.ruleId hsame)
    rw [h.unknown id' hid' id hid]
  · refine mem_aggregate_of_identity_new (mem_findings_failure hp hf hrule hcheck) fun v hv hsame => ?_
    obtain ⟨p', hp', f', hf', rule', hrule', failure', hcheck', rfl⟩ :=
      (hfinds v hv).failure_of_ruleId (congrArg Identity.ruleId hsame)
    obtain rfl := source_eq_of_identity_eq hplain hp hp' hf hf' rfl rfl hsame
    exact h.failures p hp f' hf rule' hrule' rule hrule failure' failure hcheck' hcheck
  · refine mem_aggregate_of_identity_new (mem_findings_region hp hf hregion) fun v hv hsame => ?_
    obtain ⟨p', hp', f', hf', region', hregion', rfl⟩ :=
      (hfinds v hv).region_of_ruleId (congrArg Identity.ruleId hsame)
    obtain rfl := source_eq_of_identity_eq hplain hp hp' hf hf' rfl rfl hsame
    exact h.regions p hp f' hf region' hregion' region hregion
      (comment_eq_of_identity_eq hf hregion hregion' hsame)

/-- Only notes that are apart all reach a report. -/
theorem apart_of_keepsNotes {vs : List Violation} (hone : OnePerIdentity vs)
    (h : KeepsNotes rules target w found vs) : NotesApart rules target w found := by
  refine ⟨fun id hid id' hid' => ?_, ?_, ?_⟩
  · have heq := congrArg Violation.message
      (hone.eq_of_identity_eq (h.unknown id hid) (h.unknown id' hid') rfl)
    simpa [unknownRuleNote, engineNote] using heq
  · intro p hp f hf rule hrule rule' hrule' failure failure' hcheck hcheck'
    exact hone.eq_of_identity_eq (h.failures p hp f hf rule hrule failure hcheck)
      (h.failures p hp f hf rule' hrule' failure' hcheck') rfl
  · intro p hp f hf region hregion region' hregion' hcomment
    refine hone.eq_of_identity_eq (h.regions p hp f hf region hregion) (h.regions p hp f hf region' hregion') ?_
    unfold regionNote unterminated
    rw [hcomment]
    rfl

/-- **Every note reaches the report just when no two different ones meet.** In a run by some rules, without
a time limit and without fixing, the report has a note on each unknown rule, on each rule that fails on a file
and on each region that is open at the end of a file if and only if there is at most one unknown rule, rules
that fail on one file say the same, and no comment opens two such regions. -/
theorem notes_kept_iff (hrules : LeaveNotes rules) (htimeout : target.config.timeout = none)
    (hfix : target.config.fix = false) (h : target.checkBy rules w mode = .ok r) :
    KeepsNotes rules target w r.files r.violations ↔ NotesApart rules target w r.files := by
  obtain ⟨hfiles, hone, hkept⟩ := kept_of_checkBy htimeout hfix h
  exact ⟨apart_of_keepsNotes hone,
    fun hapart => (keepsNotes_of_apart hrules (FileTree.isPlain_of_discover hfiles) hapart).mono hkept⟩

/-- In a run of the checker no rule fails, so that every note reaches the report just if there is at most one
unknown rule and no comment opens two regions that are never closed. -/
theorem keepsNotes_check_iff (htimeout : target.config.timeout = none) (hfix : target.config.fix = false)
    (h : target.check w mode = .ok r) :
    KeepsNotes (Rule.enabled target.config) target w r.files r.violations ↔
      (∀ id ∈ target.unknownRules, ∀ id' ∈ target.unknownRules, id = id') ∧
        ∀ p ∈ r.files, ∀ f, target.source? w r.files p = some f → ∀ region ∈ openRegions f.tokens,
          ∀ region' ∈ openRegions f.tokens, region.2 = region'.2 → regionNote f region = regionNote f region' := by
  rw [check_eq_checkBy] at h
  obtain ⟨hfiles, hone, hkept⟩ := kept_of_checkBy htimeout hfix h
  constructor
  · intro hkeeps
    have hapart := apart_of_keepsNotes hone hkeeps
    exact ⟨hapart.unknown, hapart.regions⟩
  · rintro ⟨hunknown, hregions⟩
    have hnone : ∀ f, ∀ rule ∈ Rule.enabled target.config, ∀ failure, rule.check f ≠ .error failure := by
      intro f rule hrule failure hcheck
      rw [check_eq_reports (List.mem_filter.mp hrule).1 f] at hcheck
      exact absurd hcheck (by simp)
    have hapart : NotesApart (Rule.enabled target.config) target w r.files :=
      ⟨hunknown, fun _ _ f _ rule hrule _ _ failure _ hcheck => absurd hcheck (hnone f rule hrule failure), hregions⟩
    exact (keepsNotes_of_apart (leaveNotes_enabled _) (FileTree.isPlain_of_discover hfiles) hapart).mono hkept

/-! ## A file with one note of each kind, and settings with two unknown rules -/

/-- The target with one file and settings of some rules. -/
def onlyFileWith (rules : List String) (once : rules.Nodup := by decide) : CheckTarget :=
  { root := ⟨1, []⟩, paths := [onlyPath],
    config := { rules := rules.map fun id => (id, {}), rulesOnce := by simpa [Function.comp_def] using once } }

theorem files_onlyFileWith (rules : List String) (once : rules.Nodup) (text : Text) :
    (onlyFileWith rules once).files (onlyFile text) = .ok [onlyPath] :=
  files_single rfl (by simp [onlyPath, SourcePath.isPossible]) (holds_onlyFile text)

theorem mem_unknownRules_onlyFileWith {ids : List String} {once : ids.Nodup}
    (hnew : ∀ id ∈ ids, Rule.ids.contains id = false) {id : String} :
    id ∈ (onlyFileWith ids once).unknownRules ↔ id ∈ ids := by
  unfold unknownRules Config.unknownRuleIds
  rw [List.mem_mergeSort, List.mem_filter]
  have hkeys : (onlyFileWith ids once).config.rules.map (·.1) = ids := by simp [onlyFileWith, Function.comp_def]
  rw [hkeys]
  exact ⟨And.left, fun hid => ⟨hid, by rw [hnew id hid]; rfl⟩⟩

/-- The run over the one file. -/
theorem exists_checkBy_onlyFile (rules : List Rule) (ids : List String) (once : ids.Nodup) (text : Text) :
    ∃ r, (onlyFileWith ids once).checkBy rules (onlyFile text) {} = .ok r ∧ r.files = [onlyPath] := by
  have hfiles := files_onlyFileWith ids once text
  obtain ⟨r, hrun⟩ : ∃ r, (onlyFileWith ids once).checkBy rules (onlyFile text) {} = .ok r := by
    rw [checkBy_eq rfl, hfiles]
    exact ⟨_, rfl⟩
  obtain ⟨hfound, -⟩ := kept_of_checkBy rfl rfl hrun
  exact ⟨r, hrun, (Except.ok.inj (hfiles.symm.trans hfound)).symm⟩

/-- A rule that fails on every file. -/
def failingRule : Rule where
  info := { id := "broken", title := "Broken", description := "", category := .engine, severity := .warning }
  check := fun _ => .error ⟨"ValueError", "no such thing"⟩

/-- A comment that opens a region. -/
def openedText : Text := Text.ofString "// cppconform: disable-begin=no-c-style-cast\n"

set_option maxRecDepth 10000 in
theorem decode_openedText : Utf8.decode (Utf8.encode openedText) = openedText := by decide +kernel

set_option maxRecDepth 10000 in
theorem openRegions_openedText : (openRegions (tokens openedText)).map (·.1) = ["no-c-style-cast"] := by
  decide +kernel

/-- A run with a note of each kind, all of which are reported. -/
theorem notes_kept_one_of_each :
    ∃ r f region, (onlyFileWith ["foo"]).checkBy [failingRule] (onlyFile openedText) {} = .ok r ∧
      (onlyFileWith ["foo"]).source? (onlyFile openedText) [onlyPath] onlyPath = some f ∧
      (onlyFileWith ["foo"]).unknownRuleNote "foo" ∈ r.violations ∧
      ruleErrorNote f "broken" ⟨"ValueError", "no such thing"⟩ ∈ r.violations ∧
      regionNote f ("no-c-style-cast", region) ∈ r.violations := by
  obtain ⟨r, hrun, hfound⟩ := exists_checkBy_onlyFile [failingRule] ["foo"] (by decide) openedText
  obtain ⟨f, hf, htokens⟩ : ∃ f, (onlyFileWith ["foo"]).source? (onlyFile openedText) [onlyPath] onlyPath = some f ∧
      f.tokens = tokens openedText := by
    unfold source?
    rw [(holds_onlyFile openedText).file?, Option.map_some, decode_openedText]
    exact ⟨_, rfl, rfl⟩
  have hunknown : ∀ {id}, id ∈ (onlyFileWith ["foo"]).unknownRules ↔ id ∈ ["foo"] :=
    mem_unknownRules_onlyFileWith (by decide)
  -- one region is open, and its key is the rule that is given
  obtain ⟨region, hregions⟩ : ∃ region, openRegions f.tokens = [("no-c-style-cast", region)] := by
    have hkeys := openRegions_openedText
    rw [htokens]
    cases hopen : openRegions (tokens openedText) with
    | nil => rw [hopen] at hkeys; exact absurd hkeys (by simp)
    | cons a more =>
      rw [hopen] at hkeys
      simp only [List.map_cons, List.cons.injEq, List.map_eq_nil_iff] at hkeys
      exact ⟨a.2, by rw [hkeys.2, ← hkeys.1]⟩
  have hrules : LeaveNotes [failingRule] := by
    intro rule hrule f vs hcheck
    rw [List.mem_singleton.mp hrule] at hcheck
    exact absurd hcheck (by simp [failingRule])
  -- there is one note of each kind, so that no two of them can meet
  have hapart : NotesApart [failingRule] (onlyFileWith ["foo"]) (onlyFile openedText) r.files := by
    rw [hfound]
    refine ⟨?_, ?_, ?_⟩
    · intro id hid id' hid'
      rw [List.mem_singleton.mp (hunknown.mp hid), List.mem_singleton.mp (hunknown.mp hid')]
    · intro p hp g hg rule hrule rule' hrule' failure failure' hcheck hcheck'
      rw [List.mem_singleton.mp hrule] at hcheck ⊢
      rw [List.mem_singleton.mp hrule'] at hcheck' ⊢
      rw [Except.error.inj (hcheck.symm.trans hcheck')]
    · intro p hp g hg
      rw [List.mem_singleton.mp hp, hf] at hg
      rw [← Option.some.inj hg, hregions]
      simp
  have hkept := (notes_kept_iff hrules rfl rfl hrun).mpr hapart
  rw [hfound] at hkept
  refine ⟨r, f, region, hrun, hf, hkept.unknown _ (hunknown.mpr (by simp)), ?_, ?_⟩
  · exact hkept.failures _ (by simp) f hf failingRule (by simp) _ rfl
  · exact hkept.regions _ (by simp) f hf _ (by simp [hregions])

/-- Of two unknown rules only one is spoken of. -/
theorem exists_lost_note :
    ∃ (target : CheckTarget) (w : World) (r : CheckResult), target.config.timeout = none ∧
      target.config.fix = false ∧ target.check w {} = .ok r ∧
      ∃ id ∈ target.unknownRules, target.unknownRuleNote id ∉ r.violations := by
  obtain ⟨r, hrun, -⟩ := exists_checkBy_onlyFile (Rule.enabled (onlyFileWith ["bar", "foo"]).config)
    ["bar", "foo"] (by decide) []
  have hone := (kept_of_checkBy rfl rfl hrun).2.1
  rw [← check_eq_checkBy] at hrun
  refine ⟨onlyFileWith ["bar", "foo"], onlyFile [], r, rfl, rfl, hrun, ?_⟩
  by_contra hall
  have hkept : ∀ id ∈ ["bar", "foo"], (onlyFileWith ["bar", "foo"]).unknownRuleNote id ∈ r.violations := by
    intro id hid
    by_contra hnot
    exact hall ⟨id, (mem_unknownRules_onlyFileWith (by decide)).mpr hid, hnot⟩
  have hsame := hone.eq_of_identity_eq (hkept "bar" (by simp)) (hkept "foo" (by simp)) rfl
  exact absurd (congrArg Violation.message hsame) (by decide)

end CheckTarget

end HouseStyle
