import HouseStyle.Proofs.Backups
import HouseStyle.Proofs.KeptNotes
import HouseStyle.Proofs.ReportOrder

/-!
# What a report has of one rule in one file

The report of a run is put together from many files, and later phases take violations out of it and add notes.
Of one rule and one file it has what the rule reports on the file, but for repetitions, if the rule only
advises: its violations are never applied, and the notes that are added are of no rule.

- `filter_firstOfEach`: repetitions may be dropped before or after violations are picked by their identity.
- `filter_detectEnabled`: what is reported on a file under the name of a rule is what the rule reports.
- `filter_report_perm`: what the report of a run has of one rule in one file.
-/

namespace HouseStyle

/-! ## Picking violations from a report -/

section Picking

variable {q : Violation → Bool} {vs notes : List Violation}

/-- Repetitions are dropped from what is picked by identity as from the rest. -/
theorem filter_firstOfEach (hq : ∀ v w : Violation, v.identity = w.identity → q v = q w) (seen : List Identity)
    (vs : List Violation) : (firstOfEach seen vs).filter q = firstOfEach seen (vs.filter q) := by
  induction vs generalizing seen with
  | nil => rfl
  | cons v vs ih =>
    rw [firstOfEach]
    cases hv : q v with
    | true =>
      rw [List.filter_cons_of_pos hv, firstOfEach]
      split
      · exact ih seen
      · rw [List.filter_cons_of_pos hv, ih]
    | false =>
      rw [List.filter_cons_of_neg (by simp [hv])]
      split
      · exact ih seen
      · rw [List.filter_cons_of_neg (by simp [hv]), ih]
        -- what is picked has another identity than `v`
        refine firstOfEach_congr fun w hw => ?_
        rw [List.mem_cons, or_iff_right]
        intro hsame
        have hpicked := (List.mem_filter.mp hw).2
        rw [hq w v hsame, hv] at hpicked
        exact absurd hpicked Bool.false_ne_true

theorem filter_aggregate (hq : ∀ v w : Violation, v.identity = w.identity → q v = q w)
    (results : List (List Violation)) :
    ((aggregate results).filter q).Perm (firstOfEach [] (results.flatten.filter q)) := by
  rw [← filter_firstOfEach hq]
  exact (List.mergeSort_perm _ _).filter q

/-- Notes that are not picked change nothing about what is. -/
theorem filter_aggregate_of_notes (hq : ∀ v w : Violation, v.identity = w.identity → q v = q w)
    (hone : OnePerIdentity vs) (hnotes : ∀ n ∈ notes, q n = false) :
    ((aggregate [vs, notes]).filter q).Perm (vs.filter q) := by
  have hnone : notes.filter q = [] := List.filter_eq_nil_iff.mpr fun n hn => by simp [hnotes n hn]
  have hflat : [vs, notes].flatten.filter q = vs.filter q := by simp [hnone]
  have hperm := filter_aggregate hq [vs, notes]
  rwa [hflat, firstOfEach_of_onePerIdentity (hone.sublist List.filter_sublist)] at hperm

end Picking

/-- Whether a violation is one of a rule in a file. -/
def isOfRuleAt (id : String) (p : SourcePath) (v : Violation) : Bool :=
  v.ruleId == id && v.pathText == some p.toString

theorem isOfRuleAt_congr (id : String) (p : SourcePath) (v w : Violation) (h : v.identity = w.identity) :
    isOfRuleAt id p v = isOfRuleAt id p w := by
  have hrule : v.ruleId = w.ruleId := congrArg Identity.ruleId h
  unfold isOfRuleAt
  rw [hrule, pathText_eq_of_identity_eq h]

theorem isOfRuleAt_of_notMem_ids {rule : Rule} (hrule : rule ∈ Rule.builtin) {n : Violation}
    (h : n.ruleId ∉ Rule.ids) (p : SourcePath) : isOfRuleAt rule.info.id p n = false := by
  have hid : n.ruleId ≠ rule.info.id := fun hid => h (hid ▸ List.mem_map_of_mem hrule)
  unfold isOfRuleAt
  rw [beq_eq_false_iff_ne.mpr hid, Bool.false_and]

/-! ## One file -/

section File

variable {config : Config} {isOneOfMany : Bool} {path : SourcePath} {text : Text} {rule : Rule}

theorem ruleId_of_mem_detectRule {f : SourceFile} (hrule : rule ∈ Rule.builtin) {v : Violation}
    (h : v ∈ detectRule f rule) : v.ruleId = rule.info.id := by
  obtain ⟨w, hw, rfl, -⟩ := (mem_detectRule_iff hrule).mp h
  rw [ruleId_withSeverity, (isOf_of_mem_reports hrule hw).ruleId_eq]

/-- What is noted on a file beside the reports of the rules is about its suppressions. -/
theorem ruleId_of_mem_suppressionNotes {v : Violation}
    (h : v ∈ (SourceFile.ofText config isOneOfMany path text).suppressions.notes.map
      (placeNote (.ofText config isOneOfMany path text))) :
    v.ruleId = "engine/stray-suppression-end" ∨ v.ruleId = "engine/unterminated-suppression" := by
  obtain ⟨n, hn, rfl⟩ := List.mem_map.mp h
  obtain ⟨comment, -, rfl | ⟨key, rfl⟩⟩ := Suppressions.exists_comment_of_mem_notes hn
  · exact Or.inl rfl
  · exact Or.inr rfl

theorem ruleId_of_mem_detectEnabled {v : Violation}
    (h : v ∈ detectEnabled (.ofText config isOneOfMany path text)) :
    v.ruleId ∈ Rule.ids ∨ v.ruleId = "engine/stray-suppression-end" ∨
      v.ruleId = "engine/unterminated-suppression" := by
  unfold detectEnabled detect at h
  rcases List.mem_append.mp h with h | h
  · obtain ⟨r, hr, hv⟩ := List.mem_flatMap.mp h
    have hbuiltin := (List.mem_filter.mp hr).1
    rw [ruleId_of_mem_detectRule hbuiltin hv]
    exact Or.inl (List.mem_map_of_mem hbuiltin)
  · exact Or.inr (ruleId_of_mem_suppressionNotes h)

/-- The violations under the name of an enabled rule are those that the rule reports. -/
theorem filter_detectEnabled (hrule : rule ∈ Rule.enabled config) :
    (detectEnabled (.ofText config isOneOfMany path text)).filter (·.ruleId == rule.info.id) =
      detectRule (.ofText config isOneOfMany path text) rule := by
  have hbuiltin := (List.mem_filter.mp hrule).1
  have hother : ∀ rules : List Rule, rules ⊆ Rule.builtin → rule ∉ rules →
      (rules.flatMap (detectRule (.ofText config isOneOfMany path text))).filter (·.ruleId == rule.info.id) =
        [] := by
    intro rules hrules hnot
    refine List.filter_eq_nil_iff.mpr fun v hv => ?_
    obtain ⟨r, hr, hv⟩ := List.mem_flatMap.mp hv
    rw [ruleId_of_mem_detectRule (hrules hr) hv, beq_iff_eq]
    exact fun hid => hnot (Rule.eq_of_id (hrules hr) hbuiltin hid ▸ hr)
  have hnotes : ((SourceFile.ofText config isOneOfMany path text).suppressions.notes.map
      (placeNote (.ofText config isOneOfMany path text))).filter (·.ruleId == rule.info.id) = [] := by
    refine List.filter_eq_nil_iff.mpr fun v hv hid => ?_
    have hmem : v.ruleId ∈ Rule.ids := beq_iff_eq.mp hid ▸ List.mem_map_of_mem hbuiltin
    rcases ruleId_of_mem_suppressionNotes hv with hnote | hnote
    all_goals
      rw [hnote] at hmem
      exact absurd hmem (by decide)
  have hapart : (Rule.enabled config).Pairwise fun r r' => r.info.id ≠ r'.info.id :=
    List.Pairwise.sublist List.filter_sublist (by decide)
  have hsub : Rule.enabled config ⊆ Rule.builtin := List.filter_subset_self _
  show ((Rule.enabled config).flatMap _ ++ _).filter _ = _
  rw [List.filter_append, hnotes, List.append_nil]
  obtain ⟨front, back, hsplit⟩ := List.append_of_mem hrule
  rw [hsplit] at hapart hsub ⊢
  obtain ⟨-, hback, hfront⟩ := List.pairwise_append.mp hapart
  have hself : (detectRule (.ofText config isOneOfMany path text) rule).filter (·.ruleId == rule.info.id) =
      detectRule (.ofText config isOneOfMany path text) rule :=
    List.filter_eq_self.mpr fun v hv => beq_iff_eq.mpr (ruleId_of_mem_detectRule hbuiltin hv)
  rw [List.flatMap_append, List.flatMap_cons, List.filter_append, List.filter_append, hself,
    hother front (fun r hr => hsub (List.mem_append_left _ hr))
      (fun hmem => hfront rule hmem rule List.mem_cons_self rfl),
    hother back (fun r hr => hsub (List.mem_append_right _ (List.mem_cons_of_mem _ hr)))
      (fun hmem => List.rel_of_pairwise_cons hback hmem rfl), List.nil_append, List.append_nil]

end File

/-! ## The phases of a run -/

namespace FileTree

variable {t : FileTree} {mode : FixMode} {p : SourcePath} {vs : List Violation}

theorem ruleId_of_rejection {label : String} {note : Violation}
    (h : (t.fixFile mode label p vs).1.rejection = some note) : note.ruleId = "engine/fix-rejected" := by
  have hrejected : ∀ {text : Text} {reason : String},
      (FileFix.rejected p text reason).rejection = some note → note.ruleId = "engine/fix-rejected" := by
    intro text reason h
    rw [← Option.some.inj h]
    rfl
  unfold fixFile at h
  split at h
  · exact hrejected h
  · dsimp only at h
    split at h
    · exact hrejected h
    · split at h
      · split at h
        · exact hrejected h
        · exact absurd h (by simp)
      · exact absurd h (by simp)

/-- What is noted on the fixing of files is that their fixes were refused. -/
theorem ruleId_of_mem_rejections {base root : SourcePath} {ps : List SourcePath} {note : Violation}
    (h : note ∈ (t.fixFiles mode base root vs ps).1.filterMap (·.rejection)) :
    note.ruleId = "engine/fix-rejected" := by
  induction ps generalizing t with
  | nil => exact absurd h List.not_mem_nil
  | cons p ps ih =>
    obtain ⟨fix, hfix, hnote⟩ := List.mem_filterMap.mp h
    rcases List.mem_cons.mp hfix with rfl | hfix
    · exact ruleId_of_rejection hnote
    · exact ih (List.mem_filterMap.mpr ⟨fix, hfix, hnote⟩)

end FileTree

namespace CheckTarget

variable {target : CheckTarget} {w : World} {mode : FixMode} {rule : Rule} {p : SourcePath}
  {vs : List Violation} {res : CheckResult} {q : Violation → Bool}

/-- Fixing leaves the violations in the report that are not to be applied. -/
theorem filter_fixPhase (target : CheckTarget) (w : World) (mode : FixMode)
    (hq : ∀ v w : Violation, v.identity = w.identity → q v = q w)
    (hrejected : ∀ n : Violation, n.ruleId = "engine/fix-rejected" → q n = false) (hone : OnePerIdentity vs)
    (hadvice : ∀ v ∈ vs, q v = true → v.isFixable = false) :
    OnePerIdentity (target.fixPhase w mode vs).1 ∧
      ((target.fixPhase w mode vs).1.filter q).Perm (vs.filter q) := by
  unfold fixPhase
  split
  · refine ⟨aggregate_onePerIdentity _, ?_⟩
    have hkept : ∀ files : List FileFix, (vs.filter (!wasApplied files ·)).filter q = vs.filter q := by
      intro files
      rw [List.filter_filter]
      refine List.filter_congr fun v hv => ?_
      cases hpicked : q v with
      | false => rfl
      | true => simp [wasApplied, hadvice v hv hpicked]
    have hnotes : ∀ n ∈ (w.tree.fixFiles mode w.base target.root vs (fixablePaths vs)).1.filterMap
        (·.rejection), q n = false :=
      fun n hn => hrejected n (FileTree.ruleId_of_mem_rejections hn)
    unfold FileTree.fix
    dsimp only
    split
    · exact filter_aggregate_of_notes hq hone hnotes
    · rw [← hkept]
      exact filter_aggregate_of_notes hq (hone.sublist List.filter_sublist) hnotes
  · exact ⟨hone, .refl _⟩

/-- The formatter adds nothing but its notes. -/
theorem filter_formatPhase (target : CheckTarget) (w : World) (mode : FixMode)
    (hq : ∀ v w : Violation, v.identity = w.identity → q v = q w)
    (hformatter : ∀ n : Violation,
      n.ruleId = "engine/formatter-failed" ∨ n.ruleId = "engine/format-drift" → q n = false)
    (hone : OnePerIdentity vs) (checked : List SourcePath) (tree : FileTree) :
    ((target.formatPhase w mode checked tree vs).1.filter q).Perm (vs.filter q) := by
  unfold formatPhase
  split
  · exact filter_aggregate_of_notes hq hone fun n hn => hformatter n (ruleId_of_mem_formatFiles hn)
  · exact .refl _

theorem ruleId_notMem_ids_of_mem_notes {skipped total : Nat} {n : Violation}
    (h : n ∈ target.unknownRuleNotes ++ skippedNotes skipped total) : n.ruleId ∉ Rule.ids := by
  rcases List.mem_append.mp h with h | h
  · obtain ⟨id, -, rfl⟩ := List.mem_map.mp h
    show "engine/unknown-rule" ∉ Rule.ids
    decide
  · unfold skippedNotes at h
    split at h
    · exact absurd h List.not_mem_nil
    · rw [List.mem_singleton.mp h]
      show "engine/incomplete-run" ∉ Rule.ids
      decide

/-- What the turns of the files of a run and its notes have of a rule in one file. -/
theorem filter_outcomes {outcomes : List FileOutcome} {isOneOfMany : Bool} {bytes : List UInt8}
    {notes : List Violation}
    (hreports : ∀ o ∈ outcomes, ∀ vs, o.violations = some vs →
      vs = target.reportOn w.base w.tree isOneOfMany o.path)
    (hplain : ∀ o ∈ outcomes, o.path.IsPlain) (hnodup : (outcomes.map (·.path)).Nodup)
    (hnotes : ∀ n ∈ notes, n.ruleId ∉ Rule.ids)
    (hp : p ∈ (outcomes.filter (·.violations.isSome)).map (·.path)) (hfile : w.tree.file? p = some bytes)
    (hrule : rule ∈ Rule.enabled target.config) :
    (outcomes.filterMap (·.violations) ++ [notes]).flatten.filter (isOfRuleAt rule.info.id p) =
      detectRule (.ofText target.config isOneOfMany p (Utf8.decode bytes)) rule := by
  have hbuiltin := (List.mem_filter.mp hrule).1
  obtain ⟨o, ho, rfl⟩ := List.mem_map.mp hp
  obtain ⟨hmem, hchecked⟩ := List.mem_filter.mp ho
  obtain ⟨vs, hvs⟩ := Option.isSome_iff_exists.mp hchecked
  -- what is reported on other files stands at other paths
  have hother : ∀ os : List FileOutcome, os ⊆ outcomes → o.path ∉ os.map (·.path) →
      (os.filterMap (·.violations)).flatten.filter (isOfRuleAt rule.info.id o.path) = [] := by
    intro os hos hnot
    refine List.filter_eq_nil_iff.mpr fun v hv hof => ?_
    obtain ⟨us, hus, hv⟩ := List.mem_flatten.mp hv
    obtain ⟨o', ho', hus⟩ := List.mem_filterMap.mp hus
    obtain rfl := hreports o' (hos ho') us hus
    have hpath := path?_of_mem_reportOn hv
    unfold isOfRuleAt Violation.pathText at hof
    rw [show v.location.bind (·.path) = some o'.path from hpath] at hof
    simp only [Bool.and_eq_true, Option.map_some, beq_iff_eq, Option.some.injEq] at hof
    have hsame := (hplain o' (hos ho')).eq_of_toString (hplain o hmem) hof.2
    exact hnot (hsame ▸ List.mem_map_of_mem ho')
  have hself : vs.filter (isOfRuleAt rule.info.id o.path) =
      detectRule (.ofText target.config isOneOfMany o.path (Utf8.decode bytes)) rule := by
    obtain rfl := hreports o hmem vs hvs
    have hreport : target.reportOn w.base w.tree isOneOfMany o.path = _ := reportOn_of_file hfile
    rw [← filter_detectEnabled hrule, ← hreport]
    refine List.filter_congr fun v hv => ?_
    have hpath := path?_of_mem_reportOn hv
    unfold isOfRuleAt Violation.pathText
    rw [show v.location.bind (·.path) = some o.path from hpath]
    simp
  have hnone : notes.filter (isOfRuleAt rule.info.id o.path) = [] :=
    List.filter_eq_nil_iff.mpr fun n hn => by simp [isOfRuleAt_of_notMem_ids hbuiltin (hnotes n hn)]
  obtain ⟨front, back, rfl⟩ := List.append_of_mem hmem
  rw [List.map_append, List.map_cons] at hnodup
  obtain ⟨-, hback, hfront⟩ := List.nodup_append.mp hnodup
  rw [List.flatten_append, List.flatten_singleton, List.filter_append, hnone, List.append_nil,
    List.filterMap_append, List.filterMap_cons, hvs, List.flatten_append, List.flatten_cons,
    List.filter_append, List.filter_append, hself,
    hother front (fun o' ho' => List.mem_append_left _ ho') (fun hin => hfront _ hin _ List.mem_cons_self rfl),
    hother back (fun o' ho' => List.mem_append_right _ (List.mem_cons_of_mem _ ho')) (List.nodup_cons.mp hback).1,
    List.nil_append, List.append_nil]

/-- The phases that the report of a run goes through. -/
theorem exists_violations_conclude (target : CheckTarget) (w : World) (mode : FixMode)
    (outcomes : List FileOutcome) :
    ∃ notes checked tree, (∀ n ∈ notes, n.ruleId ∉ Rule.ids) ∧
      (target.conclude w mode outcomes).violations =
        (target.formatPhase w mode checked tree
          (target.fixPhase w mode (aggregate (outcomes.filterMap (·.violations) ++ [notes]))).1).1 :=
  ⟨_, _, _, fun _ => ruleId_notMem_ids_of_mem_notes, rfl⟩

/-- The report of a run has of a rule that only advises, in a file that was checked, what the rule reports on the
file, but for repetitions; it does so with any time limit, with fixing and with the formatter. -/
theorem filter_report_perm {f : SourceFile} (h : target.check w mode = .ok res)
    (hp : p ∈ res.files) (hf : target.source? w res.found p = some f) (hrule : rule ∈ Rule.enabled target.config)
    (hfixable : rule.info.fixable = false) :
    (res.violations.filter (isOfRuleAt rule.info.id p)).Perm (firstOfEach [] (detectRule f rule)) := by
  have hbuiltin := (List.mem_filter.mp hrule).1
  obtain ⟨outcomes, hfiles, rfl, hreports⟩ := exists_outcomes h
  have hfound : (target.conclude w mode outcomes).found = outcomes.map (·.path) := rfl
  rw [hfound] at hf
  obtain ⟨bytes, hfile, rfl⟩ := Option.map_eq_some_iff.mp hf
  rw [List.length_map]
  obtain ⟨notes, checked, tree, hnotes, hviolations⟩ := exists_violations_conclude target w mode outcomes
  have hraw := filter_aggregate (isOfRuleAt_congr rule.info.id p) (outcomes.filterMap (·.violations) ++ [notes])
  rw [filter_outcomes hreports
    (fun o ho => FileTree.isPlain_of_discover hfiles o.path (List.mem_map_of_mem ho))
    (FileTree.nodup_of_discover hfiles) hnotes hp hfile hrule] at hraw
  have hadvice : ∀ v ∈ aggregate (outcomes.filterMap (·.violations) ++ [notes]),
      isOfRuleAt rule.info.id p v = true → v.isFixable = false := by
    intro v hv hof
    have hmem := (firstOfEach_sublist [] _).subset (hraw.mem_iff.mp (List.mem_filter.mpr ⟨hv, hof⟩))
    obtain ⟨u, hu, rfl, -⟩ := (mem_detectRule_iff hbuiltin).mp hmem
    rw [isFixable_withSeverity, Bool.eq_false_iff]
    intro hfix
    have hauto := (isOf_of_mem_reports hbuiltin hu).autofix_eq_false hfixable
    rw [(Violation.facts_of_isFixable hfix).1] at hauto
    exact Bool.noConfusion hauto
  have hnoted : ∀ {n : Violation}, n.ruleId ∉ Rule.ids → isOfRuleAt rule.info.id p n = false :=
    fun h => isOfRuleAt_of_notMem_ids hbuiltin h p
  obtain ⟨hone, hfixed⟩ := filter_fixPhase target w mode
    (isOfRuleAt_congr rule.info.id p) (fun n hn => hnoted (by rw [hn]; decide))
    (aggregate_onePerIdentity _) hadvice
  have hformatted := filter_formatPhase target w mode
    (isOfRuleAt_congr rule.info.id p)
    (fun n hn => hnoted (by rcases hn with hn | hn <;> rw [hn] <;> decide)) hone checked tree
  rw [hviolations]
  exact (hformatted.trans hfixed).trans hraw

end CheckTarget

end HouseStyle
