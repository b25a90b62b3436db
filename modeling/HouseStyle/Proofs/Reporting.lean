import HouseStyle.Detection
import HouseStyle.Proofs.Naming

/-!
# What rules report, and what is left of it

`Rule.reports` is what the check of a rule gives on a file, before severities are changed and
suppressed violations are left out.

- `isOf_of_mem_reports`: every violation that a rule reports is one of this rule, and only a rule that
  is marked as one that fixes reports edits that may be applied without asking.
- `mem_fixableViolations_iff`: the fixable violations of a run are those that enabled rules report as
  such, if they are not turned off where they stand.
-/

namespace HouseStyle

/-- A violation that a rule has made of a file. -/
def RuleInfo.IsOf (r : RuleInfo) (f : SourceFile) (v : Violation) : Prop :=
  ∃ message location suggestion edits autofix related,
    v = r.violation message location suggestion edits autofix related ∧
      location.path = some f.path ∧ (r.fixable = false → autofix = false)

/-- What the check of a rule reports on a file. -/
def Rule.reports (r : Rule) (f : SourceFile) : List Violation :=
  match r.check f with
  | .ok vs => vs
  | .error _ => []

namespace RuleInfo.IsOf

variable {r : RuleInfo} {f : SourceFile} {v : Violation}

theorem intro {message : List Text} {location : Location} {suggestion : Option (List Text)}
    {edits : List Edit} {autofix : Bool} {related : List Location}
    (hpath : location.path = some f.path) (h : r.fixable = false → autofix = false) :
    r.IsOf f (r.violation message location suggestion edits autofix related) :=
  ⟨message, location, suggestion, edits, autofix, related, rfl, hpath, h⟩

theorem ruleId_eq (h : r.IsOf f v) : v.ruleId = r.id := by
  obtain ⟨_, _, _, _, _, _, rfl, -⟩ := h
  rfl

theorem location_path (h : r.IsOf f v) : v.location.bind (·.path) = some f.path := by
  obtain ⟨_, _, _, _, _, _, rfl, hpath, -⟩ := h
  exact hpath

theorem autofix_eq_false (h : r.IsOf f v) (hfixable : r.fixable = false) : v.autofix = false := by
  obtain ⟨_, _, _, edits, autofix, _, rfl, -, hauto⟩ := h
  show (autofix && !edits.isEmpty) = false
  rw [hauto hfixable]
  rfl

end RuleInfo.IsOf

/-! ## Each rule -/

namespace CastRule

/-- What the rule reports it reports of an opening bracket in front of which a cast may stand. -/
theorem exists_of_mem_checkFrom {f : SourceFile} {names : Names} {v : Violation} {before : Option Token}
    {ts : List Token} (h : v ∈ checkFrom f names before ts) :
    ∃ front opener after, ts = front ++ opener :: after ∧ opener.isPunct .lparen = true ∧
      (front.getLast?.or before).all mayPrecede = true ∧ checkAt f names opener after = some v := by
  induction ts generalizing before with
  | nil => exact absurd h (by simp [checkFrom])
  | cons t ts ih =>
    rcases List.mem_append.mp h with h | h
    · rw [Option.mem_toList] at h
      split at h
      · next hopens =>
        obtain ⟨hopener, hbefore⟩ := Bool.and_eq_true_iff.mp hopens
        exact ⟨[], t, ts, rfl, hopener, hbefore, h⟩
      · exact absurd h (by simp)
    · obtain ⟨front, opener, after, rfl, hopener, hbefore, hat⟩ := ih h
      refine ⟨t :: front, opener, after, rfl, hopener, ?_, hat⟩
      have hlast : (t :: front).getLast?.or before = front.getLast?.or (some t) := by
        rw [List.getLast?_cons, Option.some_or]
        cases front.getLast? <;> rfl
      rw [hlast]
      exact hbefore

/-- Of a bracket the rule reports a type up to the closing one, with an operand behind it. The edit, if there is
one, writes the cast of the one token that the operand is. -/
theorem checkAt_eq_some {f : SourceFile} {names : Names} {opener : Token} {after : List Token}
    {v : Violation} (h : checkAt f names opener after = some v) :
    ∃ enclosed operand rest message suggestion, closing? (maxTokens - 1) 0 after = some enclosed ∧
      enclosed.after = operand :: rest ∧ afterType? enclosed.inside = some [] ∧
      v = info.violation message (f.location opener.start enclosed.closer.stop) suggestion
        (if isSingleToken enclosed.after then
          [⟨opener.start, operand.stop, [Text.ofString (castWord names (joinedText enclosed.inside) operand),
            Text.ofString "<", joinedText enclosed.inside, Text.ofString ">(", operand.text,
            Text.ofString ")"].flatten⟩]
        else []) false [] := by
  unfold checkAt at h
  split at h
  next => exact absurd h (by simp)
  next enclosed henclosed =>
    split at h
    next => exact absurd h (by simp)
    next => exact absurd h (by simp)
    next first more operand rest _ hafter =>
      dsimp only at h
      split at h
      next => exact absurd h (by simp)
      next hcast =>
        simp only [Bool.or_eq_true, not_or, bne_iff_ne, ne_eq, Decidable.not_not] at hcast
        exact ⟨enclosed, operand, rest, _, _, henclosed, hafter, hcast.1.1.2, (Option.some.inj h).symm⟩

theorem isOf_of_mem_check {f : SourceFile} {v : Violation} (h : v ∈ check f) : info.IsOf f v := by
  obtain ⟨_, _, _, -, -, -, hat⟩ := exists_of_mem_checkFrom h
  obtain ⟨_, _, _, _, _, -, -, -, rfl⟩ := checkAt_eq_some hat
  exact .intro rfl fun _ => rfl

end CastRule

/-- What is reported of a raw pointer that something shows to own memory. -/
theorem OwnershipRule.checkEntity_eq_some {f : SourceFile} {e : Entity} {v : Violation}
    (h : checkEntity f e = some v) :
    ∃ found message suggestion, evidence? f e = some found ∧
      v = info.violation message (f.tokenLocation e.token) suggestion [] false
        (found.token.map f.tokenLocation).toList := by
  unfold checkEntity at h
  split at h
  next => exact absurd h (by simp)
  next =>
    obtain ⟨found, hfound, rfl⟩ := Option.map_eq_some_iff.mp h
    exact ⟨found, _, _, hfound, rfl⟩

theorem OwnershipRule.isOf_of_mem_check {f : SourceFile} {v : Violation}
    (h : v ∈ OwnershipRule.check f) : OwnershipRule.info.IsOf f v := by
  obtain ⟨e, -, he⟩ := List.mem_filterMap.mp h
  obtain ⟨_, _, _, -, rfl⟩ := OwnershipRule.checkEntity_eq_some he
  exact .intro rfl fun _ => rfl

theorem NamingRule.isOf_of_mem_check {f : SourceFile} {v : Violation} (h : v ∈ NamingRule.check f) :
    NamingRule.info.IsOf f v := by
  obtain ⟨e, -, he⟩ := List.mem_filterMap.mp h
  obtain ⟨-, -, message, suggestion, rfl⟩ := NamingRule.checkEntity_eq_some he
  exact .intro rfl fun hno => absurd hno (by decide)

/-- What is reported of an enumeration with braces that is not scoped. -/
theorem UnscopedEnumRule.checkEntity_eq_some {f : SourceFile} {e : Entity} {v : Violation}
    (h : checkEntity f e = some v) :
    e.kind = .enum ∧ e.isScopedEnum = false ∧ ∃ body keyword, e.bodyScope = some body ∧
      e.keyword = some keyword ∧ ∃ message suggestion,
        v = info.violation message (f.tokenLocation e.token) suggestion
          [⟨keyword.stop, keyword.stop, Text.ofString " class"⟩] (obstacle? f body).isNone [] := by
  unfold checkEntity at h
  split at h
  next => exact absurd h (by simp)
  next henum =>
    simp only [Bool.or_eq_true, bne_iff_ne, ne_eq, not_or, Decidable.not_not, Bool.not_eq_true] at henum
    split at h
    next body keyword hbody hkeyword =>
      exact ⟨henum.1, henum.2, body, keyword, hbody, hkeyword, _, _, (Option.some.inj h).symm⟩
    next => exact absurd h (by simp)

theorem UnscopedEnumRule.isOf_of_mem_check {f : SourceFile} {v : Violation}
    (h : v ∈ UnscopedEnumRule.check f) : UnscopedEnumRule.info.IsOf f v := by
  obtain ⟨e, -, he⟩ := List.mem_filterMap.mp h
  obtain ⟨-, -, _, _, -, -, _, _, rfl⟩ := UnscopedEnumRule.checkEntity_eq_some he
  exact .intro rfl fun hno => absurd hno (by decide)

/-- What is reported is a header without a guard. -/
theorem IncludeGuardRule.mem_check_iff {f : SourceFile} {v : Violation} :
    v ∈ check f ↔ f.path.isHeader = true ∧ hasGuard f = false ∧
      v = info.violation ["Header has no include guard."] (f.lineLocation 1)
        (some ["add `#pragma once` after the leading comment block"]) (guardEdit? f).toList true [] := by
  unfold check
  split
  next h =>
    rw [Bool.or_eq_true, Bool.not_eq_true'] at h
    refine iff_of_false List.not_mem_nil ?_
    rintro ⟨hheader, hbare, -⟩
    rcases h with h | h
    · exact absurd (h.symm.trans hheader) (by decide)
    · exact absurd (h.symm.trans hbare) (by decide)
  next h =>
    simp only [Bool.or_eq_true, Bool.not_eq_true', not_or, Bool.not_eq_false, Bool.not_eq_true] at h
    rw [List.mem_singleton]
    exact ⟨fun heq => ⟨h.1, h.2, heq⟩, fun hall => hall.2.2⟩

theorem IncludeGuardRule.isOf_of_mem_check {f : SourceFile} {v : Violation}
    (h : v ∈ IncludeGuardRule.check f) : IncludeGuardRule.info.IsOf f v := by
  obtain ⟨-, -, rfl⟩ := IncludeGuardRule.mem_check_iff.mp h
  exact .intro rfl fun hno => absurd hno (by decide)

/-- A rule of the library is known by its name. -/
theorem Rule.eq_of_id {r s : Rule} (hr : r ∈ Rule.builtin) (hs : s ∈ Rule.builtin)
    (h : r.info.id = s.info.id) : r = s := by
  have hdifferent : Rule.builtin.Pairwise fun a b => a.info.id ≠ b.info.id := by decide
  generalize Rule.builtin = rules at hr hs hdifferent
  induction rules with
  | nil => exact absurd hr (by simp)
  | cons a rules ih =>
    obtain ⟨hfirst, hrest⟩ := List.pairwise_cons.mp hdifferent
    rcases List.mem_cons.mp hr with rfl | hr' <;> rcases List.mem_cons.mp hs with rfl | hs'
    · rfl
    · exact absurd h (hfirst s hs')
    · exact absurd h.symm (hfirst r hr')
    · exact ih hr' hs' hrest

theorem reports_total (info : RuleInfo) (check : SourceFile → List Violation) (f : SourceFile) :
    (Rule.total info check).reports f = check f := rfl

/-- Every violation that a rule reports is one of this rule. -/
theorem isOf_of_mem_reports {r : Rule} (hr : r ∈ Rule.builtin) {f : SourceFile} {v : Violation}
    (hv : v ∈ r.reports f) : r.info.IsOf f v := by
  simp only [Rule.builtin, List.mem_cons, List.not_mem_nil, or_false] at hr
  rcases hr with rfl | rfl | rfl | rfl | rfl | rfl | rfl | rfl <;> rw [reports_total] at hv
  · unfold AdjacentTypesRule.check at hv
    obtain ⟨e, -, hv⟩ := List.mem_flatMap.mp hv
    obtain ⟨run, -, rfl⟩ := List.mem_map.mp hv
    exact .intro rfl fun _ => rfl
  · unfold LongParameterListRule.check at hv
    obtain ⟨e, -, rfl⟩ := List.mem_map.mp hv
    exact .intro rfl fun _ => rfl
  · exact IncludeGuardRule.isOf_of_mem_check hv
  · exact NamingRule.isOf_of_mem_check hv
  · exact CastRule.isOf_of_mem_check hv
  · exact OwnershipRule.isOf_of_mem_check hv
  · unfold UnparsedRule.check at hv
    obtain ⟨anomaly, -, rfl⟩ := List.mem_map.mp hv
    exact .intro rfl fun _ => rfl
  · exact UnscopedEnumRule.isOf_of_mem_check hv

/-- Only three rules report what may be mended without asking. -/
theorem Rule.eq_of_autofix {r : Rule} (hr : r ∈ Rule.builtin) {f : SourceFile} {v : Violation}
    (hv : v ∈ r.reports f) (hfix : v.autofix = true) :
    r = .total IncludeGuardRule.info IncludeGuardRule.check ∨
      r = .total NamingRule.info NamingRule.check ∨
      r = .total UnscopedEnumRule.info UnscopedEnumRule.check := by
  have hfixable : r.info.fixable = true := by
    refine Bool.not_eq_false _ |>.mp fun h => ?_
    rw [(isOf_of_mem_reports hr hv).autofix_eq_false h] at hfix
    exact absurd hfix (by decide)
  simp only [Rule.builtin, List.mem_cons, List.not_mem_nil, or_false] at hr
  rcases hr with rfl | rfl | rfl | rfl | rfl | rfl | rfl | rfl
  case inr.inr.inl => exact Or.inl rfl
  case inr.inr.inr.inl => exact Or.inr (Or.inl rfl)
  case inr.inr.inr.inr.inr.inr.inr => exact Or.inr (Or.inr rfl)
  all_goals exact absurd hfixable (by decide)

/-- The check of a rule of the library does not fail. -/
theorem check_eq_reports {r : Rule} (hr : r ∈ Rule.builtin) (f : SourceFile) :
    r.check f = .ok (r.reports f) := by
  have htotal : ∀ r ∈ Rule.builtin, ∃ info check, r = Rule.total info check := by
    simp only [Rule.builtin, List.forall_mem_cons, List.not_mem_nil, false_implies, implies_true,
      and_true]
    exact ⟨⟨_, _, rfl⟩, ⟨_, _, rfl⟩, ⟨_, _, rfl⟩, ⟨_, _, rfl⟩, ⟨_, _, rfl⟩, ⟨_, _, rfl⟩, ⟨_, _, rfl⟩,
      ⟨_, _, rfl⟩⟩
  obtain ⟨info, check, rfl⟩ := htotal r hr
  rfl

/-! ## Notes on suppression markers -/

namespace Suppressions

/-- What holds of nothing read and is kept by each marker of each comment holds of all that is read. -/
theorem Reading.ofTokens_induction {P : Reading → Prop} {tokens : List Token} (hstart : P {})
    (hstep : ∀ r comment m, comment ∈ tokens → P r → P (r.step comment m)) : P (ofTokens tokens) := by
  unfold ofTokens
  have hcomments : ∀ comment ∈ tokens.filter (·.isComment), comment ∈ tokens := fun comment h =>
    (List.mem_filter.mp h).1
  generalize tokens.filter (·.isComment) = comments at hcomments
  generalize ({} : Reading) = r at hstart
  induction comments generalizing r with
  | nil => exact hstart
  | cons comment comments ih =>
    rw [List.forall_mem_cons] at hcomments
    rw [List.foldl_cons]
    refine ih hcomments.2 _ ?_
    generalize Marker.inText comment.text = markers
    induction markers generalizing r with
    | nil => exact hstart
    | cons m markers ih' =>
      rw [List.foldl_cons]
      exact ih' _ (hstep r comment m hcomments.1 hstart)

/-- What reading the markers of some tokens can have noted: ends that close nothing, and regions that
comments among the tokens have opened. -/
structure Reading.From (tokens : List Token) (r : Reading) : Prop where
  notes : ∀ n ∈ r.notes.toList, ∃ comment ∈ tokens, n = Suppressions.strayEnd comment
  opened : ∀ region ∈ r.opened, region.2 ∈ tokens

variable {tokens : List Token} {r : Reading} {comment : Token}

theorem Reading.From.openRegions (h : r.From tokens) (hcomment : comment ∈ tokens) (keys : List String) :
    (r.openRegions comment keys).From tokens := by
  unfold Reading.openRegions
  induction keys generalizing r with
  | nil => exact h
  | cons key keys ih =>
    rw [List.foldl_cons]
    refine ih ?_
    split
    · exact h
    · refine ⟨h.notes, fun region hregion => ?_⟩
      rcases List.mem_append.mp hregion with hregion | hregion
      · exact h.opened region hregion
      · rw [List.mem_singleton.mp hregion]
        exact hcomment

theorem Reading.From.closeRegions (h : r.From tokens) (keys : List String) :
    (r.closeRegions comment keys).From tokens := by
  unfold Reading.closeRegions
  induction keys generalizing r with
  | nil => exact h
  | cons key keys ih =>
    rw [List.foldl_cons]
    refine ih ?_
    split
    · exact h
    · exact ⟨h.notes, fun region hregion => h.opened region (List.mem_filter.mp hregion).1⟩

theorem Reading.From.strayEnd (h : r.From tokens) (hcomment : comment ∈ tokens) :
    Reading.From tokens { r with notes := r.notes.push (Suppressions.strayEnd comment) } := by
  refine ⟨fun n hn => ?_, h.opened⟩
  rw [Array.toList_push] at hn
  rcases List.mem_append.mp hn with hn | hn
  · exact h.notes n hn
  · exact ⟨comment, hcomment, List.mem_singleton.mp hn⟩

theorem Reading.from_ofTokens (tokens : List Token) : (Reading.ofTokens tokens).From tokens := by
  refine Reading.ofTokens_induction ⟨by simp, by simp⟩ fun r comment m hcomment h => ?_
  unfold Reading.step
  split
  · exact ⟨h.notes, h.opened⟩
  · exact ⟨h.notes, h.opened⟩
  · exact ⟨h.notes, h.opened⟩
  · exact h.openRegions hcomment _
  · dsimp only
    split <;> split
    · exact h.closeRegions _
    · exact h.strayEnd hcomment
    · exact h.closeRegions _
    · exact h.strayEnd hcomment

/-- The regions of a file that are still open at its end. -/
def openRegions (tokens : List Token) : List (String × Token) := (Reading.ofTokens tokens).opened

theorem mem_notes_iff {n : Violation} :
    n ∈ (ofTokens tokens).notes ↔
      n ∈ (Reading.ofTokens tokens).notes.toList ∨
        ∃ region ∈ openRegions tokens, n = unterminated region.1 region.2 := by
  show n ∈ _ ++ _ ↔ _
  rw [List.mem_append, List.mem_map]
  refine or_congr_right (exists_congr fun region => ?_)
  rw [List.mem_mergeSort]
  exact and_congr_right fun _ => eq_comm

/-- Every note is on a marker of a comment. -/
theorem exists_comment_of_mem_notes {n : Violation} (h : n ∈ (ofTokens tokens).notes) :
    ∃ comment ∈ tokens, n = strayEnd comment ∨ ∃ key, n = unterminated key comment := by
  rcases mem_notes_iff.mp h with h | ⟨region, hregion, rfl⟩
  · obtain ⟨comment, hcomment, rfl⟩ := (Reading.from_ofTokens tokens).notes n h
    exact ⟨comment, hcomment, Or.inl rfl⟩
  · exact ⟨region.2, (Reading.from_ofTokens tokens).opened region hregion, Or.inr ⟨region.1, rfl⟩⟩

/-- A note on a marker has no edits. -/
theorem edits_of_mem_notes {n : Violation} (h : n ∈ (ofTokens tokens).notes) : n.edits = [] := by
  obtain ⟨comment, -, rfl | ⟨key, rfl⟩⟩ := exists_comment_of_mem_notes h <;> rfl

end Suppressions

/-! ## Detection -/

theorem edits_withSeverity (severity : Option Severity) (v : Violation) :
    (withSeverity severity v).edits = v.edits := by
  cases severity <;> rfl

theorem ruleId_withSeverity (severity : Option Severity) (v : Violation) :
    (withSeverity severity v).ruleId = v.ruleId := by
  cases severity <;> rfl

theorem autofix_withSeverity (severity : Option Severity) (v : Violation) :
    (withSeverity severity v).autofix = v.autofix := by
  cases severity <;> rfl

theorem isFixable_withSeverity (severity : Option Severity) (v : Violation) :
    (withSeverity severity v).isFixable = v.isFixable := by
  cases severity <;> rfl

theorem isTurnedOff_withSeverity (s : Suppressions) (severity : Option Severity) (v : Violation) :
    isTurnedOff s (withSeverity severity v) = isTurnedOff s v := by
  cases severity <;> rfl

/-- A fixable violation has edits that may be applied without asking. -/
theorem Violation.facts_of_isFixable {v : Violation} (h : v.isFixable = true) :
    v.autofix = true ∧ v.edits ≠ [] := by
  simp only [isFixable, Bool.and_eq_true, Bool.not_eq_true', List.isEmpty_eq_false_iff] at h
  exact ⟨h.1.1.2, h.1.2⟩

theorem mem_detectRule_iff {f : SourceFile} {r : Rule} (hr : r ∈ Rule.builtin) {v : Violation} :
    v ∈ detectRule f r ↔ ∃ w ∈ r.reports f,
      v = withSeverity (f.config.ruleSettings r.info.id).severity w ∧ isTurnedOff f.suppressions v = false := by
  unfold detectRule
  rw [check_eq_reports hr f]
  simp only [List.mem_filter, List.mem_map, Bool.not_eq_true']
  constructor
  · rintro ⟨⟨w, hw, rfl⟩, hoff⟩
    exact ⟨w, hw, rfl, hoff⟩
  · rintro ⟨w, hw, rfl, hoff⟩
    exact ⟨⟨w, hw, rfl⟩, hoff⟩

/-- The fixable violations of a run are what enabled rules report as such, if it is not turned off. -/
theorem mem_fixableViolations_iff {config : Config} {isOneOfMany : Bool} {path : SourcePath}
    {text : Text} {v : Violation} :
    v ∈ fixableViolations (detectEnabled (.ofText config isOneOfMany path text)) ↔
      ∃ r ∈ Rule.builtin, r.info.id ∈ config.enabledRuleIds Rule.defaultEnablement ∧
        ∃ w ∈ r.reports (.ofText config isOneOfMany path text), w.isFixable = true ∧
          isTurnedOff (Suppressions.ofTokens (tokens text)) w = false ∧
          v = withSeverity (config.ruleSettings r.info.id).severity w := by
  have enabled_iff : ∀ r, r ∈ Rule.enabled config ↔
      r ∈ Rule.builtin ∧ r.info.id ∈ config.enabledRuleIds Rule.defaultEnablement := by
    intro r
    rw [Rule.enabled, List.mem_filter, List.contains_iff_mem]
  unfold fixableViolations detectEnabled detect
  rw [List.mem_filter]
  constructor
  · rintro ⟨h, hv⟩
    rcases List.mem_append.mp h with h | h
    · obtain ⟨r, hr, h⟩ := List.mem_flatMap.mp h
      obtain ⟨hbuiltin, henabled⟩ := (enabled_iff r).mp hr
      obtain ⟨w, hw, rfl, hon⟩ := (mem_detectRule_iff hbuiltin).mp h
      rw [isFixable_withSeverity] at hv
      rw [isTurnedOff_withSeverity] at hon
      exact ⟨r, hbuiltin, henabled, w, hw, hv, hon, rfl⟩
    · -- a note has no edits, so it is not fixable
      obtain ⟨n, hn, rfl⟩ := List.mem_map.mp h
      exact absurd (Suppressions.edits_of_mem_notes hn) (Violation.facts_of_isFixable hv).2
  · rintro ⟨r, hbuiltin, henabled, w, hw, hv, hon, rfl⟩
    rw [isFixable_withSeverity]
    have hrule := (enabled_iff r).mpr ⟨hbuiltin, henabled⟩
    refine ⟨List.mem_append_left _ (List.mem_flatMap.mpr ⟨r, hrule, ?_⟩), hv⟩
    exact (mem_detectRule_iff hbuiltin).mpr ⟨w, hw, rfl, by rw [isTurnedOff_withSeverity]; exact hon⟩

end HouseStyle
