import HouseStyle.Proofs.Aggregate

/-!
# Reports put together in steps

A report is in order, and violations of one sort key stand in it as they came up (`filter_mergeSort`).
Two lists in order are one if they agree on each sort key (`eq_of_filter_sortKey`). So it makes no
difference whether results are put together at once or one after another (`aggregate_aggregate`), nor in
which order results of different rules are added (`aggregate_swap`).

The sort key and the identity are not the same: violations of one identity may have different messages, and
places that are not known have the sort key of line 0 without being at line 0. So what is kept is told by the
identity alone (`filter_identity_aggregate`), and the order by the sort key and the order of the results.
- `aggregate_in_stages`: both together, and that putting results together in stages changes neither.
-/

namespace HouseStyle

namespace Violation

instance : Std.TransCmp SortKey.compare :=
  inferInstanceAs <| Std.TransCmp <|
    compareLex (compareOn SortKey.path) <| compareLex (compareOn SortKey.line) <|
    compareLex (compareOn SortKey.column) <| compareLex (compareOn SortKey.ruleId) <|
    compareLex (compareOn SortKey.endLine) <| compareLex (compareOn SortKey.endColumn)
      (compareOn SortKey.message)

theorem SortKey.eq_of_compare_eq {a b : SortKey} (h : a.compare b = .eq) : a = b := by
  simp only [SortKey.compare, Ordering.then_eq_eq, Std.LawfulEqCmp.compare_eq_iff_eq] at h
  obtain ⟨h₁, h₂, h₃, h₄, h₅, h₆, h₇⟩ := h
  cases a
  cases b
  simp_all

theorem precedes_trans (a b c : Violation) (hab : a.precedes b = true) (hbc : b.precedes c = true) :
    a.precedes c = true := Std.TransCmp.isLE_trans hab hbc

theorem precedes_total (a b : Violation) : (a.precedes b || b.precedes a) = true := by
  unfold precedes
  cases h : a.sortKey.compare b.sortKey with
  | lt => rfl
  | eq => rfl
  | gt => rw [Std.OrientedCmp.lt_of_gt h]; rfl

theorem precedes_of_sortKey_eq {a b : Violation} (h : a.sortKey = b.sortKey) : a.precedes b = true := by
  have hself : a.sortKey.compare b.sortKey = .eq := h ▸ @Std.ReflCmp.compare_self _ SortKey.compare _ _
  unfold precedes
  rw [hself]
  rfl

/-- Violations that may stand on either side of each other have one sort key. -/
theorem sortKey_eq_of_precedes {a b : Violation} (hab : a.precedes b = true) (hba : b.precedes a = true) :
    a.sortKey = b.sortKey := SortKey.eq_of_compare_eq (Std.OrientedCmp.isLE_antisymm hab hba)

end Violation

open Violation (SortKey precedes)

variable {vs ws : List Violation} {seen seen' : List Identity}

/-! ## Sorting -/

/-- Violations of one sort key keep their order. -/
theorem filter_mergeSort (vs : List Violation) (k : SortKey) :
    (vs.mergeSort precedes).filter (·.sortKey == k) = vs.filter (·.sortKey == k) := by
  have hsorted : (vs.filter (·.sortKey == k)).Pairwise fun a b => a.precedes b = true := by
    refine List.pairwise_of_forall_mem_list fun a ha b hb => Violation.precedes_of_sortKey_eq ?_
    have ha := (List.mem_filter.mp ha).2
    have hb := (List.mem_filter.mp hb).2
    simp only [beq_iff_eq] at ha hb
    rw [ha, hb]
  have hsub := List.sublist_mergeSort Violation.precedes_trans Violation.precedes_total hsorted
    List.filter_sublist
  have hfilter := hsub.filter (·.sortKey == k)
  simp only [List.filter_filter, Bool.and_self] at hfilter
  refine (hfilter.eq_of_length ?_).symm
  exact ((List.mergeSort_perm vs precedes).filter _).length_eq.symm

/-- Two lists in order are one if they agree on each sort key. -/
theorem eq_of_filter_sortKey (hvs : vs.Pairwise fun a b => a.precedes b = true)
    (hws : ws.Pairwise fun a b => a.precedes b = true)
    (h : ∀ k : SortKey, vs.filter (·.sortKey == k) = ws.filter (·.sortKey == k)) : vs = ws := by
  -- a violation of the one list is in the other
  have hmem : ∀ {us us' : List Violation}, (∀ k : SortKey, us.filter (·.sortKey == k) =
      us'.filter (·.sortKey == k)) → ∀ v ∈ us, v ∈ us' := by
    intro us us' h v hv
    have : v ∈ us.filter (·.sortKey == v.sortKey) := List.mem_filter.mpr ⟨hv, by simp⟩
    rw [h] at this
    exact (List.mem_filter.mp this).1
  induction vs generalizing ws with
  | nil =>
    cases ws with
    | nil => rfl
    | cons w ws => exact absurd (hmem (fun k => (h k).symm) w List.mem_cons_self) (by simp)
  | cons v vs ih =>
    cases ws with
    | nil => exact absurd (hmem h v List.mem_cons_self) (by simp)
    | cons w ws =>
      obtain ⟨hv, hvs⟩ := List.pairwise_cons.mp hvs
      obtain ⟨hw, hws'⟩ := List.pairwise_cons.mp hws
      -- the first violations may stand on either side of each other
      have hkey : v.sortKey = w.sortKey := by
        refine Violation.sortKey_eq_of_precedes ?_ ?_
        · rcases List.mem_cons.mp (hmem (fun k => (h k).symm) w List.mem_cons_self) with heq | hmem
          · exact Violation.precedes_of_sortKey_eq (by rw [heq])
          · exact hv w hmem
        · rcases List.mem_cons.mp (hmem h v List.mem_cons_self) with heq | hmem
          · exact Violation.precedes_of_sortKey_eq (by rw [heq])
          · exact hw v hmem
      have hfirst := h v.sortKey
      rw [List.filter_cons_of_pos (by simp), List.filter_cons_of_pos (by simp [hkey]),
        List.cons.injEq] at hfirst
      obtain ⟨rfl, -⟩ := hfirst
      refine congrArg (v :: ·) (ih hvs hws' fun k => ?_)
      have hk := h k
      rw [List.filter_cons, List.filter_cons] at hk
      split at hk
      · exact (List.cons.inj hk).2
      · exact hk

theorem mergeSort_congr (h : ∀ k : SortKey, vs.filter (·.sortKey == k) = ws.filter (·.sortKey == k)) :
    vs.mergeSort precedes = ws.mergeSort precedes :=
  eq_of_filter_sortKey (List.pairwise_mergeSort Violation.precedes_trans Violation.precedes_total vs)
    (List.pairwise_mergeSort Violation.precedes_trans Violation.precedes_total ws) fun k => by
    rw [filter_mergeSort, filter_mergeSort, h]

/-! ## Repetitions -/

theorem firstOfEach_congr (h : ∀ v ∈ vs, v.identity ∈ seen ↔ v.identity ∈ seen') :
    firstOfEach seen vs = firstOfEach seen' vs := by
  induction vs generalizing seen seen' with
  | nil => rfl
  | cons v vs ih =>
    rw [List.forall_mem_cons] at h
    unfold firstOfEach
    have hseen : seen.contains v.identity = seen'.contains v.identity := by
      rw [Bool.eq_iff_iff]
      simpa using h.1
    have hlater : firstOfEach (v.identity :: seen) vs = firstOfEach (v.identity :: seen') vs :=
      ih fun w hw => by simp [h.2 w hw]
    rw [hseen, ih h.2, hlater]

theorem firstOfEach_append (seen : List Identity) (vs ws : List Violation) :
    firstOfEach seen (vs ++ ws) = firstOfEach seen vs ++ firstOfEach (seen ++ vs.map (·.identity)) ws := by
  induction vs generalizing seen with
  | nil => simp [firstOfEach]
  | cons v vs ih =>
    rw [List.cons_append, firstOfEach, firstOfEach]
    split
    next h =>
      have hv : v.identity ∈ seen := by simpa using h
      rw [ih]
      congr 1
      refine firstOfEach_congr fun w _ => ?_
      simp only [List.mem_append, List.map_cons, List.mem_cons]
      grind
    next h =>
      rw [ih, List.cons_append]
      congr 2
      refine firstOfEach_congr fun w _ => ?_
      simp only [List.mem_append, List.map_cons, List.mem_cons]
      grind

/-- Dropping repetitions loses no identity. -/
theorem mem_map_identity_firstOfEach {i : Identity} :
    i ∈ (firstOfEach [] vs).map (·.identity) ↔ i ∈ vs.map (·.identity) := by
  constructor
  · exact fun h => (firstOfEach_sublist [] vs).map _ |>.subset h
  · intro h
    obtain ⟨v, hv, rfl⟩ := List.mem_map.mp h
    obtain ⟨w, hw, hid⟩ := exists_identity_mem_firstOfEach [] hv (by simp)
    exact List.mem_map.mpr ⟨w, hw, hid⟩

/-- Of each identity that was not seen before, dropping repetitions leaves the first violation. -/
theorem filter_identity_firstOfEach {i : Identity} (hseen : i ∉ seen) :
    (firstOfEach seen vs).filter (·.identity == i) = (vs.find? (·.identity == i)).toList := by
  induction vs generalizing seen with
  | nil => rfl
  | cons v vs ih =>
    unfold firstOfEach
    by_cases hv : v.identity = i
    · rw [if_neg (by simpa [hv] using hseen), List.filter_cons_of_pos (by simpa using hv),
        List.find?_cons_of_pos (by simpa using hv), Option.toList_some, List.cons.injEq]
      refine ⟨rfl, List.filter_eq_nil_iff.mpr ?_⟩
      -- from here on the identity counts as seen
      intro w hw hwi
      rw [beq_iff_eq] at hwi
      exact identity_notMem_seen hw (by simp [hwi, hv])
    · rw [List.find?_cons_of_neg (by simpa using hv)]
      split
      · exact ih hseen
      · rw [List.filter_cons_of_neg (by simpa using hv)]
        apply ih
        rw [List.mem_cons, not_or]
        exact ⟨Ne.symm hv, hseen⟩

theorem firstOfEach_of_onePerIdentity (h : OnePerIdentity vs) : firstOfEach [] vs = vs := by
  have hsub := @sublist_firstOfEach_append [] vs [] h (by simp)
  rw [List.append_nil] at hsub
  exact (hsub.eq_of_length_le (firstOfEach_sublist [] vs).length_le).symm

/-! ## Putting results together -/

/-- Results may be put together one after another. -/
theorem aggregate_aggregate (results more : List (List Violation)) :
    aggregate (aggregate results :: more) = aggregate (results ++ more) := by
  unfold aggregate
  rw [List.flatten_cons, List.flatten_append, firstOfEach_append, firstOfEach_append]
  have hone : OnePerIdentity ((firstOfEach [] results.flatten).mergeSort precedes) :=
    aggregate_onePerIdentity results
  rw [firstOfEach_of_onePerIdentity hone]
  refine mergeSort_congr fun k => ?_
  rw [List.filter_append, List.filter_append, filter_mergeSort]
  congr 2
  refine firstOfEach_congr fun v _ => ?_
  have hperm := (List.mergeSort_perm (firstOfEach [] results.flatten) precedes).map (·.identity)
  rw [List.nil_append, List.nil_append, hperm.mem_iff, mem_map_identity_firstOfEach]

/-- Of each identity a report has the violation that comes first, and no other. -/
theorem filter_identity_aggregate (results : List (List Violation)) (i : Identity) :
    (aggregate results).filter (·.identity == i) = (results.flatten.find? (·.identity == i)).toList := by
  have hperm := (List.mergeSort_perm (firstOfEach [] results.flatten) precedes).filter (·.identity == i)
  rw [filter_identity_firstOfEach (by simp)] at hperm
  unfold aggregate
  cases hfirst : results.flatten.find? (·.identity == i) with
  | none =>
    rw [hfirst] at hperm
    exact hperm.eq_nil
  | some v =>
    rw [hfirst] at hperm
    exact List.perm_singleton.mp hperm

/-- **Putting results together can be staged.** A report is in the order of the sort keys; of each identity it
has the violation that comes first among the results and nothing else; violations of one sort key stand in it
as they stand in the results. A report that is put together again stays as it is, and more results can be
added to a finished report as well as to the results that it was made of: the two reports are one, violation
by violation. -/
theorem aggregate_in_stages (xs ys : List (List Violation)) :
    ((aggregate xs).Pairwise fun v w => (v.sortKey.compare w.sortKey).isLE = true) ∧
      (∀ i : Identity,
        (aggregate xs).filter (·.identity == i) = (xs.flatten.find? (·.identity == i)).toList) ∧
      (∀ k : SortKey, ((aggregate xs).filter (·.sortKey == k)).Sublist xs.flatten) ∧
      aggregate [aggregate xs] = aggregate xs ∧
      aggregate (aggregate xs :: ys) = aggregate (xs ++ ys) := by
  have hsorted : (aggregate xs).Pairwise fun v w => v.precedes w = true :=
    List.pairwise_mergeSort Violation.precedes_trans Violation.precedes_total _
  have hkept : ∀ k : SortKey, ((aggregate xs).filter (·.sortKey == k)).Sublist xs.flatten := by
    intro k
    rw [aggregate, filter_mergeSort]
    exact List.filter_sublist.trans (firstOfEach_sublist [] xs.flatten)
  have hagain : aggregate [aggregate xs] = aggregate xs := by
    rw [aggregate_aggregate, List.append_nil]
  exact ⟨hsorted, filter_identity_aggregate xs, hkept, hagain, aggregate_aggregate xs ys⟩

end HouseStyle
