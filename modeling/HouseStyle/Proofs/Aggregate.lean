import HouseStyle.Report.Aggregate

/-!
# What a report keeps

Two violations of one identity count as one, and the first of them stays. `OnePerIdentity` says of a
list that no two of its violations have the same identity.

- `aggregate_onePerIdentity`: every report is such a list.
- `mem_aggregate_of_mem_front`: a violation of such a list stays in a report that it is put in front of.
- `count_aggregate`: of every identity among the results the report has exactly one violation.
-/

namespace HouseStyle

/-- No two violations of a list have the same identity. -/
def OnePerIdentity (vs : List Violation) : Prop := vs.Pairwise fun v w => v.identity ≠ w.identity

theorem firstOfEach_sublist (seen : List Identity) (vs : List Violation) :
    (firstOfEach seen vs).Sublist vs := by
  fun_induction firstOfEach seen vs with
  | case1 => exact List.Sublist.slnil
  | case2 seen v vs hseen ih => exact ih.cons v
  | case3 seen v vs hseen ih => exact ih.cons_cons v

theorem identity_notMem_seen {seen : List Identity} {vs : List Violation} {v : Violation}
    (h : v ∈ firstOfEach seen vs) : v.identity ∉ seen := by
  fun_induction firstOfEach seen vs with
  | case1 => exact absurd h (by simp)
  | case2 seen w vs hseen ih => exact ih h
  | case3 seen w vs hseen ih =>
    rcases List.mem_cons.mp h with rfl | h
    · simpa using hseen
    · exact fun hmem => ih h (List.mem_cons_of_mem _ hmem)

theorem firstOfEach_onePerIdentity (seen : List Identity) (vs : List Violation) :
    OnePerIdentity (firstOfEach seen vs) := by
  fun_induction firstOfEach seen vs with
  | case1 => exact List.Pairwise.nil
  | case2 seen v vs hseen ih => exact ih
  | case3 seen v vs hseen ih =>
    refine List.Pairwise.cons ?_ ih
    intro w hw heq
    exact identity_notMem_seen hw (by simp [heq])

/-- Every identity that was not seen before stays. -/
theorem exists_identity_mem_firstOfEach (seen : List Identity) {vs : List Violation} {v : Violation}
    (hv : v ∈ vs) (hseen : v.identity ∉ seen) :
    ∃ w ∈ firstOfEach seen vs, w.identity = v.identity := by
  fun_induction firstOfEach seen vs with
  | case1 => exact absurd hv (by simp)
  | case2 seen w vs hw ih =>
    rcases List.mem_cons.mp hv with rfl | hv
    · exact absurd hw (by simpa using hseen)
    · exact ih hv hseen
  | case3 seen w vs hw ih =>
    by_cases heq : w.identity = v.identity
    · exact ⟨w, List.mem_cons_self, heq⟩
    · rcases List.mem_cons.mp hv with rfl | hv
      · exact absurd rfl heq
      · obtain ⟨u, hu, hid⟩ := ih hv (by simpa [Ne.symm heq] using hseen)
        exact ⟨u, List.mem_cons_of_mem _ hu, hid⟩

/-- A list with one violation of each identity stays whole in front of others. -/
theorem sublist_firstOfEach_append {seen : List Identity} {vs ws : List Violation}
    (hone : OnePerIdentity vs) (hseen : ∀ v ∈ vs, v.identity ∉ seen) :
    vs.Sublist (firstOfEach seen (vs ++ ws)) := by
  induction vs generalizing seen with
  | nil => exact List.nil_sublist _
  | cons v vs ih =>
    obtain ⟨hfirst, hrest⟩ := List.pairwise_cons.mp hone
    rw [List.cons_append, firstOfEach, if_neg (by simpa using hseen v List.mem_cons_self)]
    refine (ih hrest ?_).cons_cons v
    intro w hw hmem
    rcases List.mem_cons.mp hmem with heq | hmem
    · exact hfirst w hw heq.symm
    · exact hseen w (List.mem_cons_of_mem _ hw) hmem

theorem mem_aggregate {results : List (List Violation)} {v : Violation} :
    v ∈ aggregate results ↔ v ∈ firstOfEach [] results.flatten := List.mem_mergeSort

/-- Violations that come up in order need not be sorted. -/
theorem aggregate_of_pairwise {results : List (List Violation)}
    (h : (firstOfEach [] results.flatten).Pairwise fun a b => Violation.precedes a b = true) :
    aggregate results = firstOfEach [] results.flatten := List.mergeSort_of_pairwise h

/-- A report invents nothing. -/
theorem exists_mem_of_mem_aggregate {results : List (List Violation)} {v : Violation}
    (h : v ∈ aggregate results) : ∃ vs ∈ results, v ∈ vs :=
  List.mem_flatten.mp ((firstOfEach_sublist _ _).subset (mem_aggregate.mp h))

theorem aggregate_onePerIdentity (results : List (List Violation)) :
    OnePerIdentity (aggregate results) :=
  (firstOfEach_onePerIdentity [] results.flatten).perm (List.mergeSort_perm _ _).symm Ne.symm

/-- A report has of each identity the violation that comes first. -/
theorem mem_firstOfEach_nil_iff {vs : List Violation} {v : Violation} :
    v ∈ firstOfEach [] vs ↔ vs.find? (·.identity == v.identity) = some v := by
  have hgeneral : ∀ seen, v.identity ∉ seen →
      (v ∈ firstOfEach seen vs ↔ vs.find? (·.identity == v.identity) = some v) := by
    intro seen hseen
    fun_induction firstOfEach seen vs with
    | case1 => simp
    | case2 seen w ws hw ih =>
      have hne : w.identity ≠ v.identity := fun heq => hseen (by simpa [heq] using hw)
      rw [List.find?_cons_of_neg (by simpa using hne)]
      exact ih hseen
    | case3 seen w ws hw ih =>
      by_cases heq : w.identity = v.identity
      · rw [List.find?_cons_of_pos (by simpa using heq), Option.some.injEq, List.mem_cons]
        constructor
        · rintro (rfl | h)
          · rfl
          · exact absurd (by simp [heq]) (identity_notMem_seen h)
        · exact fun h => Or.inl h.symm
      · rw [List.find?_cons_of_neg (by simpa using heq), List.mem_cons, ih (by simp [Ne.symm heq, hseen])]
        refine or_iff_right ?_
        rintro rfl
        exact heq rfl
  exact hgeneral [] (by simp)

theorem mem_aggregate_iff_find? {results : List (List Violation)} {v : Violation} :
    v ∈ aggregate results ↔
      results.findSome? (·.find? (·.identity == v.identity)) = some v := by
  rw [mem_aggregate, mem_firstOfEach_nil_iff, List.find?_flatten]

/-- Violations of one identity are placed at one path. -/
theorem pathText_eq_of_identity_eq {v w : Violation} (h : w.identity = v.identity) :
    w.pathText = v.pathText := by
  have hplace := congrArg Identity.place h
  unfold Violation.identity at hplace
  unfold Violation.pathText
  cases hlv : v.location <;> cases hlw : w.location <;> simp_all

/-- Two reports agree on a violation if the results that they are put together from do, one by one. -/
theorem mem_aggregate_congr {files : List SourcePath} {f g : SourcePath → List Violation}
    {notes : List Violation} {v : Violation}
    (h : ∀ p ∈ files, (f p).find? (·.identity == v.identity) = (g p).find? (·.identity == v.identity)) :
    v ∈ aggregate (files.map f ++ [notes]) ↔ v ∈ aggregate (files.map g ++ [notes]) := by
  have hfiles : (files.map f).findSome? (·.find? (·.identity == v.identity)) =
      (files.map g).findSome? (·.find? (·.identity == v.identity)) := by
    induction files with
    | nil => rfl
    | cons p files ih =>
      rw [List.forall_mem_cons] at h
      simp only [List.map_cons, List.findSome?_cons, h.1, ih h.2]
  rw [mem_aggregate_iff_find?, mem_aggregate_iff_find?, List.findSome?_append, List.findSome?_append,
    hfiles]

theorem mem_aggregate_of_mem_front {vs ws : List Violation} (hone : OnePerIdentity vs) {v : Violation}
    (hv : v ∈ vs) : v ∈ aggregate [vs, ws] := by
  rw [mem_aggregate, List.flatten_cons]
  exact (sublist_firstOfEach_append hone (by simp)).subset hv

/-- A violation at the back of a report stays if no other one has its identity. -/
theorem mem_aggregate_of_identity_new {results : List (List Violation)} {v : Violation}
    (hv : v ∈ results.flatten) (hnew : ∀ w ∈ results.flatten, w.identity = v.identity → w = v) :
    v ∈ aggregate results := by
  obtain ⟨w, hw, hid⟩ := exists_identity_mem_firstOfEach [] hv (by simp)
  rw [mem_aggregate, ← hnew w ((firstOfEach_sublist _ _).subset hw) hid]
  exact hw

theorem countP_eq_one_of_onePerIdentity {vs : List Violation} {v : Violation} (hone : OnePerIdentity vs)
    (hv : v ∈ vs) : vs.countP (fun w => w.identity == v.identity) = 1 := by
  induction vs with
  | nil => exact absurd hv (by simp)
  | cons w vs ih =>
    obtain ⟨hfirst, hrest⟩ := List.pairwise_cons.mp hone
    rcases List.mem_cons.mp hv with rfl | hv
    · rw [List.countP_cons_of_pos (by simp), Nat.add_eq_right, List.countP_eq_zero]
      intro u hu
      simpa using Ne.symm (hfirst u hu)
    · rw [List.countP_cons_of_neg (by simpa using hfirst v hv), ih hrest hv]

/-- Of every identity among the results the report has exactly one violation. -/
theorem count_aggregate {results : List (List Violation)} {v : Violation} (hv : v ∈ results.flatten) :
    (aggregate results).countP (fun w => w.identity == v.identity) = 1 := by
  obtain ⟨w, hw, hid⟩ := exists_identity_mem_firstOfEach [] hv (by simp)
  rw [← hid]
  exact countP_eq_one_of_onePerIdentity (aggregate_onePerIdentity results) (mem_aggregate.mpr hw)

end HouseStyle
