import HouseStyle.Proofs.Batch
import Mathlib.Data.List.Pairwise

/-!
# Which batches are planned

The check of a batch compares each edit with the one before it and with the one that has reached furthest, and
that is enough: in a batch that passes, every edit is over before the next one starts, so that all pairs keep
out of each other's way.

- `exists_planEdits_iff`: a batch is planned exactly if its edits lie in the text and no two different ones
  overlap.
- `planEdits_eq_error`: edits that lie in the text are refused for an overlap only.
- `planEdits_conflictFree`: both sides of this for the edits of any violations, with the order of the plan.
-/

namespace HouseStyle

/-! ## Edits that keep out of each other's way -/

namespace Edit

theorem overlaps_comm (a b : Edit) : a.overlaps b = b.overlaps a := by
  unfold overlaps
  cases a.isInsertion <;> cases b.isInsertion <;> simp [Bool.and_comm, Bool.beq_comm]

/-- An edit that is over before another one starts is not in its way. -/
theorem not_overlaps_of_before {a b : Edit} {length : Int} (ha : a.Within length) (hb : b.Within length)
    (h : a.Before b) : b.overlaps a = false := by
  obtain ⟨-, ha, -⟩ := ha
  obtain ⟨-, hb, -⟩ := hb
  obtain ⟨h₁, h₂⟩ := h
  unfold overlaps
  split <;> split <;> simp only [beq_eq_false_iff_ne, ne_eq, Bool.and_eq_false_iff, decide_eq_false_iff_not] <;>
    omega

end Edit

/-! ## The check -/

/-- Edits in order and apart pass the check. -/
theorem checkBatch_of_before {length : Int} {previous widest : Option Edit} {es : List Edit}
    (hwithin : ∀ e ∈ es, e.Within length) (hbefore : es.Pairwise Edit.Before)
    (hprevious : ∀ p ∈ previous.toList ++ widest.toList, p.Within length ∧ ∀ e ∈ es, p.Before e) :
    checkBatch length previous widest es = .ok () := by
  induction es generalizing previous widest with
  | nil => rfl
  | cons e es ih =>
    obtain ⟨h₀, hle, hend⟩ := hwithin e List.mem_cons_self
    have he := hwithin e List.mem_cons_self
    obtain ⟨hfirst, hrest⟩ := List.pairwise_cons.mp hbefore
    have hclear : (previous.toList ++ widest.toList).find? e.overlaps = none := by
      refine List.find?_eq_none.mpr fun p hp => ?_
      obtain ⟨hpwithin, hpbefore⟩ := hprevious p hp
      rw [Edit.not_overlaps_of_before hpwithin he (hpbefore e List.mem_cons_self)]
      decide
    unfold checkBatch
    rw [if_neg (by simp; omega), hclear]
    refine ih (fun a ha => hwithin a (List.mem_cons_of_mem e ha)) hrest fun p hp => ?_
    -- what has reached furthest is the edit at hand or what it was before
    have hcases : p = e ∨ p ∈ previous.toList ++ widest.toList := by
      rcases List.mem_append.mp hp with hp | hp
      · exact Or.inl (by simpa using hp)
      · cases widest with
        | none => exact Or.inl (by simpa using hp)
        | some w =>
          dsimp only at hp
          split at hp
          · exact Or.inl (by simpa using hp)
          · exact Or.inr (List.mem_append_right _ hp)
    rcases hcases with rfl | hp
    · exact ⟨he, hfirst⟩
    · exact ⟨(hprevious p hp).1, fun a ha => (hprevious p hp).2 a (List.mem_cons_of_mem e ha)⟩

theorem nodup_distinctEdits (es : List Edit) : (distinctEdits es).Nodup := by
  induction es with
  | nil => exact List.nodup_nil
  | cons e es ih =>
    rw [distinctEdits, List.nodup_cons]
    exact ⟨fun h => by simpa using (List.mem_filter.mp h).2, ih.sublist List.filter_sublist⟩

/-- Edits that keep out of each other's way are in order and apart once they are sorted. -/
theorem pairwise_before_mergeSort {length : Int} {edits : List Edit} (hwithin : ∀ e ∈ edits, e.Within length)
    (hapart : edits.Pairwise fun a b => a.overlaps b = false) :
    (edits.mergeSort Edit.precedes).Pairwise Edit.Before := by
  have hsorted := List.pairwise_mergeSort Edit.precedes_trans Edit.precedes_total edits
  have hclear : (edits.mergeSort Edit.precedes).Pairwise fun a b => a.overlaps b = false :=
    hapart.perm (List.mergeSort_perm _ _).symm fun h => by rwa [Edit.overlaps_comm]
  refine (hsorted.and hclear).imp_of_mem fun {a b} ha hb h => ?_
  have horder : a.start ≤ b.start := by
    have := (Edit.precedes_iff a b).mp h.1
    omega
  exact Edit.before_of_not_overlaps (hwithin a (List.mem_mergeSort.mp ha)) (hwithin b (List.mem_mergeSort.mp hb))
    horder (by rw [Edit.overlaps_comm]; exact h.2)

/-- A batch is planned when its edits lie in the text and no two different ones get in each other's way. -/
theorem exists_planEdits_iff {length : Int} {edits : List Edit} :
    (∃ planned, planEdits length edits = .ok planned) ↔
      (∀ e ∈ edits, e.Within length) ∧ ∀ a ∈ edits, ∀ b ∈ edits, a = b ∨ a.overlaps b = false := by
  constructor
  · rintro ⟨planned, hplan⟩
    obtain ⟨hmem, hwithin, hbefore⟩ := planEdits_ok hplan
    refine ⟨fun e he => hwithin e ((hmem e).mpr he), fun a ha b hb => ?_⟩
    have hsymm : Std.Symm fun a b : Edit => a.overlaps b = false := ⟨fun a b h => by rwa [Edit.overlaps_comm]⟩
    have happart := hbefore.imp_of_mem (S := fun a b => a.overlaps b = false) fun {a b} ha hb h => by
      rw [Edit.overlaps_comm]
      exact Edit.not_overlaps_of_before (hwithin a ha) (hwithin b hb) h
    exact Decidable.or_iff_not_imp_left.mpr fun hne => happart.forall ((hmem a).mpr ha) ((hmem b).mpr hb) hne
  · rintro ⟨hwithin, hclear⟩
    refine ⟨(distinctEdits edits).mergeSort Edit.precedes, ?_⟩
    have hwithin' : ∀ e ∈ distinctEdits edits, e.Within length := fun e he => hwithin e (mem_distinctEdits.mp he)
    have hapart : (distinctEdits edits).Pairwise fun a b => a.overlaps b = false := by
      refine (nodup_distinctEdits edits).imp_of_mem fun {a b} ha hb hne => ?_
      exact (hclear a (mem_distinctEdits.mp ha) b (mem_distinctEdits.mp hb)).resolve_left hne
    have hcheck := @checkBatch_of_before length none none _
      (fun e he => hwithin' e (List.mem_mergeSort.mp he)) (pairwise_before_mergeSort hwithin' hapart) (by simp)
    rw [planEdits, hcheck]
    rfl

/-- Edits that lie in the text are only refused because two of them get in each other's way. -/
theorem checkBatch_eq_error {length : Int} {previous widest : Option Edit} {es : List Edit} {r : FixRejection}
    (hwithin : ∀ e ∈ es, e.Within length) (h : checkBatch length previous widest es = .error r) :
    ∃ first second, r = .overlap first second := by
  induction es generalizing previous widest with
  | nil => exact absurd h (by simp [checkBatch])
  | cons e es ih =>
    obtain ⟨h₀, hle, hend⟩ := hwithin e List.mem_cons_self
    unfold checkBatch at h
    rw [if_neg (by simp; omega)] at h
    split at h
    next other hother => exact ⟨other.start, e.start, (Except.error.inj h).symm⟩
    next => exact ih (fun a ha => hwithin a (List.mem_cons_of_mem e ha)) h

theorem planEdits_eq_error {length : Int} {edits : List Edit} {r : FixRejection}
    (hwithin : ∀ e ∈ edits, e.Within length) (h : planEdits length edits = .error r) :
    ∃ first second, r = .overlap first second := by
  unfold planEdits at h
  dsimp only at h
  cases hc : checkBatch length none none ((distinctEdits edits).mergeSort Edit.precedes) with
  | ok u =>
    rw [hc] at h
    exact absurd h (by simp [Except.map])
  | error r' =>
    rw [hc] at h
    obtain rfl : r' = r := Except.error.inj h
    exact checkBatch_eq_error (fun e he => hwithin e (mem_distinctEdits.mp (List.mem_mergeSort.mp he))) hc

section

variable {t : Text} {vs : List Violation}

theorem applyFixes_of_planEdits_error {r : FixRejection}
    (h : planEdits t.length ((fixableViolations vs).flatMap (·.edits)) = .error r) :
    applyFixes t vs = .error r := by
  unfold applyFixes
  rw [h]

/-- Edits in each other's way are refused for it. -/
theorem applyFixes_of_overlapping
    (hwithin : ∀ e ∈ (fixableViolations vs).flatMap (·.edits), e.Within t.length)
    (h : ¬ ∀ a ∈ (fixableViolations vs).flatMap (·.edits), ∀ b ∈ (fixableViolations vs).flatMap (·.edits),
      a = b ∨ a.overlaps b = false) :
    ∃ first second, applyFixes t vs = .error (.overlap first second) := by
  cases hplan : planEdits t.length ((fixableViolations vs).flatMap (·.edits)) with
  | ok planned => exact absurd (exists_planEdits_iff.mp ⟨planned, hplan⟩).2 h
  | error r =>
    obtain ⟨first, second, rfl⟩ := planEdits_eq_error hwithin hplan
    exact ⟨first, second, applyFixes_of_planEdits_error hplan⟩

/-- A batch that is planned is only refused for what the new text declares. -/
theorem applyFixes_eq_error {planned : List Edit}
    (h : planEdits t.length ((fixableViolations vs).flatMap (·.edits)) = .ok planned) {r : FixRejection}
    (hr : applyFixes t vs = .error r) : r = .kindsChanged := by
  unfold applyFixes at hr
  rw [h] at hr
  split at hr
  next heq => exact absurd heq (by simp)
  next => exact absurd hr (by simp)
  next =>
    dsimp only at hr
    split at hr
    · exact absurd hr (by simp)
    · exact (Except.error.inj hr).symm

end

/-! ## The edits of violations -/

/-- The edits of some violations are planned exactly if each of them lies in the text and no two different ones
overlap, whichever of the two is asked. The plan holds each of them once, in the order of their starts and
ends. -/
theorem planEdits_conflictFree (length : Int) (vs : List Violation) :
    ((∃ planned, planEdits length (vs.flatMap (·.edits)) = .ok planned) ↔
        (∀ v ∈ vs, ∀ e ∈ v.edits, 0 ≤ e.start ∧ e.start ≤ e.stop ∧ e.stop ≤ length) ∧
          ∀ v ∈ vs, ∀ a ∈ v.edits, ∀ w ∈ vs, ∀ b ∈ w.edits, a ≠ b → a.overlaps b = false) ∧
      (∀ a b : Edit, a.overlaps b = b.overlaps a) ∧
      ∀ planned, planEdits length (vs.flatMap (·.edits)) = .ok planned →
        planned.Nodup ∧ (∀ e, e ∈ planned ↔ ∃ v ∈ vs, e ∈ v.edits) ∧
          planned.Pairwise fun a b => a.start < b.start ∨ a.start = b.start ∧ a.stop < b.stop := by
  refine ⟨?_, Edit.overlaps_comm, ?_⟩
  · rw [exists_planEdits_iff]
    constructor
    · rintro ⟨hwithin, hclear⟩
      refine ⟨fun v hv e he => hwithin e (List.mem_flatMap.mpr ⟨v, hv, he⟩), ?_⟩
      intro v hv a ha w hw b hb hne
      have hmem := hclear a (List.mem_flatMap.mpr ⟨v, hv, ha⟩) b (List.mem_flatMap.mpr ⟨w, hw, hb⟩)
      exact hmem.resolve_left hne
    · rintro ⟨hwithin, hclear⟩
      constructor
      · intro e he
        obtain ⟨v, hv, he⟩ := List.mem_flatMap.mp he
        exact hwithin v hv e he
      · intro a ha b hb
        obtain ⟨v, hv, ha⟩ := List.mem_flatMap.mp ha
        obtain ⟨w, hw, hb⟩ := List.mem_flatMap.mp hb
        by_cases heq : a = b
        · exact Or.inl heq
        · exact Or.inr (hclear v hv a ha w hw b hb heq)
  · intro planned hplan
    obtain ⟨hmem, -, hbefore⟩ := planEdits_ok hplan
    have hstart : planned.Pairwise fun a b => a.start < b.start := hbefore.imp fun h => h.2
    refine ⟨hstart.imp ?_, fun e => (hmem e).trans List.mem_flatMap, hstart.imp Or.inl⟩
    rintro a _ hlt rfl
    exact absurd hlt (Int.lt_irrefl _)

/-- A stretch that is taken away, and an insertion at its end that is asked for twice. -/
def touchingEdits : List Violation :=
  let insertion : Edit := ⟨3, 3, Text.ofString "x"⟩
  let removal : Edit := ⟨1, 3, []⟩
  [[insertion, removal], [insertion]].map fun edits =>
    { ruleId := "naming-casing", severity := .info, message := "", category := .naming, edits }

/-- Edits that touch are planned, each of them once. -/
theorem planEdits_touching :
    ∃ planned, planEdits 3 (touchingEdits.flatMap (·.edits)) = .ok planned ∧ planned.Nodup ∧
      (∀ e, e ∈ planned ↔ ∃ v ∈ touchingEdits, e ∈ v.edits) ∧
      planned.Pairwise fun a b => a.start < b.start ∨ a.start = b.start ∧ a.stop < b.stop := by
  obtain ⟨planned, hplan⟩ := (planEdits_conflictFree 3 touchingEdits).1.mpr (by decide)
  exact ⟨planned, hplan, (planEdits_conflictFree 3 touchingEdits).2.2 planned hplan⟩

end HouseStyle
