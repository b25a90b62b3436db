import HouseStyle.Proofs.PlannedBatch
import Mathlib.Algebra.BigOperators.Group.List.Basic
import Mathlib.Algebra.Ring.Int.Defs

/-!
# Edits carried out at once

Edits are carried out one after another, from the end of the text to its start. If they lie in the text and
keep out of each other's way, that comes to carrying them out at once: what no edit reaches stays, in order,
and in between stands what the edits put in.

> `untouched t 0 edits`: the stretches of `t` in front of, between and behind the edits.

- `applyEdits_perm`: the order in which the edits are given makes no difference.
- `applyEdits_atOnce`: the new text is the untouched stretches and the replacements in turn, and what the edits
  put in and take away is the difference in length.
-/

namespace HouseStyle

/-! ## Batches in any order -/

/-- The order in which a batch is given makes no difference. -/
theorem applyEdits_perm {t : Text} {es fs : List Edit} (hbefore : fs.Pairwise Edit.Before) (h : es.Perm fs) :
    applyEdits t es = applyEdits t fs := by
  have hsame : es.mergeSort Edit.appliesBefore = fs.mergeSort Edit.appliesBefore := by
    refine List.Perm.eq_of_pairwise ?_
      (List.pairwise_mergeSort Edit.appliesBefore_trans Edit.appliesBefore_total es)
      (List.pairwise_mergeSort Edit.appliesBefore_trans Edit.appliesBefore_total fs)
      ((List.mergeSort_perm es _).trans (h.trans (List.mergeSort_perm fs _).symm))
    intro a b ha hb hab hba
    rw [List.mem_mergeSort] at ha hb
    simp only [Edit.appliesBefore, Bool.or_eq_true, Bool.and_eq_true, decide_eq_true_eq, beq_iff_eq] at hab hba
    exact eq_of_start_eq hbefore (h.mem_iff.mp ha) hb (by omega)
  rw [applyEdits, applyEdits, hsame]

theorem applyEdits_eq_splice_mergeSort {t : Text} {edits : List Edit}
    (hwithin : ∀ e ∈ edits, e.Within t.length) (hapart : edits.Pairwise fun a b => a.overlaps b = false) :
    applyEdits t edits = splice 0 t (edits.mergeSort Edit.precedes) := by
  have hbefore := pairwise_before_mergeSort hwithin hapart
  rw [applyEdits_perm hbefore (List.mergeSort_perm _ _).symm]
  exact applyEdits_eq_splice (fun e he => hwithin e (List.mem_mergeSort.mp he)) hbefore

/-! ## What stays and what is put in -/

/-- The stretches of a text that edits from left to right leave as they are, from an offset on: in front of the
first one, between one and the next, and behind the last one. -/
def untouched (t : Text) (o : Nat) : List Edit → List Text
  | [] => [t.drop o]
  | e :: es => t.extract o e.start.toNat :: untouched t e.stop.toNat es

/-- Two lists of texts in turn. -/
def interleave : List Text → List Text → Text
  | s :: ss, r :: rs => s ++ r ++ interleave ss rs
  | ss, _ => ss.flatten

/-- By how many glyphs an edit makes a text longer. -/
def Edit.growth (e : Edit) : Int := e.replacement.length - (e.stop - e.start)

/-- Edits put in from left to right leave the stretches between them as they are. -/
theorem splice_eq_interleave (t : Text) {o : Nat} {es : List Edit} (hstart : ∀ e ∈ es, (o : Int) ≤ e.start)
    (hwithin : ∀ e ∈ es, e.Within t.length) (hbefore : es.Pairwise Edit.Before) :
    splice o (t.drop o) es = interleave (untouched t o es) (es.map (·.replacement)) := by
  induction es generalizing o with
  | nil => simp [splice, untouched, interleave]
  | cons e es ih =>
    obtain ⟨hfirst, hrest⟩ := List.pairwise_cons.mp hbefore
    obtain ⟨h₀, hle, -⟩ := hwithin e List.mem_cons_self
    have ho := hstart e List.mem_cons_self
    have hbehind : (t.drop o).drop (e.stop.toNat - o) = t.drop e.stop.toNat := by
      rw [List.drop_drop]
      congr 1
      omega
    have hlater := @ih e.stop.toNat (fun a ha => by have := (hfirst a ha).1; omega)
      (fun a ha => hwithin a (List.mem_cons_of_mem e ha)) hrest
    rw [splice, hbehind, hlater, List.map_cons, untouched, interleave, List.extract_eq_take_drop]

/-- The length of a text with edits put in from left to right. -/
theorem length_splice {o : Nat} {t : Text} {es : List Edit} (hstart : ∀ e ∈ es, (o : Int) ≤ e.start)
    (hwithin : ∀ e ∈ es, e.Within (o + t.length : Nat)) (hbefore : es.Pairwise Edit.Before) :
    ((splice o t es).length : Int) = t.length + (es.map Edit.growth).sum := by
  induction es generalizing o t with
  | nil => simp [splice]
  | cons e es ih =>
    obtain ⟨hfirst, hrest⟩ := List.pairwise_cons.mp hbefore
    obtain ⟨h₀, hle, hend⟩ := hwithin e List.mem_cons_self
    have ho := hstart e List.mem_cons_self
    have hlen : (t.drop (e.stop.toNat - o)).length = t.length - (e.stop.toNat - o) := List.length_drop
    have hlater := @ih e.stop.toNat (t.drop (e.stop.toNat - o))
      (fun a ha => by have := (hfirst a ha).1; omega)
      (fun a ha => by
        have := hwithin a (List.mem_cons_of_mem e ha)
        rw [hlen]
        unfold Edit.Within at this ⊢
        omega) hrest
    rw [splice, List.length_append, List.length_append, List.length_take, List.map_cons, List.sum_cons,
      Edit.growth]
    omega

/-- Edits that lie in a text and keep out of each other's way, in whatever order they are given, are carried
out at once: what none of them reaches stays, and each replacement stands where its edit is. -/
theorem applyEdits_atOnce {t : Text} {es : List Edit} (hwithin : ∀ e ∈ es, e.Within t.length)
    (hapart : es.Pairwise fun a b => a.overlaps b = false) :
    (es.mergeSort Edit.precedes).Pairwise (fun a b => a.stop ≤ b.start) ∧
      applyEdits t es =
        interleave (untouched t 0 (es.mergeSort Edit.precedes)) ((es.mergeSort Edit.precedes).map (·.replacement)) ∧
      (∀ fs : List Edit, fs.Perm es → applyEdits t fs = applyEdits t es) ∧
      ((applyEdits t es).length : Int) =
        t.length + (es.map Edit.growth).sum := by
  have hbefore := pairwise_before_mergeSort hwithin hapart
  have hperm : (es.mergeSort Edit.precedes).Perm es := List.mergeSort_perm es _
  have hsorted : ∀ e ∈ es.mergeSort Edit.precedes, e.Within t.length := fun e he =>
    hwithin e (List.mem_mergeSort.mp he)
  have hstart : ∀ e ∈ es.mergeSort Edit.precedes, ((0 : Nat) : Int) ≤ e.start := fun e he => (hsorted e he).1
  have hsplice := applyEdits_eq_splice_mergeSort hwithin hapart
  refine ⟨hbefore.imp fun h => h.1, ?_, ?_, ?_⟩
  · rw [hsplice]
    exact splice_eq_interleave t hstart hsorted hbefore
  · intro fs hfs
    rw [applyEdits_perm hbefore (hfs.trans hperm.symm), applyEdits_perm hbefore hperm.symm]
  · rw [hsplice, length_splice hstart (by simpa using hsorted) hbefore]
    exact congrArg _ (hperm.map Edit.growth).sum_eq

/-- An insertion at the end of a stretch that is replaced, and one at the end of the text. -/
theorem applyEdits_three :
    (([⟨3, 3, Text.ofString "x"⟩, ⟨5, 5, Text.ofString "z"⟩, ⟨1, 3, Text.ofString "y"⟩] : List Edit).Pairwise
        fun a b => a.overlaps b = false) ∧
      ((applyEdits (Text.ofString "abcde")
        [⟨3, 3, Text.ofString "x"⟩, ⟨5, 5, Text.ofString "z"⟩, ⟨1, 3, Text.ofString "y"⟩]).length : Int) = 6 := by
  have hapart : ([⟨3, 3, Text.ofString "x"⟩, ⟨5, 5, Text.ofString "z"⟩, ⟨1, 3, Text.ofString "y"⟩] :
      List Edit).Pairwise fun a b => a.overlaps b = false := by
    decide
  refine ⟨hapart, ?_⟩
  rw [(applyEdits_atOnce (by decide) hapart).2.2.2]
  decide

end HouseStyle
