import HouseStyle.Fix.Batch

/-!
# What a batch of edits does to a text

A batch that passes its check is a list of edits from left to right: each one lies in the text and
ends before the next one starts (`Edit.Before`). For such a batch the order in which it is carried
out is immaterial, and the new text can be read off from left to right:

> `splice o t edits`: the text `t`, which begins at the offset `o`, with the edits put in.

- `planEdits_ok`: the planned batch holds the given edits, each once, in order and apart.
- `applyEdits_eq_splice`: carrying it out from its end gives the splice.
- `applyFixes_ok`: both together, for the fixable violations of a file.
-/

namespace HouseStyle

/-! ## The order of texts and of edits -/

namespace Text

theorem precedes_iff (a b : Text) : precedes a b = true ↔ a.map Glyph.code < b.map Glyph.code := by
  induction a generalizing b with
  | nil => cases b <;> simp [precedes]
  | cons x a ih =>
    cases b with
    | nil => simp [precedes]
    | cons y b => simp [precedes, ih, List.cons_lt_cons_iff]

theorem precedes_asymm {a b : Text} (h : precedes a b = true) : precedes b a = false := by
  rw [Bool.eq_false_iff, Ne, precedes_iff]
  exact List.not_lt.mpr (List.le_of_lt ((precedes_iff a b).mp h))

theorem not_precedes_trans {a b c : Text} (hab : precedes b a = false) (hbc : precedes c b = false) :
    precedes c a = false := by
  rw [Bool.eq_false_iff, Ne, precedes_iff, List.not_lt] at *
  exact List.le_trans hab hbc

end Text

namespace Edit

theorem precedes_iff (a b : Edit) :
    a.precedes b = true ↔
      a.start < b.start ∨
        a.start = b.start ∧ (a.stop < b.stop ∨
          a.stop = b.stop ∧ Text.precedes b.replacement a.replacement = false) := by
  simp [precedes]

theorem precedes_trans (a b c : Edit) (hab : a.precedes b = true) (hbc : b.precedes c = true) :
    a.precedes c = true := by
  rw [precedes_iff] at *
  rcases hab with hab | ⟨hab, hab' | ⟨hab', hr⟩⟩
  · left; omega
  · rcases hbc with hbc | ⟨hbc, hbc' | ⟨hbc', -⟩⟩ <;> omega
  · rcases hbc with hbc | ⟨hbc, hbc' | ⟨hbc', hr'⟩⟩
    · left; omega
    · right; omega
    · exact Or.inr ⟨by omega, Or.inr ⟨by omega, Text.not_precedes_trans hr hr'⟩⟩

theorem precedes_total (a b : Edit) : (a.precedes b || b.precedes a) = true := by
  rw [Bool.or_eq_true, precedes_iff, precedes_iff]
  rcases Int.lt_trichotomy a.start b.start with h | h | h
  · exact Or.inl (Or.inl h)
  · rcases Int.lt_trichotomy a.stop b.stop with h' | h' | h'
    · exact Or.inl (Or.inr ⟨h, Or.inl h'⟩)
    · cases hr : Text.precedes b.replacement a.replacement with
      | false => exact Or.inl (Or.inr ⟨h, Or.inr ⟨h', rfl⟩⟩)
      | true => exact Or.inr (Or.inr ⟨h.symm, Or.inr ⟨h'.symm, Text.precedes_asymm hr⟩⟩)
    · exact Or.inr (Or.inr ⟨h.symm, Or.inl h'⟩)
  · exact Or.inr (Or.inl h)

theorem appliesBefore_trans (a b c : Edit) (hab : a.appliesBefore b = true)
    (hbc : b.appliesBefore c = true) : a.appliesBefore c = true := by
  simp only [appliesBefore, Bool.or_eq_true, Bool.and_eq_true, decide_eq_true_eq, beq_iff_eq] at *
  omega

theorem appliesBefore_total (a b : Edit) : (a.appliesBefore b || b.appliesBefore a) = true := by
  simp only [appliesBefore, Bool.or_eq_true, Bool.and_eq_true, decide_eq_true_eq, beq_iff_eq]
  omega

/-- One edit is over before another starts. -/
def Before (a b : Edit) : Prop := a.stop ≤ b.start ∧ a.start < b.start

/-- An edit lies in a text of some length. -/
def Within (e : Edit) (length : Int) : Prop := 0 ≤ e.start ∧ e.start ≤ e.stop ∧ e.stop ≤ length

instance (e : Edit) (length : Int) : Decidable (e.Within length) := inferInstanceAs (Decidable (_ ∧ _ ∧ _))

theorem Before.trans {a b c : Edit} {length : Int} (hb : b.Within length) (hab : a.Before b)
    (hbc : b.Before c) : a.Before c := by
  obtain ⟨h₁, h₂⟩ := hab
  obtain ⟨h₃, h₄⟩ := hbc
  obtain ⟨-, h₅, -⟩ := hb
  exact ⟨by omega, by omega⟩

/-- Of two edits in order that keep out of each other's way the first is over before the second
starts. -/
theorem before_of_not_overlaps {a b : Edit} {length : Int} (ha : a.Within length)
    (hb : b.Within length) (horder : a.start ≤ b.start) (h : b.overlaps a = false) : a.Before b := by
  obtain ⟨-, ha, -⟩ := ha
  obtain ⟨-, hb, -⟩ := hb
  unfold Before
  unfold overlaps isInsertion at h
  simp only [beq_iff_eq] at h
  -- the four cases: either edit is an insertion or not
  split at h
  next hib =>
    split at h
    next hia => simp only [beq_eq_false_iff_ne, ne_eq] at h; omega
    next hia =>
      simp only [Bool.and_eq_false_iff, decide_eq_false_iff_not] at h
      omega
  next hib =>
    split at h
    next hia =>
      simp only [Bool.and_eq_false_iff, decide_eq_false_iff_not] at h
      omega
    next hia =>
      simp only [Bool.and_eq_false_iff, decide_eq_false_iff_not] at h
      omega

end Edit

/-! ## The check -/

theorem mem_distinctEdits {e : Edit} {es : List Edit} : e ∈ distinctEdits es ↔ e ∈ es := by
  induction es with
  | nil => simp [distinctEdits]
  | cons f es ih =>
    simp only [distinctEdits, List.mem_cons, List.mem_filter, ih, bne_iff_ne, ne_eq]
    by_cases h : e = f <;> simp [h]

/-- What is checked one after another is in order and apart. -/
theorem checkBatch_ok {length : Int} {previous widest : Option Edit} {es : List Edit}
    (h : checkBatch length previous widest es = .ok ())
    (hprevious : ∀ p ∈ previous, p.Within length)
    (hsorted : (previous.toList ++ es).Pairwise fun a b => a.start ≤ b.start) :
    (∀ e ∈ es, e.Within length) ∧ (previous.toList ++ es).Pairwise Edit.Before := by
  induction es generalizing previous widest with
  | nil =>
    refine ⟨by simp, ?_⟩
    cases previous <;> simp
  | cons e es ih =>
    unfold checkBatch at h
    split at h
    next => exact absurd h (by simp)
    next hrange =>
      have he : e.Within length := by
        simp only [Bool.or_eq_true, decide_eq_true_eq, not_or] at hrange
        exact ⟨by omega, by omega, by omega⟩
      split at h
      next => exact absurd h (by simp)
      next hnone =>
        have hrest := hsorted.sublist (List.sublist_append_right _ _)
        obtain ⟨hwithin, hbefore⟩ := ih h (by simpa using he) (by simpa using hrest)
        refine ⟨by simpa using ⟨he, hwithin⟩, ?_⟩
        cases previous with
        | none => simpa using hbefore
        | some p =>
          -- the edit before keeps out of the way of the first one, and so of all others
          have hp := hprevious p rfl
          have hclear : e.overlaps p = false := by
            rw [List.find?_eq_none] at hnone
            simpa using hnone p (by simp)
          have horder := (List.pairwise_cons.mp hsorted).1 e (by simp)
          have hpe := Edit.before_of_not_overlaps hp he horder hclear
          simp only [Option.toList_some, List.singleton_append] at hbefore ⊢
          refine List.Pairwise.cons ?_ hbefore
          intro b hb
          rcases List.mem_cons.mp hb with rfl | hb
          · exact hpe
          · exact Edit.Before.trans he hpe (List.rel_of_pairwise_cons hbefore hb)

/-- A batch that is planned holds the given edits, lies in the text and is in order and apart. -/
theorem planEdits_ok {length : Int} {edits planned : List Edit}
    (h : planEdits length edits = .ok planned) :
    (∀ e, e ∈ planned ↔ e ∈ edits) ∧ (∀ e ∈ planned, e.Within length) ∧
      planned.Pairwise Edit.Before := by
  unfold planEdits at h
  dsimp only at h
  cases hc : checkBatch length none none ((distinctEdits edits).mergeSort Edit.precedes) with
  | error r => rw [hc] at h; exact absurd h (by simp [Except.map])
  | ok u =>
    rw [hc] at h
    simp only [Except.map, Except.ok.injEq] at h
    subst h
    refine ⟨fun e => ?_, ?_⟩
    · rw [List.mem_mergeSort, mem_distinctEdits]
    · refine checkBatch_ok hc (by simp) ?_
      have hsorted := List.pairwise_mergeSort Edit.precedes_trans Edit.precedes_total (distinctEdits edits)
      refine hsorted.imp ?_
      intro a b hab
      rw [Edit.precedes_iff] at hab
      omega

/-! ## Carrying it out -/

/-- A text that begins at an offset, with edits put in from left to right. -/
def splice (o : Nat) (t : Text) : List Edit → Text
  | [] => t
  | e :: es =>
    t.take (e.start.toNat - o) ++ e.replacement ++
      splice e.stop.toNat (t.drop (e.stop.toNat - o)) es

theorem applyEdit_of_within {t : Text} {e : Edit} (h : e.Within t.length) :
    applyEdit t e = t.take e.start.toNat ++ e.replacement ++ t.drop e.stop.toNat := by
  obtain ⟨h₀, hle, hend⟩ := h
  have offset : ∀ o : Int, 0 ≤ o → o ≤ t.length → offsetIn t o = o.toNat := by
    intro o h₀ h
    unfold offsetIn
    rw [if_neg (by omega)]
    omega
  unfold applyEdit
  rw [offset _ h₀ (by omega), offset _ (by omega) hend]

/-- Edits carried out from the last to the first: what stands before an edit is left alone by the
later ones. -/
theorem foldr_applyEdit {o : Nat} (front : Text) {t : Text} {es : List Edit} (hfront : front.length = o)
    (hwithin : ∀ e ∈ es, e.Within (front ++ t).length) (hstart : ∀ e ∈ es, (o : Int) ≤ e.start)
    (hbefore : es.Pairwise Edit.Before) :
    es.foldr (fun e t => applyEdit t e) (front ++ t) = front ++ splice o t es := by
  induction es generalizing o front t with
  | nil => rfl
  | cons e es ih =>
    obtain ⟨h₀, hle, hend⟩ := hwithin e (by simp)
    have ho := hstart e (by simp)
    rw [List.length_append] at hend
    -- the text splits where the edit ends; the later edits only reach what comes after
    have hsplit : front ++ t = (front ++ t.take (e.stop.toNat - o)) ++ t.drop (e.stop.toNat - o) := by
      rw [List.append_assoc, List.take_append_drop]
    have hlen : (front ++ t.take (e.stop.toNat - o)).length = e.stop.toNat := by
      rw [List.length_append, List.length_take]
      omega
    have hlater := ih (front ++ t.take (e.stop.toNat - o)) (t := t.drop (e.stop.toNat - o)) hlen
      (by intro a ha; rw [← hsplit]; exact hwithin a (by simp [ha]))
      (by intro a ha; have := (List.rel_of_pairwise_cons hbefore ha).1; omega)
      (List.pairwise_cons.mp hbefore).2
    have htake : (front ++ t.take (e.stop.toNat - o)).take e.start.toNat =
        front ++ t.take (e.start.toNat - o) := by
      rw [List.take_append, List.take_of_length_le (by omega), List.take_take, hfront,
        Nat.min_eq_left (by omega)]
    rw [List.foldr_cons, hsplit, hlater, applyEdit_of_within]
    · rw [List.take_append_of_le_length (by omega), htake, List.drop_left' hlen, splice]
      simp only [List.append_assoc]
    · exact ⟨h₀, hle, by rw [List.length_append, hlen]; omega⟩

/-- Edits that are apart have different starts. -/
theorem eq_of_start_eq {es : List Edit} (hbefore : es.Pairwise Edit.Before) {a b : Edit}
    (ha : a ∈ es) (hb : b ∈ es) (h : a.start = b.start) : a = b := by
  induction es with
  | nil => exact absurd ha (by simp)
  | cons e es ih =>
    obtain ⟨hfirst, hrest⟩ := List.pairwise_cons.mp hbefore
    rcases List.mem_cons.mp ha with rfl | ha' <;> rcases List.mem_cons.mp hb with rfl | hb'
    · rfl
    · have := (hfirst b hb').2
      omega
    · have := (hfirst a ha').2
      omega
    · exact ih hrest ha' hb'

/-- Edits in order and apart can be put in from left to right. -/
theorem applyEdits_eq_splice {t : Text} {es : List Edit} (hwithin : ∀ e ∈ es, e.Within t.length)
    (hbefore : es.Pairwise Edit.Before) : applyEdits t es = splice 0 t es := by
  have hreverse : es.mergeSort Edit.appliesBefore = es.reverse := by
    have hrel : es.reverse.Pairwise fun a b => a.appliesBefore b = true := by
      rw [List.pairwise_reverse]
      refine hbefore.imp ?_
      intro a b hab
      simp [Edit.appliesBefore, hab.2]
    refine List.Perm.eq_of_pairwise ?_
      (List.pairwise_mergeSort Edit.appliesBefore_trans Edit.appliesBefore_total es) hrel
      ((List.mergeSort_perm es _).trans (List.reverse_perm es).symm)
    intro a b ha hb hab hba
    rw [List.mem_mergeSort] at ha
    rw [List.mem_reverse] at hb
    simp only [Edit.appliesBefore, Bool.or_eq_true, Bool.and_eq_true, decide_eq_true_eq, beq_iff_eq]
      at hab hba
    exact eq_of_start_eq hbefore ha hb (by omega)
  unfold applyEdits
  rw [hreverse, List.foldl_reverse]
  exact foldr_applyEdit [] rfl (by simpa using hwithin)
    (by intro e he; exact (hwithin e he).1) hbefore

/-- Edits that leave a text as it is: what the first one puts in stands there already. -/
theorem drop_start_of_splice_eq {t : Text} {e : Edit} {es : List Edit}
    (h : splice 0 t (e :: es) = t) :
    t.drop e.start.toNat = e.replacement ++ splice e.stop.toNat (t.drop e.stop.toNat) es := by
  have hcut := (List.take_append_drop e.start.toNat t).trans h.symm
  unfold splice at hcut
  rw [Nat.sub_zero, Nat.sub_zero, List.append_assoc] at hcut
  exact List.append_cancel_left hcut

/-- Behind an offset, a text with edits put in starts as it did before, or with what an edit puts in. -/
theorem head_splice {o : Nat} {t : Text} {es : List Edit} (ho : o ≤ t.length)
    (hwithin : ∀ e ∈ es, e.Within t.length) (hne : ∀ e ∈ es, e.replacement ≠ []) :
    (splice o (t.drop o) es).head? = (t.drop o).head? ∨
      ∃ e ∈ es, e.start ≤ o ∧ (splice o (t.drop o) es).head? = e.replacement.head? := by
  cases es with
  | nil => exact Or.inl rfl
  | cons e es =>
    obtain ⟨h₀, hle, hend⟩ := hwithin e List.mem_cons_self
    have hlen : (t.drop o).length = t.length - o := List.length_drop
    unfold splice
    by_cases hstart : e.start ≤ o
    · right
      refine ⟨e, List.mem_cons_self, hstart, ?_⟩
      obtain ⟨g, more, hg⟩ := List.exists_cons_of_ne_nil (hne e List.mem_cons_self)
      rw [show e.start.toNat - o = 0 by omega, hg]
      rfl
    · left
      cases hrest : t.drop o with
      | nil =>
        rw [hrest, List.length_nil] at hlen
        omega
      | cons g rest =>
        rw [show e.start.toNat - o = (e.start.toNat - o - 1) + 1 by omega]
        rfl

/-- When fixes are applied: the batch is planned, and if it holds any edit the result declares the same
kinds of entities. -/
theorem applyFixes_eq_ok_iff {t updated : Text} {vs : List Violation} :
    applyFixes t vs = .ok updated ↔
      ∃ edits, planEdits t.length ((fixableViolations vs).flatMap (·.edits)) = .ok edits ∧
        updated = applyEdits t edits ∧ entityKinds updated = entityKinds t := by
  unfold applyFixes
  split
  next r hr => simp [hr]
  next hp =>
    have hnone : applyEdits t [] = t := by simp [applyEdits]
    simp only [hp, Except.ok.injEq, exists_eq_left', hnone]
    constructor
    · rintro rfl
      exact ⟨rfl, rfl⟩
    · exact fun h => h.1.symm
  next edits hne hp =>
    dsimp only
    simp only [hp, Except.ok.injEq, exists_eq_left']
    split
    next hkinds =>
      rw [Except.ok.injEq]
      constructor
      · rintro rfl
        exact ⟨rfl, hkinds⟩
      · exact fun h => h.1.symm
    next hkinds =>
      constructor
      · simp
      · rintro ⟨rfl, h⟩
        exact absurd h hkinds

/-- What it means that the fixes of some violations are applied: their edits keep apart, the text
is their splice, and if there are any it declares the same kinds of entities as before. -/
theorem applyFixes_ok {t updated : Text} {vs : List Violation} (h : applyFixes t vs = .ok updated) :
    ∃ edits, (∀ e, e ∈ edits ↔ ∃ v ∈ fixableViolations vs, e ∈ v.edits) ∧
      (∀ e ∈ edits, e.Within t.length) ∧ edits.Pairwise Edit.Before ∧ updated = splice 0 t edits ∧
      (edits ≠ [] → entityKinds updated = entityKinds t) := by
  unfold applyFixes at h
  cases hp : planEdits t.length ((fixableViolations vs).flatMap (·.edits)) with
  | error r => rw [hp] at h; exact absurd h (by simp)
  | ok edits =>
    obtain ⟨hmem, hwithin, hbefore⟩ := planEdits_ok hp
    simp only [List.mem_flatMap] at hmem
    refine ⟨edits, hmem, hwithin, hbefore, ?_⟩
    rw [hp] at h
    cases edits with
    | nil =>
      simp only [Except.ok.injEq] at h
      exact ⟨h.symm, fun hne => absurd rfl hne⟩
    | cons e es =>
      dsimp only at h
      split at h
      next hkinds =>
        simp only [Except.ok.injEq] at h
        subst h
        exact ⟨applyEdits_eq_splice hwithin hbefore, fun _ => hkinds⟩
      next => exact absurd h (by simp)

end HouseStyle
