import HouseStyle.Suppression
import Mathlib.Data.List.Nodup

/-!
# One marker read

What reading one marker does, told key by key. A key has at most one open region, and what matters of it is the
comment that has opened it (`Reading.opener?`). A marker opens the regions of some keys (`Marker.opens`), closes
those of others (`Marker.closes`), or turns rules off at once (`Marker.entry?`).

- `opener_step`: whose regions are open behind a marker, and who has opened them.
- `mem_entries_step`: the stretches that are turned off behind it.
- `notes_step_of_stray`: when it is noted, as an end that closes nothing.
-/

namespace HouseStyle

namespace Marker

/-! ## Keys -/

/-- The keys of the regions that a marker is about: without a list it is about the one of all rules. -/
def regionKeys (m : Marker) : List String := if m.rules.isEmpty then [allRules] else m.rules

/-- A start of regions opens one for each of its keys. -/
def opens (m : Marker) (key : String) : Bool := m.kind == .regionStart && m.regionKeys.contains key

/-- An end closes the regions of the rules that it lists, and all of them if it lists none. -/
def closes (m : Marker) (key : String) : Bool :=
  m.kind == .regionEnd && (m.rules.isEmpty || m.rules.contains key)

/-- The stretch that a marker turns rules off in without another marker's help. -/
def entry? (m : Marker) (comment : Token) : Option Suppression :=
  match m.kind with
  | .file => some ⟨1, none, filter m.rules⟩
  | .line => some ⟨comment.line, some comment.endLine, filter m.rules⟩
  | .nextLine => some ⟨comment.endLine + 1, some (comment.endLine + 1), filter m.rules⟩
  | .regionStart => none
  | .regionEnd => none

theorem opens_eq_false_of_closes {m : Marker} {key : String} (h : m.closes key = true) :
    m.opens key = false := by
  rw [closes, Bool.and_eq_true, beq_iff_eq] at h
  rw [opens, h.1]
  rfl

theorem mem_insertSorted {s t : String} {l : List String} : s ∈ insertSorted t l ↔ s = t ∨ s ∈ l := by
  induction l with
  | nil => simp [insertSorted]
  | cons a l ih =>
    unfold insertSorted
    split
    · simp
    · split
      next heq => simp [heq]
      next => rw [List.mem_cons, ih, List.mem_cons, or_left_comm]

theorem mem_foldl_insertSorted {α : Type} {key : α → String} {as : List α} {l : List String} {s : String} :
    s ∈ as.foldl (fun l a => insertSorted (key a) l) l ↔ s ∈ l ∨ ∃ a ∈ as, key a = s := by
  induction as generalizing l with
  | nil => simp
  | cons a as ih =>
    rw [List.foldl_cons, ih, mem_insertSorted]
    simp only [List.mem_cons, exists_eq_or_imp, eq_comm (a := s)]
    rw [or_comm (a := key a = s), or_assoc]

end Marker

namespace Suppressions.Reading

variable {r : Reading} {comment : Token} {key : String} {keys : List String} {m : Marker}

/-- The comment that has opened the region of a key, if one is open. -/
def opener? (r : Reading) (key : String) : Option Token := (r.opened.find? (·.1 == key)).map (·.2)

theorem any_opened (r : Reading) (key : String) : r.opened.any (·.1 == key) = (r.opener? key).isSome := by
  unfold opener?
  rw [Option.isSome_map, List.isSome_find?]

/-- The region of each key is open once at most. -/
def IsKeyed (r : Reading) : Prop := (r.opened.map (·.1)).Nodup

theorem IsKeyed.mem_opened_iff (h : r.IsKeyed) {opener : Token} :
    (key, opener) ∈ r.opened ↔ r.opener? key = some opener := by
  unfold opener?
  rw [Option.map_eq_some_iff]
  constructor
  · intro hmem
    cases hfind : r.opened.find? (·.1 == key) with
    | none =>
      rw [List.find?_eq_none] at hfind
      exact absurd (hfind _ hmem) (by simp)
    | some region =>
      have hkey : region.1 = key := by simpa using List.find?_some hfind
      have hregion : region = (key, opener) :=
        List.inj_on_of_nodup_map h (List.mem_of_find?_eq_some hfind) hmem hkey
      exact ⟨region, rfl, by rw [hregion]⟩
  · rintro ⟨region, hfind, rfl⟩
    have hkey : region.1 = key := by simpa using List.find?_some hfind
    rw [← hkey]
    exact List.mem_of_find?_eq_some hfind

/-! ## Opening -/

theorem openRegions_cons (r : Reading) (comment : Token) (key : String) (keys : List String) :
    r.openRegions comment (key :: keys) = (r.openRegions comment [key]).openRegions comment keys := rfl

theorem opener_openRegions_single (r : Reading) (comment : Token) (key key' : String) :
    (r.openRegions comment [key']).opener? key =
      if key = key' then some ((r.opener? key).getD comment) else r.opener? key := by
  show (if r.opened.any (·.1 == key') = true then r else
    { r with opened := r.opened ++ [(key', comment)] }).opener? key = _
  rw [any_opened]
  split
  next hopen =>
    split
    next heq =>
      obtain ⟨opener, hopener⟩ := Option.isSome_iff_exists.mp hopen
      rw [heq, hopener]
      rfl
    next => rfl
  next hclosed =>
    have hnone : r.opener? key' = none := by simpa using hclosed
    unfold opener? at hnone ⊢
    rw [List.find?_append]
    split
    next heq =>
      rw [Option.map_eq_none_iff] at hnone
      rw [heq, hnone]
      simp
    next hne => simp [Ne.symm hne]

/-- Regions that are open keep their start. -/
theorem opener_openRegions (r : Reading) (comment : Token) (keys : List String) (key : String) :
    (r.openRegions comment keys).opener? key =
      if key ∈ keys then some ((r.opener? key).getD comment) else r.opener? key := by
  induction keys generalizing r with
  | nil => rfl
  | cons key' keys ih =>
    rw [openRegions_cons, ih, opener_openRegions_single]
    by_cases hkey : key = key'
    · simp [hkey]
    · simp [hkey]

theorem entries_openRegions (r : Reading) (comment : Token) (keys : List String) :
    (r.openRegions comment keys).entries = r.entries ∧ (r.openRegions comment keys).notes = r.notes := by
  induction keys generalizing r with
  | nil => exact ⟨rfl, rfl⟩
  | cons key keys ih =>
    have hsingle : (r.openRegions comment [key]).entries = r.entries ∧
        (r.openRegions comment [key]).notes = r.notes := by
      show (if r.opened.any (·.1 == key) = true then r else _).entries = _ ∧
        (if r.opened.any (·.1 == key) = true then r else _).notes = _
      split <;> exact ⟨rfl, rfl⟩
    rw [openRegions_cons, (ih _).1, (ih _).2]
    exact hsingle

theorem IsKeyed.openRegions (h : r.IsKeyed) (comment : Token) (keys : List String) :
    (r.openRegions comment keys).IsKeyed := by
  induction keys generalizing r with
  | nil => exact h
  | cons key keys ih =>
    rw [openRegions_cons]
    apply ih
    show (if r.opened.any (·.1 == key) = true then r else _).IsKeyed
    split
    next => exact h
    next hclosed =>
      show ((r.opened ++ [(key, comment)]).map (·.1)).Nodup
      rw [List.map_append, List.nodup_append]
      refine ⟨h, by simp, ?_⟩
      intro a ha b hb
      obtain ⟨region, hregion, rfl⟩ := List.mem_map.mp ha
      rw [List.map_singleton, List.mem_singleton] at hb
      rw [hb]
      rintro rfl
      exact hclosed (List.any_eq_true.mpr ⟨region, hregion, by simp⟩)

/-! ## Closing -/

theorem closeRegions_cons (r : Reading) (comment : Token) (key : String) (keys : List String) :
    r.closeRegions comment (key :: keys) = (r.closeRegions comment [key]).closeRegions comment keys := rfl

/-- The stretch of a region of a key between two comments, or up to the end of the file. -/
def region (key : String) (opener : Token) (closer : Option Token) : Suppression :=
  ⟨opener.line, closer.map (·.endLine), Marker.filter [key]⟩

theorem closeRegions_single (r : Reading) (comment : Token) (key : String) :
    r.closeRegions comment [key] =
      match r.opener? key with
      | none => r
      | some opener =>
        { r with
          opened := r.opened.filter (·.1 != key)
          entries := r.entries.push (region key opener (some comment)) } := by
  rw [Reading.closeRegions, List.foldl_cons, List.foldl_nil, opener?]
  cases r.opened.find? (·.1 == key) with
  | none => rfl
  | some found => rfl

theorem opener_closeRegions_single (r : Reading) (comment : Token) (key key' : String) :
    (r.closeRegions comment [key']).opener? key = if key = key' then none else r.opener? key := by
  rw [closeRegions_single]
  split
  next hnone =>
    split
    next heq => rw [heq, hnone]
    next => rfl
  next opener hopener =>
    unfold opener?
    rw [List.find?_filter]
    split
    next heq =>
      rw [Option.map_eq_none_iff, List.find?_eq_none]
      intro region _
      simp [heq]
    next hne =>
      congr 2
      funext region
      by_cases hkey : region.1 = key
      · simp [hkey, hne]
      · simp [hkey]

theorem opener_closeRegions (r : Reading) (comment : Token) (keys : List String) (key : String) :
    (r.closeRegions comment keys).opener? key = if key ∈ keys then none else r.opener? key := by
  induction keys generalizing r with
  | nil => rfl
  | cons key' keys ih =>
    rw [closeRegions_cons, ih, opener_closeRegions_single]
    by_cases hkey : key = key'
    · simp [hkey]
    · simp [hkey]

theorem mem_entries_closeRegions {e : Suppression} :
    e ∈ (r.closeRegions comment keys).entries.toList ↔
      e ∈ r.entries.toList ∨
        ∃ key ∈ keys, ∃ opener, r.opener? key = some opener ∧ e = region key opener (some comment) := by
  induction keys generalizing r with
  | nil => simp [closeRegions]
  | cons key keys ih =>
    have hsingle : e ∈ (r.closeRegions comment [key]).entries.toList ↔
        e ∈ r.entries.toList ∨ ∃ opener, r.opener? key = some opener ∧ e = region key opener (some comment) := by
      rw [closeRegions_single]
      cases r.opener? key <;> simp
    -- a region that has been closed is not closed again
    have hlater : (∃ key' ∈ keys, ∃ opener,
          (r.closeRegions comment [key]).opener? key' = some opener ∧ e = region key' opener (some comment)) ↔
        ∃ key' ∈ keys, key' ≠ key ∧
          ∃ opener, r.opener? key' = some opener ∧ e = region key' opener (some comment) := by
      refine exists_congr fun key' => and_congr_right fun _ => ?_
      rw [opener_closeRegions_single]
      by_cases hkey : key' = key <;> simp [hkey]
    rw [closeRegions_cons, ih, hsingle, hlater, or_assoc]
    refine or_congr_right ?_
    constructor
    · rintro (⟨opener, hopener, he⟩ | ⟨key', hmem, -, hclosed⟩)
      · exact ⟨key, List.mem_cons_self, opener, hopener, he⟩
      · exact ⟨key', List.mem_cons_of_mem _ hmem, hclosed⟩
    · rintro ⟨key', hmem, hclosed⟩
      by_cases hkey : key' = key
      · exact Or.inl (hkey ▸ hclosed)
      · exact Or.inr ⟨key', (List.mem_cons.mp hmem).resolve_left hkey, hkey, hclosed⟩

theorem notes_closeRegions (r : Reading) (comment : Token) (keys : List String) :
    (r.closeRegions comment keys).notes = r.notes := by
  induction keys generalizing r with
  | nil => rfl
  | cons key keys ih =>
    rw [closeRegions_cons, ih, closeRegions_single]
    split <;> rfl

theorem IsKeyed.closeRegions (h : r.IsKeyed) (comment : Token) (keys : List String) :
    (r.closeRegions comment keys).IsKeyed := by
  induction keys generalizing r with
  | nil => exact h
  | cons key keys ih =>
    rw [closeRegions_cons]
    apply ih
    rw [closeRegions_single]
    split
    next => exact h
    next => exact List.Nodup.sublist (List.filter_sublist.map _) h

/-! ## One marker -/

/-- The keys of the regions that an end may close. -/
def endKeys (r : Reading) (m : Marker) : List String :=
  if m.rules.isEmpty then r.opened.foldl (fun keys entry => Marker.insertSorted entry.1 keys) [] else m.rules

/-- An end without a list is about the regions that are open. -/
theorem mem_endKeys (hm : m.kind = .regionEnd) (hopen : (r.opener? key).isSome = true) :
    key ∈ r.endKeys m ↔ m.closes key = true := by
  unfold endKeys Marker.closes
  rw [hm]
  split
  next hnone =>
    rw [Marker.mem_foldl_insertSorted, hnone]
    rw [← any_opened, List.any_eq_true] at hopen
    simpa using hopen
  next hlist => simp [hlist]

theorem step_of_start (hm : m.kind = .regionStart) :
    r.step comment m = r.openRegions comment m.regionKeys := by
  unfold step
  rw [hm]
  rfl

theorem step_of_end (hm : m.kind = .regionEnd) :
    r.step comment m =
      if ∃ key ∈ r.endKeys m, (r.opener? key).isSome = true then r.closeRegions comment (r.endKeys m)
      else { r with notes := r.notes.push (strayEnd comment) } := by
  have hany : ((r.endKeys m).any fun key => r.opened.any (·.1 == key)) = true ↔
      ∃ key ∈ r.endKeys m, (r.opener? key).isSome = true := by
    simp only [List.any_eq_true (l := r.endKeys m), any_opened]
  have hstep : r.step comment m =
      if ((r.endKeys m).any fun key => r.opened.any (·.1 == key)) = true then
        r.closeRegions comment (r.endKeys m)
      else { r with notes := r.notes.push (strayEnd comment) } := by
    unfold step
    rw [hm]
    rfl
  rw [hstep]
  exact if_congr hany rfl rfl

theorem opener_of_end (hm : m.kind = .regionEnd) (key : String) :
    (r.step comment m).opener? key = if m.closes key = true then none else r.opener? key := by
  have hclosed : ∀ keys : List String, (if key ∈ keys then none else r.opener? key) =
      if key ∈ keys ∧ (r.opener? key).isSome = true then none else r.opener? key := by
    intro keys
    cases r.opener? key <;> simp
  have hkeys : key ∈ r.endKeys m ∧ (r.opener? key).isSome = true ↔
      m.closes key = true ∧ (r.opener? key).isSome = true :=
    and_congr_left fun hopen => mem_endKeys hm hopen
  have hleft : (if m.closes key = true then none else r.opener? key) =
      if m.closes key = true ∧ (r.opener? key).isSome = true then none else r.opener? key := by
    cases r.opener? key <;> simp
  rw [step_of_end hm, hleft]
  split
  next => rw [opener_closeRegions, hclosed, if_congr hkeys rfl rfl]
  next hnone =>
    -- no region is open that the end is about
    rw [if_neg]
    · rfl
    · rintro ⟨hcloses, hopen⟩
      exact hnone ⟨key, (mem_endKeys hm hopen).mpr hcloses, hopen⟩

/-- Behind a marker the regions are open that it opens, and those that it does not close. -/
theorem opener_step (r : Reading) (comment : Token) (m : Marker) (key : String) :
    (r.step comment m).opener? key =
      if m.opens key = true then some ((r.opener? key).getD comment)
      else if m.closes key = true then none
      else r.opener? key := by
  cases hm : m.kind with
  | regionStart =>
    have hopens : m.opens key = true ↔ key ∈ m.regionKeys := by simp [Marker.opens, hm]
    have hcloses : m.closes key = false := by simp [Marker.closes, hm]
    rw [step_of_start hm, opener_openRegions, if_congr hopens rfl rfl, hcloses]
    rfl
  | regionEnd =>
    have hopens : m.opens key = false := by simp [Marker.opens, hm]
    rw [opener_of_end hm, hopens]
    rfl
  | file | line | nextLine =>
    have hopens : m.opens key = false := by simp [Marker.opens, hm]
    have hcloses : m.closes key = false := by simp [Marker.closes, hm]
    rw [hopens, hcloses]
    unfold step
    rw [hm]
    rfl

/-- A marker adds the stretch that it turns off at once, or those of the regions that it closes. -/
theorem mem_entries_step {e : Suppression} :
    e ∈ (r.step comment m).entries.toList ↔
      e ∈ r.entries.toList ∨ m.entry? comment = some e ∨
        ∃ key, m.closes key = true ∧
          ∃ opener, r.opener? key = some opener ∧ e = region key opener (some comment) := by
  -- only the end of a region closes any
  have hnone : m.kind ≠ .regionEnd → ∀ key, m.closes key = false := by
    intro hm key
    simp [Marker.closes, hm]
  cases hm : m.kind with
  | regionStart =>
    rw [step_of_start hm, (entries_openRegions r comment m.regionKeys).1]
    simp [Marker.entry?, hm, hnone (by simp [hm])]
  | regionEnd =>
    have hentry : m.entry? comment = none := by simp [Marker.entry?, hm]
    rw [hentry, step_of_end hm]
    -- an end that closes nothing is stray, and adds no entry
    split
    next =>
      rw [mem_entries_closeRegions]
      simp only [reduceCtorEq, false_or]
      refine or_congr_right (exists_congr fun key => ?_)
      refine and_congr_left fun ⟨opener, hopener, _⟩ => mem_endKeys hm ?_
      rw [hopener]
      rfl
    next hstray =>
      simp only [reduceCtorEq, false_or]
      refine (or_iff_left ?_).symm
      rintro ⟨key, hcloses, opener, hopener, -⟩
      have hopen : (r.opener? key).isSome = true := by rw [hopener]; rfl
      exact hstray ⟨key, (mem_endKeys hm hopen).mpr hcloses, hopen⟩
  | file | line | nextLine =>
    have hclosed := hnone (by simp [hm])
    have hpush : ∃ entry, m.entry? comment = some entry ∧
        (r.step comment m).entries = r.entries.push entry := by
      unfold step Marker.entry?
      rw [hm]
      exact ⟨_, rfl, rfl⟩
    obtain ⟨entry, hentry, hentries⟩ := hpush
    rw [hentries, hentry]
    simp [hclosed, eq_comm]

/-- Whether a marker is an end that closes nothing. -/
def IsStray (r : Reading) (m : Marker) : Prop :=
  m.kind = .regionEnd ∧ ∀ key, m.closes key = true → r.opener? key = none

theorem notes_step_of_stray (h : r.IsStray m) :
    (r.step comment m).notes.toList = r.notes.toList ++ [strayEnd comment] := by
  rw [step_of_end h.1, if_neg]
  · exact Array.toList_push
  · rintro ⟨key, hkey, hopen⟩
    rw [h.2 key ((mem_endKeys h.1 hopen).mp hkey)] at hopen
    exact absurd hopen (by decide)

theorem notes_step_of_not_stray (h : ¬r.IsStray m) :
    (r.step comment m).notes.toList = r.notes.toList := by
  cases hm : m.kind with
  | regionStart =>
    rw [step_of_start hm, (entries_openRegions r comment m.regionKeys).2]
  | regionEnd =>
    obtain ⟨key, hcloses, hopener⟩ : ∃ key, m.closes key = true ∧ r.opener? key ≠ none := by
      by_contra hall
      refine h ⟨hm, fun key hcloses => ?_⟩
      by_contra hopener
      exact hall ⟨key, hcloses, hopener⟩
    have hopen : (r.opener? key).isSome = true := Option.isSome_iff_ne_none.mpr hopener
    rw [step_of_end hm, if_pos ⟨key, (mem_endKeys hm hopen).mpr hcloses, hopen⟩, notes_closeRegions]
  | file | line | nextLine =>
    unfold step
    rw [hm]

theorem IsKeyed.step (h : r.IsKeyed) (comment : Token) (m : Marker) : (r.step comment m).IsKeyed := by
  cases hm : m.kind with
  | regionStart =>
    rw [step_of_start hm]
    exact h.openRegions comment m.regionKeys
  | regionEnd =>
    rw [step_of_end hm]
    split
    · exact h.closeRegions comment _
    · exact h
  | file | line | nextLine =>
    unfold Reading.step
    rw [hm]
    exact h

end Suppressions.Reading

end HouseStyle
