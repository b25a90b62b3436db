import HouseStyle.Proofs.TokenPlaces
import Mathlib.Data.List.GetD
import Mathlib.Data.Prod.Lex
import Mathlib.Order.Interval.Set.Defs
import Mathlib.Order.Monotone.Defs

/-!
# The line index finds lines and columns

`LineIndex.position` looks an offset up in a table of line starts, by halving. What it finds is the line
and the column that are told by the line feeds in front of the offset.

- `search_eq`: halving finds the place at which the entries of a table get too large.
- `position_ofText`: so the index of a text knows the line and the column of each of its offsets.
- `position_exact`: the way back is `LineIndex.lineStart`, and positions are in the order of offsets.
-/

namespace HouseStyle

namespace LineIndex

/-! ## Halving -/

/-- If the entries of a table up to `n` are those that are at most `offset`, then `n` is found from every
range around it. -/
theorem search_eq {starts : Array Nat} {offset n low high : Nat}
    (h : ∀ i < starts.size, starts.getD i 0 ≤ offset ↔ i < n) (hlow : low ≤ n) (hhigh : n ≤ high)
    (hsize : high ≤ starts.size) : search starts offset low high = n := by
  -- along the halving: the range always has `n` in it
  induction low, high using search.induct starts offset with
  | case1 low high hopen middle hle ih =>
    have hmiddle : middle < n := (h middle (by omega)).mp hle
    rw [search, if_pos hopen]
    show (if starts.getD middle 0 ≤ offset then _ else _) = n
    rw [if_pos hle]
    exact ih hmiddle hhigh hsize
  | case2 low high hopen middle hgt ih =>
    have hmiddle : ¬middle < n := fun hlt => hgt ((h middle (by omega)).mpr hlt)
    rw [search, if_pos hopen]
    show (if starts.getD middle 0 ≤ offset then _ else _) = n
    rw [if_neg hgt]
    exact ih hlow (Nat.le_of_not_lt hmiddle) (by omega)
  | case3 low high hclosed =>
    rw [search, if_neg hclosed]
    omega

/-! ## Line starts -/

theorem startsAfter_append (offset : Nat) (t u : Text) :
    startsAfter offset (t ++ u) = startsAfter offset t ++ startsAfter (offset + t.length) u := by
  induction t generalizing offset with
  | nil => rfl
  | cons g t ih =>
    have hlen : offset + (g :: t).length = offset + 1 + t.length := by
      rw [List.length_cons]
      omega
    rw [hlen, List.cons_append, startsAfter, startsAfter, ih]
    split <;> rfl

theorem length_startsAfter (offset : Nat) (t : Text) :
    (startsAfter offset t).length = t.count (.scalar '\n') := by
  induction t generalizing offset with
  | nil => rfl
  | cons g t ih =>
    unfold startsAfter
    split
    · next hg => rw [List.length_cons, ih, hg, List.count_cons_self]
    · next hg => rw [ih, List.count_cons_of_ne hg]

/-- The lines of a text start behind its front and not behind its end. -/
theorem startsAfter_bounds {offset start : Nat} {t : Text} (h : start ∈ startsAfter offset t) :
    offset < start ∧ start ≤ offset + t.length := by
  induction t generalizing offset with
  | nil => exact absurd h (by simp [startsAfter])
  | cons g t ih =>
    have hlater : start ∈ startsAfter (offset + 1) t → offset < start ∧ start ≤ offset + (g :: t).length := by
      intro hmem
      have := ih hmem
      rw [List.length_cons]
      omega
    unfold startsAfter at h
    split at h
    · rcases List.mem_cons.mp h with rfl | h
      · rw [List.length_cons]
        omega
      · exact hlater h
    · exact hlater h

/-- The last line of a text starts behind its last line feed. -/
theorem getLast_startsAfter (t : Text) :
    (startsAfter 0 t).getLast?.getD 0 + (t.reverse.takeWhile (· != .scalar '\n')).length = t.length := by
  -- from the end, since the last glyph alone decides
  induction t using List.reverseRecOn with
  | nil => rfl
  | append_singleton t g ih =>
    rw [startsAfter_append, Nat.zero_add, List.reverse_append, List.reverse_singleton,
      List.singleton_append, List.takeWhile_cons, List.length_append, List.length_singleton]
    by_cases hg : g = .scalar '\n'
    · have hone : startsAfter t.length [g] = [t.length + 1] := by
        rw [startsAfter, if_pos hg]
        rfl
      rw [hone, List.getLast?_concat, hg]
      rfl
    · have hnone : startsAfter t.length [g] = [] := by
        rw [startsAfter, if_neg hg]
        rfl
      rw [hnone, List.append_nil, if_pos (by simpa using hg), List.length_cons]
      omega

/-! ## Positions -/

/-- The starts of the lines up to an offset, and those of the lines behind it. -/
theorem starts_ofText {text : Text} {offset : Nat} (h : offset ≤ text.length) :
    (ofText text).starts.toList =
      (0 :: startsAfter 0 (text.take offset)) ++ startsAfter offset (text.drop offset) := by
  have hcut := startsAfter_append 0 (text.take offset) (text.drop offset)
  rw [List.take_append_drop, List.length_take_of_le h, Nat.zero_add] at hcut
  show 0 :: startsAfter 0 text = _
  rw [hcut]
  rfl

/-- Just the entries up to the line of an offset are at most that offset. -/
theorem start_le_iff {text : Text} {offset i : Nat} (h : offset ≤ text.length)
    (hi : i < (ofText text).starts.size) :
    (ofText text).starts.getD i 0 ≤ offset ↔ i < lineAt text offset := by
  have hstarts := starts_ofText h
  have hcount : (0 :: startsAfter 0 (text.take offset)).length = lineAt text offset := by
    rw [List.length_cons, length_startsAfter, Nat.add_comm]
    rfl
  have hget : (ofText text).starts.getD i 0 = (ofText text).starts.toList.getD i 0 := by
    simp [Array.getD_eq_getD_getElem?, List.getD_eq_getElem?_getD]
  rw [← Array.length_toList, hstarts, List.length_append] at hi
  rw [hget, hstarts, ← hcount]
  by_cases hin : i < (0 :: startsAfter 0 (text.take offset)).length
  · rw [List.getD_append _ _ _ _ hin, List.getD_eq_getElem _ _ hin]
    refine ⟨fun _ => hin, fun _ => ?_⟩
    rcases List.mem_cons.mp (List.getElem_mem hin) with hzero | hlater
    · rw [hzero]
      exact Nat.zero_le offset
    · have hle := (startsAfter_bounds hlater).2
      rw [List.length_take_of_le h] at hle
      omega
  · have hbehind : i - (0 :: startsAfter 0 (text.take offset)).length <
        (startsAfter offset (text.drop offset)).length := by omega
    rw [List.getD_append_right _ _ _ _ (Nat.le_of_not_lt hin), List.getD_eq_getElem _ _ hbehind]
    have hgt := (startsAfter_bounds (List.getElem_mem hbehind)).1
    exact ⟨fun hle => absurd hle (Nat.not_le_of_lt hgt), fun hlt => absurd hlt hin⟩

/-- The entry of the line of an offset is as far in front of it as its column says. -/
theorem start_of_line {text : Text} {offset : Nat} (h : offset ≤ text.length) :
    offset - (ofText text).starts.getD (lineAt text offset - 1) 0 + 1 = columnAt text offset := by
  have hlast := getLast_startsAfter (text.take offset)
  have hline : lineAt text offset - 1 = (startsAfter 0 (text.take offset)).length := by
    rw [length_startsAfter]
    exact Nat.add_sub_cancel_left 1 _
  have hget : (ofText text).starts.getD (lineAt text offset - 1) 0 =
      (startsAfter 0 (text.take offset)).getLast?.getD 0 := by
    rw [Array.getD_eq_getD_getElem?, ← Array.getElem?_toList, starts_ofText h, hline,
      List.getElem?_append_left (by simp)]
    have hend := List.getLast?_eq_getElem? (l := 0 :: startsAfter 0 (text.take offset))
    rw [List.getLast?_cons, List.length_cons, Nat.add_sub_cancel] at hend
    rw [← hend]
    rfl
  rw [List.length_take_of_le h] at hlast
  rw [hget]
  unfold columnAt
  omega

/-- The index of a text knows the line and the column of each of its offsets. -/
theorem position_ofText {text : Text} {offset : Nat} (h : offset ≤ text.length) :
    (ofText text).position offset = (lineAt text offset, columnAt text offset) := by
  have hfound : search (ofText text).starts offset 0 (ofText text).starts.size = lineAt text offset := by
    refine search_eq (fun i hi => start_le_iff h hi) (Nat.zero_le _) ?_ (Nat.le_refl _)
    rw [← Array.length_toList, starts_ofText h, List.length_append, List.length_cons, length_startsAfter]
    unfold lineAt
    omega
  have hclamp : (ofText text).clamp offset = offset := Nat.min_eq_left h
  unfold position
  dsimp only
  rw [hclamp, hfound, start_of_line h]

/-! ## Positions and offsets -/

/-- An offset outside a text has the position of its nearer end. -/
theorem position_clamp (index : LineIndex) (offset : Int) :
    index.position offset = index.position (index.clamp offset) := by
  have hclamp : index.clamp (index.clamp offset) = index.clamp offset :=
    Nat.min_eq_left (Nat.min_le_right _ _)
  unfold position
  rw [hclamp]

/-- The line of an offset starts as far in front of it as its column says. -/
theorem lineStart_add_column {text : Text} {offset : Nat} (h : offset ≤ text.length) :
    (ofText text).lineStart (lineAt text offset) + columnAt text offset = offset + 1 := by
  have hfirst : 1 ≤ lineAt text offset := Nat.le_add_right 1 _
  have hsize : lineAt text offset ≤ (ofText text).starts.size := by
    rw [← Array.length_toList, starts_ofText h, List.length_append, List.length_cons, length_startsAfter]
    unfold lineAt
    omega
  have hline : (ofText text).lineStart (lineAt text offset) =
      (ofText text).starts.getD (lineAt text offset - 1) 0 := by
    unfold lineStart lineCount
    congr
    omega
  have hle : (ofText text).starts.getD (lineAt text offset - 1) 0 ≤ offset :=
    (start_le_iff h (by omega)).mpr (by omega)
  have hcolumn := start_of_line h
  rw [hline]
  omega

/-- The index of a text is exact and invertible: each offset, moved to the nearer end of the text if it lies
outside, has the line and the column that the line feeds in front of it tell, the start of that line and the
column lead back to the offset, and offsets further on have positions further on. -/
theorem position_exact (text : Text) :
    (∀ offset : Int, ∃ o : Nat, (o : Int) = max 0 (min offset text.length) ∧
      (ofText text).position offset =
        (1 + (text.take o).count (.scalar '\n'),
          1 + ((text.take o).reverse.takeWhile (· != .scalar '\n')).length) ∧
      ((ofText text).lineStart ((ofText text).position offset).1 : Int) +
        ((ofText text).position offset).2 - 1 = o) ∧
    StrictMonoOn (fun o : Nat => toLex ((ofText text).position o)) (Set.Iic text.length) := by
  refine ⟨fun offset => ?_, fun o ho o' ho' hlt => ?_⟩
  · have hlength : (ofText text).length = text.length := rfl
    have hle : (ofText text).clamp offset ≤ text.length := Nat.min_le_right _ _
    have hposition := position_ofText hle
    rw [← position_clamp] at hposition
    refine ⟨(ofText text).clamp offset, ?_, hposition, ?_⟩
    · unfold clamp
      rw [hlength]
      omega
    · have hback := lineStart_add_column hle
      rw [hposition]
      dsimp only
      omega
  · -- the places of offsets come in order, and a position is the line and the column of such a place
    have hbefore := isBefore_of_lt hlt ho'
    have hplace : ∀ {o : Nat}, o ≤ text.length →
        (Place.start.past (text.take o)).line = lineAt text o ∧
          (Place.start.past (text.take o)).column = columnAt text o := by
      intro o ho
      have := Place.past_start (text.take o)
      rw [this]
      exact ⟨rfl, rfl⟩
    dsimp only
    rw [position_ofText ho, position_ofText ho', Prod.Lex.toLex_lt_toLex]
    unfold Place.IsBefore at hbefore
    rw [(hplace ho).1, (hplace ho').1, (hplace ho).2, (hplace ho').2] at hbefore
    exact hbefore

end LineIndex

end HouseStyle
