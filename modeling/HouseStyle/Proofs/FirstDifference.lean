import HouseStyle.Diff.Unified
import Mathlib.Data.Nat.Find

/-!
# The first line in which two texts differ

Two different texts have a first line in which they differ: what stands there is not the same, with the line break
that ends it, or only one of the texts has such a line. `firstDifferenceLine` is meant to give the number of that
line, or that of the last line of the first text if the first text does not go so far.

It compares the lines without their breaks, though, and what it says when these agree as far as both texts go only
fits texts of which one goes on where the other one ends.

> `FirstDiffering old new line`: the lists of lines `old` and `new` first differ at the number `line`.

- `Text.flatten_lines`: the lines of a text are the text, so different texts have such a line.
- `firstDifferenceLine_finds_iff`: this line is found unless it differs in its break alone and has lines of the first
  text below it. Then a later one is given.
-/

namespace HouseStyle

/-! ## Lines -/

namespace Text

theorem flatten_lines_go (line t : Text) : (lines.go line t).flatten = line.reverse ++ t := by
  fun_induction lines.go line t with
  | case1 line h => simp [List.isEmpty_iff.mp h]
  | case2 => simp
  | case3 line rest ih => simp [ih]
  | case4 line g rest _ h ih => simp [ih]
  | case5 line g rest _ h ih => simp [ih]

/-- The lines of a text, with the breaks that end them, are the text. -/
theorem flatten_lines (t : Text) : (lines t).flatten = t := flatten_lines_go [] t

end Text

namespace Diff

variable {old new : List Text} {line : Nat}

/-- Two lists of lines first differ at a line, counted from 1: the lines there are not the same, or only one of the
lists has such a line. -/
structure FirstDiffering (old new : List Text) (line : Nat) : Prop where
  pos : 0 < line
  differs : old[line - 1]? ≠ new[line - 1]?
  agree : ∀ i < line - 1, old[i]? = new[i]?

/-- A line is in both lists or in neither, and it differs in its break at most. -/
def SameUpToBreak (old new : List Text) (line : Nat) : Prop :=
  old[line - 1]?.map Text.withoutBreak = new[line - 1]?.map Text.withoutBreak

/-- The line of a list that is nearest to a number. -/
def lineWithin (old : List Text) (line : Nat) : Nat := max 1 (min line old.length)

theorem exists_firstDiffering (h : old ≠ new) : ∃ line, FirstDiffering old new line := by
  have hsome : ∃ i : Nat, old[i]? ≠ new[i]? := by
    refine Classical.byContradiction fun hnone => h (List.ext_getElem? fun i => ?_)
    exact Classical.byContradiction fun hi => hnone ⟨i, hi⟩
  exact ⟨Nat.find hsome + 1, Nat.succ_pos _, Nat.find_spec hsome,
    fun i hi => Decidable.not_not.mp (Nat.find_min hsome hi)⟩

/-- Beyond the end of one list the lists first differ right there. -/
theorem FirstDiffering.eq_length (h : FirstDiffering old new line) (hold : line - 1 < old.length)
    (hnew : new.length ≤ line - 1) : line - 1 = new.length := by
  refine Nat.le_antisymm (Nat.le_of_not_lt fun hlt => ?_) hnew
  have hagree := h.agree new.length hlt
  rw [List.getElem?_eq_none (Nat.le_refl _), List.getElem?_eq_none_iff] at hagree
  omega

/-! ## The line that is found -/

theorem firstDifferenceFrom_eq_some {n m : Nat} {as bs : List Text} (h : firstDifferenceFrom n as bs = some m) :
    ∃ k, m = n + k ∧ k < as.length ∧ k < bs.length ∧ as[k]? ≠ bs[k]? ∧ ∀ i < k, as[i]? = bs[i]? := by
  fun_induction firstDifferenceFrom n as bs with
  | case1 n as b bs ih =>
    obtain ⟨k, rfl, has, hbs, hne, hagree⟩ := ih h
    refine ⟨k + 1, by omega, Nat.succ_lt_succ has, Nat.succ_lt_succ hbs, hne, fun i hi => ?_⟩
    cases i with
    | zero => rfl
    | succ i => exact hagree i (Nat.lt_of_succ_lt_succ hi)
  | case2 n a as b bs hab =>
    obtain rfl := Option.some.inj h
    exact ⟨0, rfl, Nat.succ_pos _, Nat.succ_pos _, fun heq => hab (Option.some.inj heq), fun i hi => absurd hi (by simp)⟩
  | case3 => exact absurd h (by simp)

theorem firstDifferenceFrom_eq_none {n : Nat} {as bs : List Text} (h : firstDifferenceFrom n as bs = none) {i : Nat}
    (has : i < as.length) (hbs : i < bs.length) : as[i]? = bs[i]? := by
  fun_induction firstDifferenceFrom n as bs generalizing i with
  | case1 n as b bs ih =>
    cases i with
    | zero => rfl
    | succ i => exact ih h (Nat.lt_of_succ_lt_succ has) (Nat.lt_of_succ_lt_succ hbs)
  | case2 => exact absurd h (by simp)
  | case3 n as bs hnot =>
    obtain ⟨a, as, rfl⟩ := List.exists_cons_of_length_pos (Nat.zero_lt_of_lt has)
    obtain ⟨b, bs, rfl⟩ := List.exists_cons_of_length_pos (Nat.zero_lt_of_lt hbs)
    exact absurd rfl (hnot a as b bs rfl)

/-- The number of the line that is given for two lists of lines. -/
def lineGiven (old new : List Text) : Nat :=
  (firstDifferenceFrom 1 (old.map Text.withoutBreak) (new.map Text.withoutBreak)).getD
    (max 1 (min old.length (new.length + 1)))

theorem firstDifferenceLine_of_ne {before after : Text} (h : before ≠ after) :
    firstDifferenceLine before after = some (lineGiven before.lines after.lines) := by
  rw [firstDifferenceLine, if_neg h]
  simp only [plainLines, lineGiven, List.length_map]

/-- The line that is given is not above the first one that differs, and it is that one unless the break alone differs
there and there are lines below. -/
theorem lineGiven_of_firstDiffering (h : FirstDiffering old new line) :
    lineWithin old line ≤ lineGiven old new ∧
      (lineGiven old new = lineWithin old line ↔ ¬(SameUpToBreak old new line ∧ line < old.length)) := by
  have hpos := h.pos
  have hplain : ∀ i, old[i]? = new[i]? →
      (old.map Text.withoutBreak)[i]? = (new.map Text.withoutBreak)[i]? := fun i hi => by
    rw [List.getElem?_map, List.getElem?_map, hi]
  have hsame : SameUpToBreak old new line ↔
      (old.map Text.withoutBreak)[line - 1]? = (new.map Text.withoutBreak)[line - 1]? := by
    rw [List.getElem?_map, List.getElem?_map, SameUpToBreak]
  rw [hsame]
  unfold lineGiven lineWithin
  cases hfrom : firstDifferenceFrom 1 (old.map Text.withoutBreak) (new.map Text.withoutBreak) with
  | some m =>
    obtain ⟨k, rfl, hold, hnew, hne, hagree⟩ := firstDifferenceFrom_eq_some hfrom
    rw [List.length_map] at hold hnew
    -- lines that are the same are so without their breaks
    have hle : line - 1 ≤ k := Nat.le_of_not_lt fun hlt => hne (hplain k (h.agree k hlt))
    rw [Option.getD_some]
    refine ⟨by omega, fun heq hbreak => ?_, fun hnot => ?_⟩
    · obtain rfl : k = line - 1 := by omega
      exact hne hbreak.1
    · refine Classical.byContradiction fun hother => hnot ⟨hagree _ (by omega), by omega⟩
  | none =>
    have hagree : line - 1 < old.length → line - 1 < new.length →
        (old.map Text.withoutBreak)[line - 1]? = (new.map Text.withoutBreak)[line - 1]? := fun hold hnew =>
      firstDifferenceFrom_eq_none hfrom (by rwa [List.length_map]) (by rwa [List.length_map])
    rw [Option.getD_none]
    by_cases hold : line - 1 < old.length
    · by_cases hnew : line - 1 < new.length
      · -- only the breaks differ, and the answer is a line at the end
        refine ⟨by omega, fun heq hbreak => by omega, fun hnot => ?_⟩
        have hlast : ¬line < old.length := fun hlt => hnot ⟨hagree hold hnew, hlt⟩
        omega
      · -- the second text ends in front of the line
        have hend := h.eq_length hold (Nat.le_of_not_lt hnew)
        refine ⟨by omega, fun _ hbreak => ?_, fun _ => by omega⟩
        have hmissing := hbreak.1
        rw [List.getElem?_eq_none (l := new.map _) (by rw [List.length_map]; omega), List.getElem?_eq_none_iff,
          List.length_map] at hmissing
        omega
    · -- the first text ends in front of the line, so that the second one goes on
      have hnew : line - 1 < new.length := by
        refine Classical.byContradiction fun hnew => h.differs ?_
        rw [List.getElem?_eq_none (Nat.le_of_not_lt hold), List.getElem?_eq_none (Nat.le_of_not_lt hnew)]
      refine ⟨by omega, fun _ hbreak => by omega, fun _ => by omega⟩

/-- There is no line to give exactly if the texts are equal. Otherwise they have a first line that differs, with its
break; the line that is given is not above it, and is the one, or the last one of the first text if that has no such
line, unless it differs in its break alone and there are lines of the first text below it. -/
theorem firstDifferenceLine_finds_iff (before after : Text) :
    (firstDifferenceLine before after = none ↔ before = after) ∧
      (before = after ∨
        ∃ line found, FirstDiffering before.lines after.lines line ∧ firstDifferenceLine before after = some found ∧
          lineWithin before.lines line ≤ found ∧
          (found = lineWithin before.lines line ↔
            ¬(SameUpToBreak before.lines after.lines line ∧ line < before.lines.length))) := by
  by_cases heq : before = after
  · exact ⟨iff_of_true (if_pos heq) heq, Or.inl heq⟩
  have hgiven := firstDifferenceLine_of_ne heq
  have hlines : before.lines ≠ after.lines := fun hsame => heq <| by
    rw [← Text.flatten_lines before, hsame, Text.flatten_lines]
  obtain ⟨line, hline⟩ := exists_firstDiffering hlines
  exact ⟨iff_of_false (by simp [hgiven]) heq, Or.inr ⟨line, _, hline, hgiven, lineGiven_of_firstDiffering hline⟩⟩

/-- A line end that is written in another way in the first of two lines is not seen: the last line is given. -/
theorem exists_missed_line :
    ∃ before after : Text, before = Text.ofString "a\r\nb\n" ∧ after = Text.ofString "a\nb\n" ∧
      FirstDiffering before.lines after.lines 1 ∧ lineWithin before.lines 1 = 1 ∧
      firstDifferenceLine before after = some 2 :=
  ⟨_, _, rfl, rfl, ⟨by decide, by decide, by decide⟩, by decide, by decide⟩

end Diff

end HouseStyle
