import HouseStyle.Proofs.FoundFiles
import Mathlib.Data.List.Infix

/-!
# Which names the default patterns select

What is left of a text when a glob has taken its part of the front is an end of that text
(`Glob.isSuffix_of_mem_leftovers`), so a glob that ends with a character matches texts only that end with
it. The default patterns all do, which leaves few characters that the name of a selected file can end with
(`lastCharacters`).

- `mem_lastCharacters_of_selects`: a file that is selected by default has a name with such an end.
-/

namespace HouseStyle

/-! ## Globs -/

namespace Glob

theorem suffixes_eq_tails {α : Type} (as : List α) : suffixes as = as.tails := by
  induction as with
  | nil => rfl
  | cons a as ih => rw [suffixes, ih, List.tails_cons]

/-- A part of a glob leaves ends of the texts that it is given. -/
theorem isSuffix_of_mem_part {texts : List (List Char)} {text : List Char} {p : GlobPart}
    (htexts : ∀ t ∈ texts, t <:+ text) : ∀ s ∈ p.leftovers texts, s <:+ text := by
  intro s hs
  cases p with
  | star =>
    cases texts with
    | nil => exact absurd hs List.not_mem_nil
    | cons t ts =>
      have hs : s ∈ suffixes t := hs
      rw [suffixes_eq_tails, List.mem_tails] at hs
      exact hs.trans (htexts t List.mem_cons_self)
  | any | char _ | set _ _ =>
    -- a part that stands for one character takes it away
    obtain ⟨t, ht, hs⟩ := List.mem_filterMap.mp hs
    cases t with
    | nil => exact absurd hs (by simp)
    | cons c cs =>
      dsimp only at hs
      split at hs
      · obtain rfl := Option.some.inj hs
        exact (List.suffix_cons c cs).trans (htexts _ ht)
      · exact absurd hs (by simp)

theorem isSuffix_of_mem_leftovers (g : Glob) (text : List Char) : ∀ s ∈ g.leftovers text, s <:+ text := by
  have hall : ∀ (g : Glob) (texts : List (List Char)), (∀ t ∈ texts, t <:+ text) →
      ∀ s ∈ g.foldl GlobPart.leftovers texts, s <:+ text := by
    intro g
    induction g with
    | nil => exact fun texts htexts => htexts
    | cons p g ih => exact fun texts htexts => ih _ (isSuffix_of_mem_part htexts)
  refine hall g [text] fun t ht => ?_
  obtain rfl := List.mem_singleton.mp ht
  exact List.suffix_rfl

/-- A glob that ends with a character matches texts only that end with it. -/
theorem getLast?_of_accepts {g : Glob} {c : Char} {text : String}
    (h : accepts (g ++ [.char c]) text = true) : text.toList.getLast? = some c := by
  unfold accepts leftovers at h
  rw [List.foldl_append] at h
  obtain ⟨s, hs, hempty⟩ := List.any_eq_true.mp h
  obtain rfl := List.isEmpty_iff.mp hempty
  -- the last part has taken the one character that was left
  obtain ⟨t, ht, hs⟩ := List.mem_filterMap.mp hs
  cases t with
  | nil => exact absurd hs (by simp)
  | cons a cs =>
    obtain ⟨rfl, rfl⟩ : c = a ∧ cs = [] := by simpa [GlobPart.holds] using hs
    obtain ⟨front, hfront⟩ := isSuffix_of_mem_leftovers g text.toList _ ht
    rw [← hfront]
    exact List.getLast?_concat

/-- Characters that are no wildcards stand for themselves. -/
theorem ofChars_eq_map {cs : List Char} (h : ∀ c ∈ cs, c ≠ '*' ∧ c ≠ '?' ∧ c ≠ '[') :
    ofChars cs = cs.map GlobPart.char := by
  induction cs with
  | nil => rw [ofChars, List.map_nil]
  | cons c cs ih =>
    obtain ⟨hstar, hany, hset⟩ := h c List.mem_cons_self
    have hrest := ih fun d hd => h d (List.mem_cons_of_mem c hd)
    rw [ofChars.eq_5 c cs hstar hany hset, hrest, List.map_cons]

end Glob

namespace PathPattern

/-- The last part of a path ends as the path does. -/
theorem getLast?_of_baseName {path : String} {c : Char}
    (h : (baseName path).toList.getLast? = some c) : path.toList.getLast? = some c := by
  unfold baseName at h
  rw [String.toList_ofList, List.getLast?_reverse, List.head?_takeWhile] at h
  rw [← List.head?_reverse]
  exact (Option.filter_eq_some_iff.mp h).1

theorem getLast?_of_accepts_name {g : Glob} {c : Char} {path : String}
    (h : accepts path (.name (g ++ [.char c])) = true) : path.toList.getLast? = some c := by
  rcases Bool.or_eq_true_iff.mp h with h | h
  · exact getLast?_of_baseName (Glob.getLast?_of_accepts h)
  · exact Glob.getLast?_of_accepts h

/-! ## The default patterns -/

/-- The characters that the default patterns end with. -/
def lastCharacters : List Char := ['p', 'c', 'x', '+', 'h', 'l']

theorem exists_of_mem_defaultIncluded {pattern : PathPattern}
    (h : pattern ∈ defaultIncluded.filterMap ofString?) :
    ∃ g, ∃ c ∈ lastCharacters, pattern = .name (g ++ [.char c]) := by
  have hpatterns : defaultIncluded.filterMap ofString? =
      defaultIncluded.map fun s => .name (Glob.ofString s) := rfl
  rw [hpatterns] at h
  obtain ⟨s, hs, rfl⟩ := List.mem_map.mp h
  have hall : (defaultIncluded.all fun s => lastCharacters.any fun c =>
      s.toList == '*' :: (s.toList.tail.dropLast ++ [c]) &&
        (s.toList.tail.dropLast ++ [c]).all fun d => d != '*' && d != '?' && d != '[') = true := by
    decide +kernel
  have hone := List.all_eq_true.mp hall s hs
  simp only [List.any_eq_true, List.all_eq_true, Bool.and_eq_true, beq_iff_eq, bne_iff_ne, ne_eq,
    and_assoc] at hone
  obtain ⟨c, hc, hspelled, hplain⟩ := hone
  refine ⟨.star :: s.toList.tail.dropLast.map GlobPart.char, c, hc, congrArg PathPattern.name ?_⟩
  show Glob.ofChars s.toList = _
  generalize s.toList.tail.dropLast = front at hspelled hplain
  rw [hspelled, Glob.ofChars, Glob.ofChars_eq_map hplain, List.map_append]
  rfl

/-- What the default patterns match ends with one of their last characters. -/
theorem exists_getLast?_of_anyAccepts {path : String} (h : anyAccepts defaultIncluded path = true) :
    ∃ c ∈ lastCharacters, path.toList.getLast? = some c := by
  obtain ⟨pattern, hpattern, haccepts⟩ := List.any_eq_true.mp h
  obtain ⟨g, c, hc, rfl⟩ := exists_of_mem_defaultIncluded hpattern
  exact ⟨c, hc, getLast?_of_accepts_name haccepts⟩

end PathPattern

/-! ## Names -/

namespace SourcePath

theorem getLast?_intercalate_concat {sep last : List Char} {c : Char} (hlast : last.getLast? = some c)
    (front : List (List Char)) : (List.intercalate sep (front ++ [last])).getLast? = some c := by
  induction front with
  | nil => rwa [List.nil_append, List.intercalate_singleton]
  | cons part front ih =>
    obtain ⟨next, rest, hrest⟩ := List.exists_cons_of_ne_nil (show front ++ [last] ≠ [] by simp)
    rw [hrest] at ih
    rw [List.cons_append, hrest, List.intercalate_cons_cons, List.getLast?_append, ih]
    rfl

/-- A path ends as its name does. -/
theorem getLast?_toString {q : SourcePath} {c : Char} (h : q.name.toList.getLast? = some c) :
    q.toString.toList.getLast? = some c := by
  have hne : q.parts ≠ [] := by
    intro hempty
    rw [name, hempty] at h
    exact absurd h (by simp)
  have hname : q.parts = q.parts.dropLast ++ [q.name] := by
    rw [name, List.getLast?_eq_some_getLast hne, Option.getD_some, List.dropLast_concat_getLast]
  unfold toString
  rw [if_neg (by simp [hne]), String.toList_append, String.toList_intercalate, hname, List.map_append,
    List.getLast?_append]
  have hparts : (List.intercalate "/".toList
      (q.parts.dropLast.map String.toList ++ [q.name.toList])).getLast? = some c :=
    getLast?_intercalate_concat h _
  rw [List.map_singleton, hparts]
  rfl

/-- What is relative to a directory has the name that it has. -/
theorem name_of_relativeTo? {p root q : SourcePath} (h : p.relativeTo? root = some q) (hne : q.parts ≠ []) :
    q.name = p.name := by
  unfold relativeTo? at h
  split at h
  · obtain ⟨rest, hrest, rfl⟩ := Option.map_eq_some_iff.mp h
    rw [name, name, dropLead?_eq_some.mp hrest, List.getLast?_append_of_ne_nil _ hne]
  · exact absurd h (by simp)

theorem toString_of_relativeTo? {p root q : SourcePath} (h : p.relativeTo? root = some q)
    (hempty : q.parts = []) : q.toString = "." := by
  unfold relativeTo? at h
  split at h
  · obtain ⟨rest, hrest, rfl⟩ := Option.map_eq_some_iff.mp h
    exact if_pos (by simpa using hempty)
  · exact absurd h (by simp)

end SourcePath

open PathPattern (lastCharacters)

/-- A file that is selected by default has a name with such an end. -/
theorem mem_lastCharacters_of_selects {config : Config} {base root p : SourcePath} {c : Char}
    (hincluded : config.included = defaultIncluded) (hp : p.IsPlain)
    (hlast : p.name.toList.getLast? = some c) (h : config.selects base root p = true) :
    c ∈ lastCharacters := by
  -- a file outside of the root goes by its name
  have hname : PathPattern.anyAccepts config.included p.name = true → c ∈ lastCharacters := by
    intro haccepts
    rw [hincluded] at haccepts
    obtain ⟨d, hd, hend⟩ := PathPattern.exists_getLast?_of_anyAccepts haccepts
    obtain rfl := Option.some.inj (hlast.symm.trans hend)
    exact hd
  unfold Config.selects at h
  rw [hp.resolve] at h
  obtain ⟨haccepts, -⟩ := Bool.and_eq_true_iff.mp h
  split at haccepts
  · split at haccepts
    next q hq =>
      rw [hincluded] at haccepts
      obtain ⟨d, hd, hend⟩ := PathPattern.exists_getLast?_of_anyAccepts haccepts
      by_cases hparts : q.parts = []
      · -- the root itself goes by a point, which no pattern matches
        rw [SourcePath.toString_of_relativeTo? hq hparts] at hend
        obtain rfl : '.' = d := Option.some.inj hend
        exact absurd hd (by decide)
      · rw [← SourcePath.name_of_relativeTo? hq hparts] at hlast
        rw [SourcePath.getLast?_toString hlast] at hend
        obtain rfl := Option.some.inj hend
        exact hd
    next => exact hname haccepts
  · exact hname haccepts

end HouseStyle
