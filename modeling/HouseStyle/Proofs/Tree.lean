import HouseStyle.Project.Tree

/-!
# Following paths while files are written

A path leads somewhere if every place on its way is a directory, so what paths lead to depends on the
directories of a tree only (`follow_eq_ok_iff`). Writing a file where one stands, or beside one, makes
and removes no directory (`isDirectory_set_of_isFile`, `isDirectory_set_of_free`).

- `FileTree.Holds`: a path leads to a place where a file with these bytes stands.
- `Holds.follow_sibling`: a file's path with another last part leads to the place beside it, unless
  that name or path is too long.
-/

namespace HouseStyle

namespace SourcePath

theorem dropLead?_eq_some {lead ps rest : List String} :
    dropLead? lead ps = some rest ↔ ps = lead ++ rest := by
  induction lead generalizing ps with
  | nil => simp [dropLead?, eq_comm]
  | cons a lead ih =>
    cases ps with
    | nil => simp [dropLead?]
    | cons b ps =>
      unfold dropLead?
      split
      next h => rw [ih, h]; simp
      next h => simp [Ne.symm h]

theorem nodup_eraseDups (ps : List SourcePath) : ps.eraseDups.Nodup := by
  induction hn : ps.length using Nat.strongRecOn generalizing ps with
  | ind n ih =>
    cases ps with
    | nil => simp
    | cons p ps =>
      rw [List.eraseDups_cons, List.nodup_cons]
      refine ⟨by simp, ih _ ?_ _ rfl⟩
      have := List.length_filter_le (fun q => !q == p) ps
      rw [List.length_cons] at hn
      omega

end SourcePath

namespace FileTree

variable {s t : FileTree} {p q place : SourcePath} {bytes : List UInt8}

/-- A path lies below another one if it starts with it and is longer. -/
theorem isBelow_iff {dir p : SourcePath} :
    isBelow dir p = true ↔ p.slashes = dir.slashes ∧ ∃ rest, rest ≠ [] ∧ p.parts = dir.parts ++ rest := by
  unfold isBelow SourcePath.relativeTo?
  split
  next h =>
    cases hd : SourcePath.dropLead? dir.parts p.parts with
    | none =>
      have hno : ∀ rest, p.parts ≠ dir.parts ++ rest := fun rest h =>
        absurd (SourcePath.dropLead?_eq_some.mpr h) (by simp [hd])
      simp [hno]
    | some rest =>
      have hparts := SourcePath.dropLead?_eq_some.mp hd
      simp [h, hparts]
  next h => simp [h]

theorem entry?_set (t : FileTree) (q x : SourcePath) (e : TreeEntry) {hq : q.IsPlain} :
    FileTree.entry? (t.set q e hq) x = if x = q then some e else t.entry? x := by
  unfold entry? set
  rw [List.lookup_cons]
  split
  next h => rw [if_pos (by simpa using h)]
  next h =>
    have hne : x ≠ q := by simpa using h
    rw [if_neg hne]
    induction t.entries with
    | nil => rfl
    | cons a es ih =>
      obtain ⟨y, f⟩ := a
      by_cases hy : y = q
      · have hxy : (x == y) = false := by simpa [hy] using hne
        rw [List.filter_cons_of_neg (by simpa using hy), ih, List.lookup_cons, hxy]
      · rw [List.filter_cons_of_pos (by simpa using hy), List.lookup_cons, List.lookup_cons, ih]

theorem isFile_iff : t.isFile p = true ↔ ∃ bytes, t.entry? p = some (.file bytes) := by
  unfold isFile
  split
  next bytes h => simp [h]
  next h =>
    simp only [Bool.false_eq_true, false_iff, not_exists]
    exact h

/-- Something stands at a path, as a file, as a directory or because of what is below it. -/
theorem isDirectory_iff : t.isDirectory p = true ↔
    t.entry? p = some .directory ∨
      t.entry? p = none ∧ (p.parts = [] ∨ ∃ q e, (q, e) ∈ t.entries ∧ isBelow p q = true) := by
  unfold isDirectory
  split
  next h => simp [h]
  next h => simp [h]
  next h => simp [h, List.isEmpty_iff]

theorem isDirectory_eq_false_of_isFile (h : t.isFile p = true) : t.isDirectory p = false := by
  obtain ⟨bytes, h⟩ := isFile_iff.mp h
  simp [isDirectory, h]

theorem isFile_set (t : FileTree) (q x : SourcePath) (bytes : List UInt8) {hq : q.IsPlain} :
    (t.set q (.file bytes) hq).isFile x = (decide (x = q) || t.isFile x) := by
  unfold isFile
  rw [entry?_set]
  by_cases h : x = q <;> simp [h]

/-! ## Directories stay -/

/-- A file in a place whose way is there makes and removes no directory. -/
theorem isDirectory_set {hp : q.IsPlain} (habove : ∀ d, isBelow d q = true → t.isDirectory d = true)
    (hq : t.isDirectory q = false) (d : SourcePath) :
    (t.set q (.file bytes) hp).isDirectory d = t.isDirectory d := by
  by_cases hd : d = q
  · subst hd
    rw [hq]
    exact isDirectory_eq_false_of_isFile (isFile_iff.mpr ⟨bytes, by rw [entry?_set, if_pos rfl]⟩)
  · rw [Bool.eq_iff_iff, isDirectory_iff, isDirectory_iff, entry?_set, if_neg hd]
    by_cases hbelow : isBelow d q = true
    · -- the directory was there already, and the new file is below it
      have hthere := isDirectory_iff.mp (habove d hbelow)
      refine ⟨fun _ => hthere, fun _ => ?_⟩
      rcases hthere with h | ⟨h, -⟩
      · exact Or.inl h
      · exact Or.inr ⟨h, Or.inr ⟨q, .file bytes, List.mem_cons_self, hbelow⟩⟩
    · have hsame : (∃ x e, (x, e) ∈ (t.set q (.file bytes) hp).entries ∧ isBelow d x = true) ↔
          ∃ x e, (x, e) ∈ t.entries ∧ isBelow d x = true := by
        unfold set
        constructor
        · rintro ⟨x, e, hmem, hx⟩
          rcases List.mem_cons.mp hmem with heq | hmem
          · exact absurd ((Prod.mk.inj heq).1 ▸ hx) hbelow
          · exact ⟨x, e, (List.mem_filter.mp hmem).1, hx⟩
        · rintro ⟨x, e, hmem, hx⟩
          have hne : x ≠ q := fun h => hbelow (h ▸ hx)
          exact ⟨x, e, List.mem_cons_of_mem _ (List.mem_filter.mpr ⟨hmem, by simpa using hne⟩), hx⟩
      rw [hsame]

/-! ## What paths lead to -/

theorem followFrom_append (t : FileTree) (place : SourcePath) (parts more : List String) :
    t.followFrom place (parts ++ more) = (t.followFrom place parts).bind (t.followFrom · more) := by
  fun_induction followFrom t place parts with
  | case1 place => rfl
  | case2 place part parts h => simp [followFrom, h, Except.bind]
  | case3 place part parts h h' => simp [followFrom, h, h', Except.bind]
  | case4 place parts h h' ih =>
    simp only [List.cons_append, followFrom, h, h', Bool.false_eq_true, ↓reduceIte, ih]
  | case5 place part parts h h' hup hname => simp [followFrom, h, h', hup, hname, Except.bind]
  | case6 place part parts h h' hup hname hlong => simp [followFrom, h, h', hup, hname, hlong, Except.bind]
  | case7 place part parts h h' hup hname hlong ih =>
    simp only [List.cons_append, followFrom, h, h', hup, hname, hlong, Bool.false_eq_true, ↓reduceIte, ih]

/-- One part of a path: it starts in a directory, and it is a name that is not too long. -/
theorem followFrom_cons_eq_ok {part : String} {parts : List String} :
    t.followFrom place (part :: parts) = .ok q ↔
      t.isDirectory place = true ∧
        if part = ".." then t.followFrom place.parent parts = .ok q
        else (SourcePath.isName part = true ∧ ¬ maxNameBytes < part.utf8ByteSize) ∧
          t.followFrom (place.child part) parts = .ok q := by
  rw [followFrom]
  by_cases hfile : t.isFile place = true
  · rw [if_pos hfile, isDirectory_eq_false_of_isFile hfile]
    simp
  · rw [if_neg hfile]
    by_cases hdir : t.isDirectory place = true
    · rw [if_neg (by simp [hdir])]
      by_cases hup : part = ".."
      · rw [if_pos hup, if_pos hup]
        simp [hdir]
      · rw [if_neg hup, if_neg hup]
        cases hname : SourcePath.isName part with
        | false => simp
        | true =>
          by_cases hlong : maxNameBytes < part.utf8ByteSize
          · simp [hlong]
          · simp [hlong, hdir]
    · simp [hdir]

theorem followFrom_eq_ok_iff {parts : List String} (h : ∀ d, s.isDirectory d = t.isDirectory d) :
    s.followFrom place parts = .ok q ↔ t.followFrom place parts = .ok q := by
  induction parts generalizing place with
  | nil => exact Iff.rfl
  | cons part parts ih => rw [followFrom_cons_eq_ok, followFrom_cons_eq_ok, h, ih, ih]

/-- Where a path leads is a matter of the directories. -/
theorem follow_eq_ok_iff (h : ∀ d, s.isDirectory d = t.isDirectory d) :
    s.follow p = .ok q ↔ t.follow p = .ok q := by
  unfold follow
  split
  · simp
  · exact followFrom_eq_ok_iff h

theorem eq_or_isBelow_of_isBelow_child {d : SourcePath} {name : String}
    (h : isBelow d (place.child name) = true) : d = place ∨ isBelow d place = true := by
  obtain ⟨hslashes, rest, hne, hparts⟩ := isBelow_iff.mp h
  obtain ⟨front, last, rfl⟩ : ∃ front last, rest = front ++ [last] :=
    ⟨rest.dropLast, rest.getLast hne, (List.dropLast_concat_getLast hne).symm⟩
  rw [← List.append_assoc] at hparts
  obtain ⟨hfront, -⟩ := List.append_inj' hparts rfl
  by_cases hempty : front = []
  · left
    rw [hempty, List.append_nil] at hfront
    cases d
    cases place
    simp only [SourcePath.mk.injEq]
    exact ⟨hslashes.symm, hfront.symm⟩
  · exact Or.inr (isBelow_iff.mpr ⟨hslashes, front, hempty, hfront⟩)

theorem isBelow_of_isBelow_parent {d : SourcePath} (h : isBelow d place.parent = true) :
    isBelow d place = true := by
  obtain ⟨hslashes, rest, hne, hparts⟩ := isBelow_iff.mp h
  change place.parts.dropLast = _ at hparts
  have hplace : place.parts ≠ [] := by
    intro hnil
    rw [hnil] at hparts
    simp [hne] at hparts
  refine isBelow_iff.mpr ⟨hslashes, rest ++ [place.parts.getLast hplace], by simp, ?_⟩
  rw [← List.append_assoc, ← hparts, List.dropLast_concat_getLast]

/-- What is above a place that a path leads to is a directory, and the place itself is one if the path
goes on or steps back there. -/
theorem above_isDirectory {parts : List String} (h : t.followFrom place parts = .ok q)
    (habove : ∀ d, isBelow d place = true → t.isDirectory d = true) :
    ∀ d, isBelow d q = true → t.isDirectory d = true := by
  induction parts generalizing place with
  | nil =>
    obtain rfl : place = q := by simpa [followFrom] using h
    exact habove
  | cons part parts ih =>
    obtain ⟨hdir, h⟩ := followFrom_cons_eq_ok.mp h
    split at h
    · exact ih h fun d hd => habove d (isBelow_of_isBelow_parent hd)
    · refine ih h.2 fun d hd => ?_
      rcases eq_or_isBelow_of_isBelow_child hd with rfl | hd
      · exact hdir
      · exact habove d hd

theorem not_isBelow_root (d : SourcePath) : isBelow d ⟨1, []⟩ = false := by
  rw [Bool.eq_false_iff]
  intro h
  obtain ⟨-, rest, hne, hparts⟩ := isBelow_iff.mp h
  simp [hne] at hparts

theorem above_isDirectory_of_follow (h : t.follow p = .ok q) (d : SourcePath)
    (hd : isBelow d q = true) : t.isDirectory d = true := by
  unfold follow at h
  split at h
  · exact absurd h (by simp)
  · exact above_isDirectory h (fun d hd => absurd hd (by simp [not_isBelow_root])) d hd

/-! ## Files that paths lead to -/

/-- A path leads to a place where a file with these bytes stands. -/
structure Holds (t : FileTree) (p place : SourcePath) (bytes : List UInt8) : Prop where
  leads : t.follow p = .ok place
  stands : t.entry? place = some (.file bytes)

theorem read?_eq_ok_iff : t.read? p = .ok bytes ↔ ∃ place, t.Holds p place bytes := by
  unfold read?
  cases hp : t.follow p with
  | error f =>
    simp only [bind, Except.bind, false_iff, not_exists, reduceCtorEq]
    intro place h
    exact absurd (hp.symm.trans h.leads) (by simp)
  | ok place =>
    simp only [bind, Except.bind]
    constructor
    · intro h
      split at h
      next b hb =>
        obtain rfl : b = bytes := by simpa [pure, Except.pure] using h
        exact ⟨place, hp, hb⟩
      next => split at h <;> exact absurd h (by simp [throw, throwThe, MonadExceptOf.throw])
    · rintro ⟨place', hleads, hstands⟩
      obtain rfl : place = place' := by simpa [hp] using hleads
      rw [hstands]
      rfl

namespace Holds

variable (h : t.Holds p place bytes)

include h

theorem isFile : t.isFile place = true := isFile_iff.mpr ⟨bytes, h.stands⟩

theorem read? : t.read? p = .ok bytes := read?_eq_ok_iff.mpr ⟨place, h⟩

end Holds

/-- A path to a file ends in the name of the file. -/
theorem followFrom_concat_eq_ok_of_isFile {parts : List String} {name : String} {d : SourcePath}
    (h : t.followFrom d (parts ++ [name]) = .ok place)
    (habove : ∀ a, isBelow a d = true → t.isDirectory a = true) (hfile : t.isFile place = true) :
    ∃ dir, t.followFrom d parts = .ok dir ∧ t.isDirectory dir = true ∧ place = dir.child name := by
  rw [followFrom_append] at h
  cases hdir : t.followFrom d parts with
  | error f => rw [hdir] at h; exact absurd h (by simp [Except.bind])
  | ok dir =>
    rw [hdir] at h
    obtain ⟨hisdir, h⟩ := followFrom_cons_eq_ok.mp h
    refine ⟨dir, rfl, hisdir, ?_⟩
    split at h
    next hup =>
      -- a step back leads to a directory
      obtain rfl : dir.parent = place := by simpa [followFrom] using h
      have : t.isDirectory dir.parent = true := by
        by_cases hempty : dir.parts = []
        · have hsame : dir.parent = dir := by
            cases dir
            simp_all [SourcePath.parent]
          rw [hsame]
          exact hisdir
        · refine above_isDirectory hdir habove _ (isBelow_iff.mpr ⟨rfl, [dir.parts.getLast hempty], by simp, ?_⟩)
          exact (List.dropLast_concat_getLast hempty).symm
      rw [isDirectory_eq_false_of_isFile hfile] at this
      exact absurd this (by simp)
    next hup =>
      have : dir.child name = place := by simpa [followFrom] using h.2
      exact this.symm

end FileTree

end HouseStyle
