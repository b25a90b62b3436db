import HouseStyle.Project.Target
import HouseStyle.Proofs.FixedFiles

/-!
# Which files are found

The files that are found have the paths of places (`isPlain_of_discover`). Such a path leads to itself if it
leads anywhere, and it is known by its text.

What is found depends on where files and directories are and not on what the files hold
(`FileTree.SameShape`), so writing files that are there changes nothing about it (`discover_congr`).
-/

namespace HouseStyle

namespace SourcePath

theorem IsPlain.toList_toString {p : SourcePath} (h : p.IsPlain) :
    p.toString.toList = '/' :: List.intercalate ['/'] (p.parts.map String.toList) := by
  unfold toString
  rw [h.slashes]
  simp [String.toList_intercalate]

/-- Places with one text are one place. -/
theorem IsPlain.eq_of_toString {p q : SourcePath} (hp : p.IsPlain) (hq : q.IsPlain)
    (h : p.toString = q.toString) : p = q := by
  have hlist := congrArg String.toList h
  rw [hp.toList_toString, hq.toList_toString, List.cons.injEq] at hlist
  have hnames : ∀ {r : SourcePath}, r.IsPlain → ∀ part ∈ r.parts.map String.toList, '/' ∉ part := by
    intro r hr part hpart
    obtain ⟨name, hname, rfl⟩ := List.mem_map.mp hpart
    exact hr.slash_not_mem hname
  have hempty : ∀ {r : SourcePath}, r.IsPlain →
      List.intercalate ['/'] (r.parts.map String.toList) = [] → r.parts = [] := by
    intro r hr hnil
    cases hparts : r.parts with
    | nil => rfl
    | cons name names =>
      have hname : name ≠ "" := hr.ne_empty (by simp [hparts])
      rw [hparts] at hnil
      cases names <;> simp [List.intercalate_cons_cons, hname] at hnil
  have hparts : p.parts.map String.toList = q.parts.map String.toList := by
    by_cases hp' : p.parts = []
    · rw [hp'] at hlist
      rw [hp', hempty hq hlist.2.symm]
    · by_cases hq' : q.parts = []
      · rw [hq'] at hlist
        rw [hq', hempty hp hlist.2]
      · rw [← List.splitOn_intercalate '/' (hnames hp) (by simpa using hp'), hlist.2,
          List.splitOn_intercalate '/' (hnames hq) (by simpa using hq')]
  cases p
  cases q
  rw [SourcePath.mk.injEq]
  exact ⟨hp.slashes.trans hq.slashes.symm, (List.map_inj_right fun a b => String.toList_inj.mp).mp hparts⟩

end SourcePath

namespace FileTree

variable {s t u : FileTree} {p q place : SourcePath} {bytes : List UInt8}

theorem eq_of_followFrom {parts : List String} (hup : ".." ∉ parts)
    (h : t.followFrom place parts = .ok q) : q = ⟨place.slashes, place.parts ++ parts⟩ := by
  induction parts generalizing place with
  | nil =>
    obtain rfl : place = q := by simpa [followFrom] using h
    simp
  | cons part parts ih =>
    obtain ⟨-, h⟩ := followFrom_cons_eq_ok.mp h
    rw [if_neg (fun heq => hup (by simp [heq]))] at h
    rw [ih (fun hmem => hup (by simp [hmem])) h.2]
    simp [SourcePath.child]

/-- The path of a place leads to itself. -/
theorem eq_of_follow (hp : p.IsPlain) (h : t.follow p = .ok q) : q = p := by
  unfold follow at h
  split at h
  · exact absurd h (by simp)
  · rw [eq_of_followFrom hp.up h, ← hp.slashes]
    rfl

theorem file?_eq_some_iff : t.file? p = some bytes ↔ t.read? p = .ok bytes := by
  unfold file?
  split
  next b hb => rw [hb, Option.some.injEq, Except.ok.injEq]
  next failure hb => rw [hb]; simp

theorem Holds.file? (h : t.Holds p place bytes) : t.file? p = some bytes := file?_eq_some_iff.mpr h.read?

/-- What is read at the path of a place stands there. -/
theorem holds_of_read? (hp : p.IsPlain) (h : t.read? p = .ok bytes) : t.Holds p p bytes := by
  obtain ⟨place, hholds⟩ := read?_eq_ok_iff.mp h
  rwa [eq_of_follow hp hholds.leads] at hholds

/-- The paths of places with files lead to different files. -/
theorem holdsEach_of_isPlain {ps : List SourcePath} (hplain : ∀ p ∈ ps, p.IsPlain)
    (hread : ∀ p ∈ ps, ∃ bytes, t.read? p = .ok bytes) : t.HoldsEach ps := by
  refine ⟨fun p hp => ?_, fun p hp q hq x hpx hqx => ?_⟩
  · obtain ⟨bytes, hbytes⟩ := hread p hp
    obtain ⟨place, hholds⟩ := read?_eq_ok_iff.mp hbytes
    exact ⟨place, bytes, hholds⟩
  · rw [← eq_of_follow (hplain p hp) hpx, eq_of_follow (hplain q hq) hqx]

/-! ## Trees of one shape -/

/-- A file is listed at a path. -/
def Lists (t : FileTree) (q : SourcePath) : Prop := ∃ bytes, (q, TreeEntry.file bytes) ∈ t.entries

/-- Two trees with files and directories at the same places. -/
structure SameShape (s t : FileTree) : Prop where
  directories : ∀ d, s.isDirectory d = t.isDirectory d
  files : ∀ x, s.isFile x = t.isFile x
  lists : ∀ x, s.Lists x ↔ t.Lists x

theorem SameShape.refl (t : FileTree) : SameShape t t := ⟨fun _ => rfl, fun _ => rfl, fun _ => Iff.rfl⟩

theorem SameShape.trans (h : SameShape s t) (h' : SameShape t u) : SameShape s u :=
  ⟨fun d => (h.directories d).trans (h'.directories d), fun x => (h.files x).trans (h'.files x),
    fun x => (h.lists x).trans (h'.lists x)⟩

theorem SameShape.symm (h : SameShape s t) : SameShape t s :=
  ⟨fun d => (h.directories d).symm, fun x => (h.files x).symm, fun x => (h.lists x).symm⟩

theorem lists_of_isFile (h : t.isFile p = true) : t.Lists p := by
  obtain ⟨bytes, h⟩ := isFile_iff.mp h
  obtain ⟨front, back, heq, -⟩ := List.lookup_eq_some_iff.mp h
  exact ⟨bytes, by rw [heq]; simp⟩

/-- A file that gets other bytes. -/
theorem Holds.sameShape_set (h : t.Holds p place bytes) (after : List UInt8) :
    SameShape (t.set place (.file after) h.isPlain) t := by
  refine ⟨isDirectory_set_of_follow h.leads (isDirectory_eq_false_of_isFile h.isFile), fun x => ?_,
    fun x => ?_⟩
  · rw [isFile_set]
    by_cases hx : x = place
    · simp [hx, h.isFile]
    · simp [hx]
  · by_cases hx : x = place
    · subst hx
      exact ⟨fun _ => lists_of_isFile h.isFile, fun _ => ⟨after, List.mem_cons_self⟩⟩
    · simp [Lists, set, hx]

theorem SameShape.followFrom (h : SameShape s t) (parts : List String) :
    s.followFrom place parts = t.followFrom place parts := by
  induction parts generalizing place with
  | nil => rfl
  | cons part parts ih => simp only [FileTree.followFrom, h.files, h.directories, ih]

theorem SameShape.follow (h : SameShape s t) (p : SourcePath) : s.follow p = t.follow p := by
  unfold FileTree.follow
  rw [h.followFrom]

/-- Without backups a run changes only what files hold. -/
theorem sameShape_fixFile {mode : FixMode} (hbackup : mode.backup = false) (label : String)
    (vs : List Violation) : SameShape (t.fixFile mode label p vs).2.1 t := by
  cases hread : t.read? p with
  | error failure =>
    unfold fixFile
    rw [hread]
    exact SameShape.refl t
  | ok bytes =>
    obtain ⟨place, hholds⟩ := read?_eq_ok_iff.mp hread
    cases happly : applyFixes (Utf8.decode bytes) vs with
    | error r =>
      obtain ⟨log, heq⟩ := hholds.fixFile_of_refused mode label happly
      rw [heq]
      exact SameShape.refl t
    | ok after =>
      by_cases hsame : after = Utf8.decode bytes ∨ mode.dryRun = true
      · rw [hholds.fixFile_of_same label happly hsame]
        exact SameShape.refl t
      · obtain ⟨log, heq⟩ := hholds.fixFile_of_changed label happly hsame
        have hwrite : t.writeFix mode p bytes after =
            .ok (t.set place (.file (Utf8.encode after)) hholds.isPlain) := by
          unfold writeFix
          rw [hbackup]
          exact congrArg Except.ok (write_of_follow hholds.leads _)
        rw [heq, hwrite]
        exact hholds.sameShape_set _

theorem sameShape_fixFiles {mode : FixMode} (hbackup : mode.backup = false) (base root : SourcePath)
    (vs : List Violation) (ps : List SourcePath) :
    SameShape (t.fixFiles mode base root vs ps).2.1 t := by
  induction ps generalizing t with
  | nil => exact SameShape.refl t
  | cons p ps ih => exact ih.trans (sameShape_fixFile hbackup _ _)

/-- In trees of one shape a path leads to the same bytes if the place that it leads to holds them. -/
theorem SameShape.read? (h : SameShape s t)
    (hentry : ∀ x, t.follow p = .ok x → s.entry? x = t.entry? x) : s.read? p = t.read? p := by
  unfold FileTree.read?
  rw [h.follow]
  cases hp : t.follow p with
  | error failure => rfl
  | ok x =>
    simp only [bind, Except.bind]
    rw [hentry x hp, h.directories]

/-! ## Finding files -/

theorem mem_filesBelow {dir : SourcePath} :
    q ∈ t.filesBelow dir ↔ ∃ x, t.Lists x ∧ x.relativeTo? dir = some q := by
  unfold filesBelow Lists
  rw [List.mem_filterMap]
  constructor
  · rintro ⟨⟨x, e⟩, hmem, hx⟩
    cases e with
    | file bytes => exact ⟨x, ⟨bytes, hmem⟩, hx⟩
    | directory => exact absurd hx (by simp)
  · rintro ⟨x, ⟨bytes, hmem⟩, hx⟩
    exact ⟨(x, .file bytes), hmem, hx⟩

theorem SameShape.mem_filesOf (h : SameShape s t) {config : Config} {root : SourcePath} :
    q ∈ s.filesOf config root p ↔ q ∈ t.filesOf config root p := by
  unfold filesOf
  rw [h.directories]
  split
  · simp only [List.mem_filter, List.mem_map, mem_filesBelow, h.lists]
  · exact Iff.rfl

theorem Lists.isPlain (h : t.Lists p) : p.IsPlain := by
  obtain ⟨bytes, hmem⟩ := h
  exact t.plain _ hmem

/-- A file stands at a place. -/
theorem isPlain_of_isFile (h : t.isFile p = true) : p.IsPlain := (lists_of_isFile h).isPlain

/-- A file in a directory, found by its path relative to it, has the path that the tree lists. -/
theorem join_of_relativeTo? {dir x : SourcePath} (h : x.relativeTo? dir = some q) : dir.join q = x := by
  unfold SourcePath.relativeTo? at h
  split at h
  next hslashes =>
    obtain ⟨rest, hrest, rfl⟩ := Option.map_eq_some_iff.mp h
    have hparts := SourcePath.dropLead?_eq_some.mp hrest
    cases x
    simp_all [SourcePath.join, SourcePath.isAbsolute]
  next => exact absurd h (by simp)

theorem mem_filesOf_cases {config : Config} {root : SourcePath} (h : q ∈ t.filesOf config root p) :
    q = p ∨ t.Lists q ∧ config.selects p root q = true := by
  unfold filesOf at h
  split at h
  · obtain ⟨h, hselects⟩ := List.mem_filter.mp h
    obtain ⟨relative, hrelative, rfl⟩ := List.mem_map.mp h
    obtain ⟨x, hx, hrelative⟩ := mem_filesBelow.mp (List.mem_filter.mp hrelative).1
    rw [join_of_relativeTo? hrelative] at hselects ⊢
    exact Or.inr ⟨hx, hselects⟩
  · exact Or.inl (List.mem_singleton.mp h)

theorem mem_filesAt {config : Config} {base root : SourcePath} {paths : List SourcePath} :
    q ∈ t.filesAt config base root paths ↔
      ∃ p ∈ paths, q ∈ t.filesOf config root (SourcePath.resolve base p) := by
  unfold filesAt sortedPaths
  rw [List.mem_mergeSort, List.mem_eraseDups, List.mem_flatMap]

theorem filesAt_of_discover {config : Config} {base root : SourcePath} {paths found : List SourcePath}
    (h : t.discover config base root paths = .ok found) : found = t.filesAt config base root paths := by
  unfold FileTree.discover at h
  cases hpaths : paths.forM (t.allow base) with
  | error fault => rw [hpaths] at h; exact absurd h (by simp [Except.map])
  | ok u =>
    rw [hpaths] at h
    exact (Except.ok.inj h).symm

/-- The paths of the files that are found are those of places. -/
theorem isPlain_of_discover {config : Config} {base root : SourcePath}
    {paths found : List SourcePath} (h : t.discover config base root paths = .ok found) :
    ∀ p ∈ found, p.IsPlain := by
  intro q hq
  rw [filesAt_of_discover h] at hq
  obtain ⟨p, -, hq⟩ := mem_filesAt.mp hq
  rcases mem_filesOf_cases hq with rfl | ⟨hlists, -⟩
  · exact SourcePath.isPlain_resolve base p
  · exact hlists.isPlain

theorem nodup_of_discover {config : Config} {base root : SourcePath} {paths found : List SourcePath}
    (h : t.discover config base root paths = .ok found) : found.Nodup := by
  rw [filesAt_of_discover h]
  exact (List.mergeSort_perm _ _).nodup_iff.mpr (SourcePath.nodup_eraseDups _)

/-- Lists of the same places are put in the same order. -/
theorem sortedPaths_congr {ps qs : List SourcePath} (hmem : ∀ p, p ∈ ps ↔ p ∈ qs)
    (hplain : ∀ p ∈ sortedPaths ps, p.IsPlain) : sortedPaths ps = sortedPaths qs := by
  have htrans : ∀ a b c : SourcePath, decide (a.toString ≤ b.toString) = true →
      decide (b.toString ≤ c.toString) = true → decide (a.toString ≤ c.toString) = true := by
    intro a b c hab hbc
    simp only [decide_eq_true_eq] at *
    exact String.le_trans hab hbc
  have htotal : ∀ a b : SourcePath,
      (decide (a.toString ≤ b.toString) || decide (b.toString ≤ a.toString)) = true := by
    intro a b
    simpa using String.le_total a.toString b.toString
  have hperm : (sortedPaths ps).Perm (sortedPaths qs) := by
    refine ((List.mergeSort_perm _ _).trans ?_).trans (List.mergeSort_perm _ _).symm
    refine (List.perm_ext_iff_of_nodup (SourcePath.nodup_eraseDups _)
      (SourcePath.nodup_eraseDups _)).mpr ?_
    simpa using hmem
  refine List.Perm.eq_of_pairwise ?_ (List.pairwise_mergeSort htrans htotal _)
    (List.pairwise_mergeSort htrans htotal _) hperm
  intro a b ha hb hab hba
  simp only [decide_eq_true_eq] at hab hba
  exact (hplain a ha).eq_of_toString (hplain b (hperm.mem_iff.mpr hb)) (String.le_antisymm hab hba)

/-- In trees of one shape the same files are found. -/
theorem SameShape.discover (h : SameShape s t) {config : Config} {base root : SourcePath}
    {paths found : List SourcePath} (hfound : t.discover config base root paths = .ok found) :
    s.discover config base root paths = .ok found := by
  have hplain := isPlain_of_discover hfound
  have hallow : s.allow base = t.allow base := by
    funext p
    unfold allow
    rw [h.follow]
  unfold FileTree.discover at hfound ⊢
  rw [hallow]
  cases hpaths : paths.forM (t.allow base) with
  | error fault => rw [hpaths] at hfound; exact absurd hfound (by simp [Except.map])
  | ok u =>
    rw [hpaths] at hfound
    obtain rfl : t.filesAt config base root paths = found := by simpa [Except.map] using hfound
    have hsame : t.filesAt config base root paths = s.filesAt config base root paths := by
      refine sortedPaths_congr (fun p => ?_) hplain
      simp only [List.mem_flatMap, h.mem_filesOf]
    rw [hsame]
    rfl

end FileTree

end HouseStyle
