import HouseStyle.Project.Check
import HouseStyle.Proofs.FoundFiles

/-!
# What the formatter does to the files

The formatter is asked about one file after another. It looks at the file that it is asked about and at no
other one, and what it gives is written there or nowhere (`Holds.formatFile_cases`). So the turns of the
files may come in any order (`HoldsEach.formatsApart`), and a pass that is not to write back leaves the
tree as it is (`formatFiles_tree`).
-/

namespace HouseStyle

namespace FileTree

variable {s t : FileTree} {p q place : SourcePath} {bytes : List UInt8}

theorem exists_holds_of_isSome (h : (t.file? p).isSome = true) : ∃ place bytes, t.Holds p place bytes := by
  obtain ⟨bytes, hbytes⟩ := Option.isSome_iff_exists.mp h
  obtain ⟨place, hholds⟩ := read?_eq_ok_iff.mp (file?_eq_some_iff.mp hbytes)
  exact ⟨place, bytes, hholds⟩

/-- In trees of one shape the same paths can be read. -/
theorem SameShape.isSome_file? (h : SameShape s t) : (s.file? p).isSome = (t.file? p).isSome := by
  have hone : ∀ {s t : FileTree}, SameShape s t → (s.file? p).isSome = true → (t.file? p).isSome = true := by
    intro s t h hs
    obtain ⟨place, bytes, hholds⟩ := exists_holds_of_isSome hs
    obtain ⟨bytes', hstands⟩ := isFile_iff.mp ((h.files place).symm.trans hholds.isFile)
    have hholds' : t.Holds p place bytes' := ⟨(h.follow p).symm.trans hholds.leads, hstands⟩
    rw [hholds'.file?]
    rfl
  exact Bool.eq_iff_iff.mpr ⟨hone h, hone h.symm⟩

/-- A file that gets other bytes is not where another file is looked for. -/
theorem AgreesAt.set {place' : SourcePath} {bytes' after : List UInt8} (hs : s.Holds p place bytes)
    (hq : t.Holds q place' bytes') (hne : place ≠ place') (ha : AgreesAt s t q) :
    AgreesAt (s.set place (.file after) hs.isPlain) t q := by
  have hshape : SameShape (s.set place (.file after) hs.isPlain) s := hs.sameShape_set after
  refine ⟨fun d => (hshape.directories d).trans (ha.directories d), ?_, ?_⟩
  · intro x hx
    obtain rfl : place' = x := Except.ok.inj (hq.leads.symm.trans hx)
    rw [entry?_set, if_neg (Ne.symm hne)]
    exact ha.file place' hx
  · intro x hx
    exact (hshape.files x).trans (ha.backup x hx)

end FileTree

namespace CheckTarget

open FileTree (Holds HoldsEach AgreesAt SameShape TasksApart)

variable {target : CheckTarget} {w w' : World} {writeBack : Bool} {s t : FileTree} {p place : SourcePath}
  {bytes : List UInt8}

/-- What the formatter gives for a file is a matter of the file and of the answers. -/
theorem formatFile_congr (hs : s.file? p = t.file? p) (hspawn : w.spawn p = w'.spawn p) :
    (target.formatFile w writeBack s p).1 = (target.formatFile w' writeBack t p).1 ∧
      ((target.formatFile w writeBack s p).2.1 = s ∧ (target.formatFile w' writeBack t p).2.1 = t ∨
        writeBack = true ∧ ∃ after, (target.formatFile w writeBack s p).2.1 = s.write p after ∧
          (target.formatFile w' writeBack t p).2.1 = t.write p after) := by
  unfold formatFile
  rw [hs, hspawn]
  dsimp only
  cases hrun : (Formatter.run target.config.formatter.command p.toString (some Formatter.timeLimit)
      (w'.spawn p)).result with
  | error e => exact ⟨rfl, Or.inl ⟨rfl, rfl⟩⟩
  | ok formatted =>
    dsimp only
    cases Diff.firstDifferenceLine (Utf8.decode ((t.file? p).getD [])) formatted with
    | none => exact ⟨rfl, Or.inl ⟨rfl, rfl⟩⟩
    | some line =>
      dsimp only
      by_cases hwrite : writeBack = true
      · rw [if_pos hwrite, if_pos hwrite]
        exact ⟨rfl, Or.inr ⟨hwrite, _, rfl, rfl⟩⟩
      · rw [if_neg hwrite, if_neg hwrite]
        exact ⟨rfl, Or.inl ⟨rfl, rfl⟩⟩

/-- The formatter leaves the tree as it is, or writes the file that it is asked about. -/
theorem formatFile_cases (h : t.Holds p place bytes) :
    (target.formatFile w writeBack t p).2.1 = t ∨
      writeBack = true ∧
        ∃ after, (target.formatFile w writeBack t p).2.1 = t.set place (.file after) h.isPlain := by
  have hboth := @formatFile_congr target w w writeBack t t p rfl rfl
  rcases hboth.2 with ⟨htree, -⟩ | ⟨hwrite, after, htree, -⟩
  · exact Or.inl htree
  · rw [FileTree.write_of_follow h.leads] at htree
    exact Or.inr ⟨hwrite, after, htree⟩

/-- What the formatter gives is written if it is another text. -/
theorem formatFile_tree_of_ne (h : t.Holds p place bytes) {formatted : Text}
    (hrun : (Formatter.run target.config.formatter.command p.toString (some Formatter.timeLimit)
      (w.spawn p)).result = .ok formatted)
    (hne : Utf8.decode bytes ≠ formatted) :
    (target.formatFile w true t p).2.1 = t.set place (.file (Utf8.encode formatted)) h.isPlain := by
  unfold formatFile
  dsimp only
  rw [hrun, h.file?]
  dsimp only [Option.getD_some]
  unfold Diff.firstDifferenceLine
  rw [if_neg hne]
  exact FileTree.write_of_follow h.leads _

/-- The notes of the formatter are notes of the checker on the file. -/
theorem ruleId_of_mem_formatFile {note : Violation}
    (h : note ∈ (target.formatFile w writeBack t p).1) :
    note.ruleId = "engine/formatter-failed" ∨ note.ruleId = "engine/format-drift" := by
  unfold formatFile at h
  dsimp only at h
  split at h
  · rw [List.mem_singleton.mp h]
    exact Or.inl rfl
  · split at h
    · exact absurd h List.not_mem_nil
    · split at h
      · exact absurd h List.not_mem_nil
      · rw [List.mem_singleton.mp h]
        exact Or.inr rfl

theorem ruleId_of_mem_formatFiles {ps : List SourcePath} {note : Violation}
    (h : note ∈ (target.formatFiles w writeBack t ps).1) :
    note.ruleId = "engine/formatter-failed" ∨ note.ruleId = "engine/format-drift" := by
  induction ps generalizing t with
  | nil => exact absurd h List.not_mem_nil
  | cons p ps ih =>
    rcases List.mem_append.mp h with h | h
    · exact ruleId_of_mem_formatFile h
    · exact ih h

/-- Every call of the formatter names the file that it is asked about. -/
theorem eq_of_mem_calls_run {command : List String} {path : String} {limit : Option Quantity}
    {spawn : Nat → SpawnOutcome} {call : List String}
    (h : call ∈ (Formatter.run command path limit spawn).calls) : call = command ++ [path] := by
  cases command with
  | nil => exact absurd h List.not_mem_nil
  | cons program args =>
    have htries : ∀ tries attempt problem, call ∈ (Formatter.tryFrom program (program :: args ++ [path]) limit
        spawn attempt problem tries).calls → call = program :: args ++ [path] := by
      intro tries
      induction tries with
      | zero => exact fun _ _ h => absurd h List.not_mem_nil
      | succ tries ih =>
        intro attempt problem h
        rw [Formatter.tryFrom] at h
        split at h
        next problem' _ =>
          rcases List.mem_cons.mp h with rfl | h
          · rfl
          · exact ih (attempt + 1) problem' h
        next => exact List.mem_singleton.mp h
        next => exact List.mem_singleton.mp h
    exact htries _ _ _ h

theorem run_formatFile (target : CheckTarget) (w : World) (writeBack : Bool) (t : FileTree) (p : SourcePath) :
    (target.formatFile w writeBack t p).2.2.1 = Formatter.run target.config.formatter.command p.toString
      (some Formatter.timeLimit) (w.spawn p) := by
  unfold formatFile
  dsimp only
  split
  · rfl
  · split
    · rfl
    · split <;> rfl

theorem exists_of_mem_calls_formatFiles {ps : List SourcePath} {call : List String}
    (h : call ∈ (target.formatFiles w writeBack t ps).2.2.1) :
    ∃ p ∈ ps, call = target.config.formatter.command ++ [p.toString] := by
  induction ps generalizing t with
  | nil => exact absurd h List.not_mem_nil
  | cons p ps ih =>
    have h : call ∈ (target.formatFile w writeBack t p).2.2.1.calls ++
        (target.formatFiles w writeBack (target.formatFile w writeBack t p).2.1 ps).2.2.1 := h
    rw [run_formatFile] at h
    rcases List.mem_append.mp h with h | h
    · exact ⟨p, List.mem_cons_self, eq_of_mem_calls_run h⟩
    · obtain ⟨q, hq, hcall⟩ := ih h
      exact ⟨q, List.mem_cons_of_mem p hq, hcall⟩

/-- The formatter changes only what files hold. -/
theorem sameShape_formatFiles {ps : List SourcePath} (hread : ∀ p ∈ ps, (t.file? p).isSome = true) :
    SameShape (target.formatFiles w writeBack t ps).2.1 t := by
  induction ps generalizing t with
  | nil => exact SameShape.refl t
  | cons p ps ih =>
    obtain ⟨place, bytes, hholds⟩ := FileTree.exists_holds_of_isSome (hread p List.mem_cons_self)
    have hone : SameShape (target.formatFile w writeBack t p).2.1 t := by
      rcases formatFile_cases hholds with htree | ⟨-, after, htree⟩
      · rw [htree]
        exact SameShape.refl t
      · rw [htree]
        exact hholds.sameShape_set after
    exact (ih fun q hq => hone.isSome_file?.trans (hread q (List.mem_cons_of_mem p hq))).trans hone

/-- The formatter leaves alone what it is not asked about. -/
theorem entry?_formatFiles {ps : List SourcePath} (hread : ∀ p ∈ ps, (t.file? p).isSome = true)
    {x : SourcePath} (hx : ∀ p ∈ ps, t.follow p ≠ .ok x) :
    FileTree.entry? (target.formatFiles w writeBack t ps).2.1 x = t.entry? x := by
  induction ps generalizing t with
  | nil => rfl
  | cons p ps ih =>
    obtain ⟨place, bytes, hholds⟩ := FileTree.exists_holds_of_isSome (hread p List.mem_cons_self)
    have hone : SameShape (target.formatFile w writeBack t p).2.1 t ∧
        FileTree.entry? (target.formatFile w writeBack t p).2.1 x = t.entry? x := by
      rcases formatFile_cases hholds with htree | ⟨-, after, htree⟩
      · rw [htree]
        exact ⟨SameShape.refl t, rfl⟩
      · rw [htree]
        refine ⟨hholds.sameShape_set after, ?_⟩
        rw [FileTree.entry?_set, if_neg]
        rintro rfl
        exact hx p List.mem_cons_self hholds.leads
    obtain ⟨hshape, hentry⟩ := hone
    refine (ih (fun q hq => ?_) fun q hq hleads => ?_).trans hentry
    · exact hshape.isSome_file?.trans (hread q (List.mem_cons_of_mem p hq))
    · exact hx q (List.mem_cons_of_mem p hq) ((hshape.follow q).symm.trans hleads)

/-! ## The turns of the files -/

/-- The turn of one file, as a task of its own, in a world that may change with the tree. -/
def formatTask (target : CheckTarget) (worldOf : FileTree → World) (writeBack : Bool) (t : FileTree)
    (p : SourcePath) : List Violation × FileTree :=
  ((target.formatFile (worldOf t) writeBack t p).1, (target.formatFile (worldOf t) writeBack t p).2.1)

theorem formatFiles_eq_inTurn (target : CheckTarget) (w : World) (writeBack : Bool) (t : FileTree)
    (ps : List SourcePath) :
    let turns := FileTree.inTurn (target.formatTask (fun _ => w) writeBack) t ps
    (target.formatFiles w writeBack t ps).1 = turns.1.flatten ∧
      (target.formatFiles w writeBack t ps).2.1 = turns.2 := by
  induction ps generalizing t with
  | nil => exact ⟨rfl, rfl⟩
  | cons p ps ih =>
    obtain ⟨hnotes, htree⟩ := ih (target.formatFile w writeBack t p).2.1
    exact ⟨congrArg (_ ++ ·) hnotes, htree⟩

/-- The formatter does not get in its own way, if what it answers is a matter of the file. -/
theorem formatsApart {ps : List SourcePath} (hps : t.HoldsEach ps) (worldOf : FileTree → World)
    (hworld : ∀ p ∈ ps, ∀ s, s.file? p = t.file? p → (worldOf s).spawn p = (worldOf t).spawn p) :
    TasksApart (target.formatTask worldOf writeBack) t (fun s p => AgreesAt s t p) ps := by
  have hfile : ∀ p ∈ ps, ∀ s, AgreesAt s t p → s.file? p = t.file? p := by
    intro p hp s hs
    obtain ⟨place, bytes, hholds⟩ := hps.holds p hp
    rw [hholds.file?, (hs.holds hholds).file?]
  have hboth := fun p (hp : p ∈ ps) s (hs : AgreesAt s t p) =>
    @formatFile_congr target (worldOf s) (worldOf t) writeBack s t p (hfile p hp s hs)
      (hworld p hp s (hfile p hp s hs))
  refine ⟨fun p hp s hs => (hboth p hp s hs).1, ?_, ?_, ?_, ?_⟩
  · intro p hp s hs x
    obtain ⟨place, bytes, hholds⟩ := hps.holds p hp
    show FileTree.entry? (target.formatFile (worldOf s) writeBack s p).2.1 x =
      if FileTree.entry? (target.formatFile (worldOf t) writeBack t p).2.1 x = t.entry? x then s.entry? x
      else FileTree.entry? (target.formatFile (worldOf t) writeBack t p).2.1 x
    rcases (hboth p hp s hs).2 with ⟨hstree, httree⟩ | ⟨-, after, hstree, httree⟩
    · rw [hstree, httree, if_pos rfl]
    · rw [hstree, httree, FileTree.write_of_follow hholds.leads,
        FileTree.write_of_follow (hs.holds hholds).leads, FileTree.entry?_set, FileTree.entry?_set]
      by_cases hx : x = place
      · subst hx
        rw [if_pos rfl, if_pos rfl]
        split
        next heq => rw [hs.file x hholds.leads, heq]
        next => rfl
      · rw [if_neg hx, if_neg hx, if_pos rfl]
  · intro p hp s hs d
    obtain ⟨place, bytes, hholds⟩ := hps.holds p hp
    show (target.formatFile (worldOf s) writeBack s p).2.1.isDirectory d = s.isDirectory d
    rcases formatFile_cases (hs.holds hholds) with htree | ⟨-, after, htree⟩
    · rw [htree]
    · rw [htree]
      exact ((hs.holds hholds).sameShape_set after).directories d
  · intro p hp q hq hne s hap haq
    obtain ⟨place, bytes, hholds⟩ := hps.holds p hp
    obtain ⟨place', bytes', hholds'⟩ := hps.holds q hq
    show AgreesAt (target.formatFile (worldOf s) writeBack s p).2.1 t q
    rcases formatFile_cases (hap.holds hholds) with htree | ⟨-, after, htree⟩
    · rw [htree]
      exact haq
    · rw [htree]
      refine AgreesAt.set (hap.holds hholds) hholds' ?_ haq
      rintro rfl
      exact hne (hps.apart p hp q hq _ hholds.leads hholds'.leads)
  · intro p hp q hq x hxp hxq
    -- a task changes the place of its file only
    have hplace : ∀ r ∈ ps, FileTree.Changes (target.formatTask worldOf writeBack) t r x →
        t.follow r = .ok x := by
      intro r hr hchanges
      obtain ⟨place, bytes, hholds⟩ := hps.holds r hr
      rcases formatFile_cases hholds with htree | ⟨-, after, htree⟩
      · exact absurd (congrArg (FileTree.entry? · x) htree) hchanges
      · by_cases hx : x = place
        · rw [hx]
          exact hholds.leads
        · refine absurd ?_ hchanges
          show FileTree.entry? (target.formatFile (worldOf t) writeBack t r).2.1 x = t.entry? x
          rw [htree, FileTree.entry?_set, if_neg hx]
    exact hps.apart p hp q hq x (hplace p hp hxp) (hplace q hq hxq)

end CheckTarget

end HouseStyle
