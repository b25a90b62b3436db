import HouseStyle.Project.Tree

/-!
# Tasks that keep out of each other's way

The phases of a run have one task for each of some files, which reads and writes the file tree. Tasks are
apart (`TasksApart`) if each one gives what it gives by itself as long as the tree is as it was where the
task looks, and leaves alone where the others look. Such tasks may get their turns in any order: each one
gives what it gives by itself, and every place holds what one of them puts there, or what it held
(`TasksApart.doneApart`).
-/

namespace HouseStyle.FileTree

variable {β : Type} {task : FileTree → SourcePath → β × FileTree} {s t : FileTree} {ps qs : List SourcePath}

/-- Some tasks, each on the tree that the one before has left: what they give, and the tree at the end. -/
def inTurn (task : FileTree → SourcePath → β × FileTree) (t : FileTree) :
    List SourcePath → List β × FileTree
  | [] => ([], t)
  | p :: ps =>
    let (result, t) := task t p
    let (results, t) := inTurn task t ps
    (result :: results, t)

/-- A task changes what stands at a place. -/
def Changes (task : FileTree → SourcePath → β × FileTree) (t : FileTree) (p x : SourcePath) : Prop :=
  FileTree.entry? (task t p).2 x ≠ t.entry? x

/-- Tasks that keep out of each other's way, where `agrees` says of a tree that it is like the tree `t`
where the task of a file looks. -/
structure TasksApart (task : FileTree → SourcePath → β × FileTree) (t : FileTree)
    (agrees : FileTree → SourcePath → Prop) (ps : List SourcePath) : Prop where
  result : ∀ p ∈ ps, ∀ s, agrees s p → (task s p).1 = (task t p).1
  entry : ∀ p ∈ ps, ∀ s, agrees s p → ∀ x, FileTree.entry? (task s p).2 x =
    if FileTree.entry? (task t p).2 x = t.entry? x then s.entry? x else FileTree.entry? (task t p).2 x
  directories : ∀ p ∈ ps, ∀ s, agrees s p → ∀ d, (task s p).2.isDirectory d = s.isDirectory d
  others : ∀ p ∈ ps, ∀ q ∈ ps, p ≠ q → ∀ s, agrees s p → agrees s q → agrees (task s p).2 q
  places : ∀ p ∈ ps, ∀ q ∈ ps, ∀ x, Changes task t p x → Changes task t q x → p = q

/-- What the tasks of the files `ps` do in the tree `s`, told by what each of them does by itself in the
tree `t`. -/
structure DoneApart (task : FileTree → SourcePath → β × FileTree) (s t : FileTree) (ps : List SourcePath) :
    Prop where
  results : (inTurn task s ps).1 = ps.map fun p => (task t p).1
  directories : ∀ d, (inTurn task s ps).2.isDirectory d = s.isDirectory d
  untouched : ∀ x, (∀ p ∈ ps, ¬ Changes task t p x) → FileTree.entry? (inTurn task s ps).2 x = s.entry? x
  changed : ∀ p ∈ ps, ∀ x, Changes task t p x →
    FileTree.entry? (inTurn task s ps).2 x = FileTree.entry? (task t p).2 x

namespace TasksApart

variable {agrees : FileTree → SourcePath → Prop}

theorem mono (h : TasksApart task t agrees ps) (hsub : ∀ p ∈ qs, p ∈ ps) : TasksApart task t agrees qs :=
  ⟨fun p hp => h.result p (hsub p hp), fun p hp => h.entry p (hsub p hp),
    fun p hp => h.directories p (hsub p hp), fun p hp q hq => h.others p (hsub p hp) q (hsub q hq),
    fun p hp q hq => h.places p (hsub p hp) q (hsub q hq)⟩

/-- Tasks that are apart give what they give by themselves, and change what they change by themselves. -/
theorem doneApart (h : TasksApart task t agrees ps) (hnodup : ps.Nodup) (hs : ∀ p ∈ ps, agrees s p) :
    DoneApart task s t ps := by
  induction ps generalizing s with
  | nil => exact ⟨rfl, fun _ => rfl, fun _ _ => rfl, by simp⟩
  | cons p ps ih =>
    obtain ⟨hnew, hnodup⟩ := List.nodup_cons.mp hnodup
    have hfirst : p ∈ p :: ps := List.mem_cons_self
    have hsub : ∀ q ∈ ps, q ∈ p :: ps := fun q hq => List.mem_cons_of_mem p hq
    have hap := hs p hfirst
    have hentry := h.entry p hfirst s hap
    have hrest : ∀ q ∈ ps, agrees (task s p).2 q := fun q hq =>
      h.others p hfirst q (hsub q hq) (fun heq => hnew (heq ▸ hq)) s hap (hs q (hsub q hq))
    have hlater := ih (h.mono hsub) hnodup hrest
    refine ⟨?_, fun d => ?_, fun x hall => ?_, fun q hq x hchanges => ?_⟩
    · show (task s p).1 :: _ = _
      rw [List.map_cons, h.result p hfirst s hap]
      exact congrArg _ hlater.results
    · exact (hlater.directories d).trans (h.directories p hfirst s hap d)
    · refine (hlater.untouched x fun q hq => hall q (hsub q hq)).trans ?_
      exact (hentry x).trans (if_pos (Decidable.not_not.mp (hall p hfirst)))
    · rcases List.mem_cons.mp hq with rfl | hq
      · -- the tasks after this one do not touch what it has changed
        refine (hlater.untouched x fun r hr hr' => hnew ?_).trans ((hentry x).trans (if_neg hchanges))
        exact h.places q hfirst r (hsub r hr) x hchanges hr' ▸ hr
      · exact hlater.changed q hq x hchanges

end TasksApart

/-- The order of the turns makes no difference to what a place holds. -/
theorem DoneApart.entry?_eq (hps : DoneApart task s t ps) (hqs : DoneApart task s t qs)
    (hmem : ∀ p, p ∈ qs ↔ p ∈ ps) (x : SourcePath) :
    FileTree.entry? (inTurn task s qs).2 x = FileTree.entry? (inTurn task s ps).2 x := by
  by_cases hsome : ∃ p ∈ ps, Changes task t p x
  · obtain ⟨p, hp, hchanges⟩ := hsome
    rw [hps.changed p hp x hchanges, hqs.changed p ((hmem p).mpr hp) x hchanges]
  · have hnone : ∀ p ∈ ps, ¬ Changes task t p x := fun p hp h => hsome ⟨p, hp, h⟩
    rw [hps.untouched x hnone, hqs.untouched x fun p hp => hnone p ((hmem p).mp hp)]

end HouseStyle.FileTree
