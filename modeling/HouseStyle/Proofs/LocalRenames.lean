import HouseStyle.Proofs.Scopes
import HouseStyle.Proofs.Suppressed

/-!
# Whether the rename of a local name stays inside its scopes

A local name means something only inside the scopes that declare it, but its rename gives every token
of that name another one, wherever it stands. Where the name is declared it stands in its scope
(`token_within_scope`). So the rename keeps to the scopes of the name exactly when all uses of the name
do (`within_scopes_iff_uses`). Nothing checks that: a use can mean a name of another file.
-/

namespace HouseStyle

namespace Model

/-- Whether a stretch lies in the scope of an entity of some name. -/
def Covers (m : Model) (name : Text) (start stop : Int) : Prop :=
  ∃ a ∈ m.entitiesNamed name,
    (m.scope? a.scope).any (fun s => decide ((s.start : Int) ≤ start) && decide (stop ≤ s.stop)) = true

/-- A token that uses a name and does not declare it. The name of a namespace counts as a use, since it
stands in front of what it opens. -/
def IsUse (m : Model) (name : Text) (t : Token) : Prop :=
  t.kind = .identifier ∧ t.text = name ∧
    ∀ a ∈ m.entitiesNamed name, a.token = t → a.kind = .namespace_

instance (m : Model) (name : Text) (start stop : Int) : Decidable (m.Covers name start stop) :=
  inferInstanceAs (Decidable (∃ a ∈ m.entitiesNamed name, _))

instance (m : Model) (name : Text) (t : Token) : Decidable (m.IsUse name t) :=
  inferInstanceAs (Decidable (_ ∧ _ ∧ ∀ a ∈ m.entitiesNamed name, _))

end Model

namespace NamingRule

/-- A rename keeps to the scopes that declare the name exactly when all uses of the name stand in
them. -/
theorem within_scopes_iff_uses {config : Config} {isOneOfMany : Bool} {path : SourcePath} {text : Text}
    {e : Entity} {v : Violation}
    (hv : checkEntity (.ofText config isOneOfMany path text)
      (Uses.ofFile (.ofText config isOneOfMany path text)) e = some v)
    (hfix : v.autofix = true) :
    (∀ edit ∈ v.edits, (extract (tokens text)).Covers e.name edit.start edit.stop) ↔
      ∀ t ∈ Token.code (tokens text), (extract (tokens text)).IsUse e.name t →
        (extract (tokens text)).Covers e.name t.start t.stop := by
  obtain ⟨new, -, hsafe, hedits, -⟩ := exists_safe_of_autofix hv hfix
  rw [hedits]
  constructor
  · intro h t ht huse
    exact h _ (mem_rename_iff.mpr ⟨t, ht, huse.1, huse.2.1, rfl⟩)
  · intro h edit hedit
    obtain ⟨t, ht, hkind, hname, rfl⟩ := mem_rename_iff.mp hedit
    by_cases huse : (extract (tokens text)).IsUse e.name t
    · exact h t ht huse
    · -- the token declares an entity, and stands in the scope of it
      obtain ⟨a, ha, htoken, hnamespace⟩ : ∃ a ∈ (extract (tokens text)).entitiesNamed e.name,
          a.token = t ∧ a.kind ≠ .namespace_ := by
        refine Decidable.byContradiction fun hnone => huse ⟨hkind, hname, fun a ha htoken => ?_⟩
        refine Decidable.byContradiction fun hne => hnone ⟨a, ha, htoken, hne⟩
      obtain ⟨hmem, hsame⟩ := List.mem_filter.mp ha
      rcases token_within_scope hmem with ⟨s, hscope, hstop, hstart⟩ | ⟨directive, hd, hisd, hdefines⟩
      · refine ⟨a, ha, ?_⟩
        rw [Model.scope?, hscope, Option.any_some, Bool.and_eq_true, decide_eq_true_eq,
          decide_eq_true_eq]
        have := hstart hnamespace
        rw [htoken] at this hstop
        show (s.start : Int) ≤ t.start ∧ (t.stop : Int) ≤ s.stop
        omega
      · exact absurd (by simpa using hsame)
          (name_ne_of_isSafe (List.mem_filter.mpr ⟨hd, hisd⟩) hdefines hsafe)

/-- The local names of a file that are renamed without asking, each with the violation that does so. -/
def localFixes (f : SourceFile) : List (Entity × Violation) :=
  (f.model.entities.filter f.model.isLocal).filterMap fun e =>
    ((checkEntity f (Uses.ofFile f) e).filter (·.autofix)).map fun v => (e, v)

theorem mem_localFixes {f : SourceFile} {e : Entity} {v : Violation} (h : (e, v) ∈ localFixes f) :
    e ∈ f.model.entities ∧ f.model.isLocal e = true ∧ checkEntity f (Uses.ofFile f) e = some v ∧
      v.autofix = true := by
  obtain ⟨a, ha, h⟩ := List.mem_filterMap.mp h
  obtain ⟨w, hw, heq⟩ := Option.map_eq_some_iff.mp h
  obtain ⟨rfl, rfl⟩ := Prod.mk.inj heq
  obtain ⟨hcheck, hfix⟩ := Option.filter_eq_some_iff.mp hw
  obtain ⟨hmem, hlocal⟩ := List.mem_filter.mp ha
  exact ⟨hmem, hlocal, hcheck, hfix⟩

set_option maxRecDepth 10000 in
/-- A local name whose uses all stand in the function that declares it. -/
theorem within_scopes_single :
    ∃ text e v, (e, v) ∈ localFixes (.ofText {} true (.ofString "a.cpp") text) ∧
      ∀ edit ∈ v.edits, (extract (tokens text)).Covers e.name edit.start edit.stop := by
  obtain ⟨⟨e, v⟩, h, huses⟩ :=
    SourceFile.of_asRead {} true (.ofString "a.cpp")
      (Text.ofString "void f() \x7b int Foo = 1; Foo = 2; \x7d\n")
      (P := fun f => ∃ r ∈ localFixes f, ∀ t ∈ f.code, f.model.IsUse r.1.name t →
        f.model.Covers r.1.name t.start t.stop)
      (by
        rw [Text.ofString_ofList]
        decide +kernel)
  obtain ⟨-, -, hv, hfix⟩ := mem_localFixes h
  exact ⟨_, e, v, h, (within_scopes_iff_uses hv hfix).mpr huses⟩

set_option maxRecDepth 10000 in
/-- A name of one function and, in another function, a use that means something else. -/
theorem exists_rename_leaving_scopes :
    ∃ text e v, (e, v) ∈ localFixes (.ofText {} true (.ofString "a.cpp") text) ∧
      ¬∀ edit ∈ v.edits, (extract (tokens text)).Covers e.name edit.start edit.stop := by
  obtain ⟨⟨e, v⟩, h, hoff⟩ :=
    SourceFile.of_asRead {} true (.ofString "a.cpp")
      (Text.ofString "void f() \x7b int Foo = 1; \x7d\nvoid g() \x7b Foo = 2; \x7d\n")
      (P := fun f => ∃ r ∈ localFixes f,
        ¬∀ edit ∈ r.2.edits, f.model.Covers r.1.name edit.start edit.stop)
      (by
        rw [Text.ofString_ofList]
        decide +kernel)
  exact ⟨_, e, v, h, hoff⟩

end NamingRule

end HouseStyle
