import HouseStyle.Proofs.Conversion
import HouseStyle.Proofs.RenamedText
import HouseStyle.Rule.Naming

/-!
# What the naming rule proposes

The check of one entity taken apart: whether its name is in its style (`isCased`), the name that is
proposed instead (`suggestion?`), and what makes the rename one that needs no asking.

- `checkEntity_eq_some`: everything a reported violation says.
- `suggestion_facts`: the proposed name is an identifier, and so is the one it replaces.
- `isSafe_fresh`: the proposed name of a safe rename is not in use, and no directive has either name.
-/

namespace HouseStyle.NamingRule

/-- Whether the name of an entity is written in its style. -/
def isCased (m : Model) (e : Entity) : Bool :=
  if m.isDataMember e || e.kind == .macro_ then e.kind.style.acceptsTrailing e.name
  else e.kind.style.accepts e.name

/-- The name that is proposed for an entity. -/
def suggestion? (m : Model) (e : Entity) : Option Text :=
  if m.isDataMember e then e.kind.style.convertTrailing? e.name else e.kind.style.convert? e.name

theorem isSpecial_of_not_exempt {config : NamingConfig} {e : Entity} (h : isExempt config e = false) :
    e.isSpecial = false := by
  simp only [isExempt, Bool.or_eq_false_iff] at h
  exact h.1.1.1.2

/-- The edits of a violation, and whether they may be applied without asking. -/
def fix (f : SourceFile) (uses : Uses) (e : Entity) : List Edit × Bool :=
  match suggestion? f.model e with
  | none => ([], false)
  | some newName => (rename f.code e.name newName, isSafe f uses e newName)

/-- The check of one entity. -/
theorem checkEntity_eq (f : SourceFile) (uses : Uses) (e : Entity) :
    ∃ message suggestion, checkEntity f uses e =
      if isExempt f.config.naming e || isCased f.model e then none
      else some (info.violation message (f.tokenLocation e.token) suggestion (fix f uses e).1
        (fix f uses e).2 []) := by
  have heq : checkEntity f uses e =
      if isExempt f.config.naming e || isCased f.model e then none
      else
        let heading := if f.model.isDataMember e then "Data member" else e.kind.heading
        let problem : List Text := [heading, " `", e.name, "` should be ", e.kind.style.label]
        some <|
          match suggestion? f.model e with
          | none =>
            info.violation (problem ++ [Text.ofString "."]) (f.tokenLocation e.token) none [] false []
          | some newName =>
            info.violation (problem ++ [Text.ofString " (`", newName, Text.ofString "`)."])
              (f.tokenLocation e.token) (some ["rename to `", newName, "`"])
              (rename f.code e.name newName) (isSafe f uses e newName) [] := rfl
  rw [heq]
  unfold fix
  cases suggestion? f.model e with
  | none => exact ⟨_, _, rfl⟩
  | some newName => exact ⟨_, _, rfl⟩

/-- What is reported of an entity. -/
theorem checkEntity_eq_some {f : SourceFile} {uses : Uses} {e : Entity} {v : Violation}
    (h : checkEntity f uses e = some v) :
    isExempt f.config.naming e = false ∧ isCased f.model e = false ∧
      ∃ message suggestion, v = info.violation message (f.tokenLocation e.token) suggestion
        (fix f uses e).1 (fix f uses e).2 [] := by
  obtain ⟨message, suggestion, heq⟩ := checkEntity_eq f uses e
  rw [heq] at h
  split at h
  next => exact absurd h (by simp)
  next hno =>
    rw [Bool.or_eq_true, not_or, Bool.not_eq_true, Bool.not_eq_true] at hno
    exact ⟨hno.1, hno.2, message, suggestion, (Option.some.inj h).symm⟩

/-- A violation with a fix that needs no asking proposes a name, and the rename to it is safe. -/
theorem exists_safe_of_autofix {f : SourceFile} {uses : Uses} {e : Entity} {v : Violation}
    (h : checkEntity f uses e = some v) (hfix : v.autofix = true) :
    ∃ new, suggestion? f.model e = some new ∧ isSafe f uses e new = true ∧
      v.edits = rename f.code e.name new ∧ v.edits ≠ [] := by
  obtain ⟨-, -, message, suggestion, rfl⟩ := checkEntity_eq_some h
  simp only [RuleInfo.violation, Bool.and_eq_true, Bool.not_eq_true', List.isEmpty_eq_false_iff] at hfix ⊢
  obtain ⟨hsafe, hedits⟩ := hfix
  unfold fix at hsafe hedits ⊢
  cases hs : suggestion? f.model e with
  | none =>
    rw [hs] at hsafe
    exact absurd hsafe (by simp)
  | some new =>
    rw [hs] at hsafe hedits
    exact ⟨new, rfl, hsafe, rfl, hedits⟩

/-- The edits of a rename are those of the identifiers of that name. -/
theorem mem_rename_iff {code : List Token} {name new : Text} {e : Edit} :
    e ∈ rename code name new ↔
      ∃ t ∈ code, t.kind = .identifier ∧ t.text = name ∧ e = t.renameTo new := by
  simp only [rename, List.mem_map, List.mem_filter, Token.isIdentifier, Bool.and_eq_true, beq_iff_eq]
  constructor
  · rintro ⟨t, ⟨ht, hkind, hname⟩, rfl⟩
    exact ⟨t, ht, hkind, hname, rfl⟩
  · rintro ⟨t, ht, hkind, hname, rfl⟩
    exact ⟨t, ⟨ht, hkind, hname⟩, rfl⟩

/-- A name is proposed for an identifier only if that starts with a letter or an underscore, and the
proposed one is an identifier of this sort too. -/
theorem suggestion_facts {m : Model} {e : Entity} {new : Text} (h : suggestion? m e = some new)
    (hname : Lexeme.IsName e.name) :
    Lexeme.StartsWord e.name ∧ Lexeme.StartsWord new ∧ Lexeme.IsName new := by
  have hclean := hname.lineFeed_not_mem
  unfold suggestion? at h
  split at h
  · obtain ⟨candidate, hc, -⟩ := Option.map_eq_some_iff.mp h
    obtain ⟨hnew, hstart⟩ := Style.isName_of_convertTrailing h hclean
    exact ⟨Style.startsWord_of_convert hc hname, hstart, hnew⟩
  · obtain ⟨hnew, hstart⟩ := Style.isName_of_convert h hclean
    exact ⟨Style.startsWord_of_convert h hname, hstart, hnew⟩

/-- What makes a rename safe. -/
theorem isSafe_iff {f : SourceFile} {uses : Uses} {e : Entity} {new : Text} :
    isSafe f uses e new = true ↔
      (∀ a ∈ f.model.entitiesIn e.scope, a.name ≠ new) ∧ new ∉ uses.identifiers ∧
        new ∉ uses.directiveWords ∧ e.name ∉ uses.directiveWords ∧
        hasOneKind f.model e.name = true ∧ (f.isOneOfMany = true → f.model.isLocal e = true) ∧
        usesMayMean e.name (e.kind == .method || f.model.isDataMember e) uses.scopeNames [] f.code = true := by
  unfold isSafe
  simp only [Bool.and_eq_true, Bool.not_eq_true', Bool.or_eq_true, List.any_eq_false, beq_iff_eq,
    List.contains_eq_mem, decide_eq_false_iff_not]
  constructor
  · rintro ⟨⟨⟨⟨⟨⟨h₁, h₂⟩, h₃⟩, h₄⟩, h₅⟩, h₆⟩, h₇⟩
    refine ⟨h₁, h₂, h₃, h₄, h₅, fun hmany => ?_, h₇⟩
    rw [hmany] at h₆
    exact h₆.resolve_left (by decide)
  · rintro ⟨h₁, h₂, h₃, h₄, h₅, h₆, h₇⟩
    refine ⟨⟨⟨⟨⟨⟨h₁, h₂⟩, h₃⟩, h₄⟩, h₅⟩, ?_⟩, h₇⟩
    cases hmany : f.isOneOfMany with
    | false => exact Or.inl rfl
    | true => exact Or.inr (h₆ hmany)

/-- A safe rename is to a name that no identifier of the code has. -/
theorem isSafe_fresh {f : SourceFile} {e : Entity} {new : Text}
    (h : isSafe f (Uses.ofFile f) e new = true) {t : Token} (ht : t ∈ f.code)
    (hkind : t.kind = .identifier) : t.text ≠ new := by
  rintro rfl
  refine (isSafe_iff.mp h).2.1 (List.mem_map.mpr ⟨t, List.mem_filter.mpr ⟨ht, ?_⟩, rfl⟩)
  rw [Token.isIdentifier, hkind]
  rfl

end HouseStyle.NamingRule
