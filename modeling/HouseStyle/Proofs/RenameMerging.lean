import HouseStyle.Proofs.InOrder
import HouseStyle.Proofs.Reporting
import HouseStyle.Proofs.SameUpToNames

/-!
# Whether renaming merges names

Every rename is judged on its own, against the identifiers of the file as it is, but the renames of
a file are applied together. What comes of this is settled here: the batch of the naming rule renames
(`renameAll_of_applyFixes`), so the fixed code is the same up to names exactly when no two names have
been given the same new one and none has run into the quote of a literal
(`sameUpToNames_of_fix_iff`). Neither is checked, and both happen.
-/

namespace HouseStyle.NamingRule

/-- What the naming rule has to say about a file. -/
def violations (f : SourceFile) : List Violation :=
  (detectEnabled f).filter (·.ruleId == info.id)

/-- A fixable violation of the naming rule is the report of an entity. -/
theorem exists_entity {config : Config} {isOneOfMany : Bool} {path : SourcePath} {text : Text}
    {v : Violation} (hv : v ∈ fixableViolations (violations (.ofText config isOneOfMany path text))) :
    ∃ e ∈ (extract (tokens text)).entities, ∃ w,
      checkEntity (.ofText config isOneOfMany path text)
        (Uses.ofFile (.ofText config isOneOfMany path text)) e = some w ∧
      w.autofix = true ∧ w.edits = v.edits := by
  obtain ⟨hv, hfixable⟩ := List.mem_filter.mp hv
  obtain ⟨hv, hid⟩ := List.mem_filter.mp hv
  obtain ⟨r, hbuiltin, -, w, hw, hfixable, -, heq⟩ :=
    mem_fixableViolations_iff.mp (List.mem_filter.mpr ⟨hv, hfixable⟩)
  have hrule : r.info.id = info.id := by
    rw [← (isOf_of_mem_reports hbuiltin hw).ruleId_eq, ← ruleId_withSeverity _ w, ← heq]
    simpa using hid
  rw [Rule.eq_of_id (s := .total info check) hbuiltin (by simp [Rule.builtin]) hrule, reports_total] at hw
  obtain ⟨e, he, hw⟩ := List.mem_filterMap.mp hw
  exact ⟨e, he, w, hw, (Violation.facts_of_isFixable hfixable).1, by rw [heq, edits_withSeverity]⟩

/-- The edits of the naming rule that are applied to a file rename it. -/
theorem renameAll_of_applyFixes {config : Config} {isOneOfMany : Bool} {path : SourcePath}
    {text : Text} {edits : List Edit} (hbefore : edits.Pairwise Edit.Before)
    (hmem : ∀ e, e ∈ edits ↔ ∃ v ∈ fixableViolations
      (violations (.ofText config isOneOfMany path text)), e ∈ v.edits) :
    Edit.RenameAll text edits ∧
      ∀ e ∈ edits, ∀ t ∈ tokens text, t.kind = .identifier → t.text ≠ e.replacement := by
  -- where an edit comes from
  have source : ∀ e ∈ edits, ∃ v ∈ fixableViolations (violations (.ofText config isOneOfMany path text)),
      ∃ a new, v.edits = rename (Token.code (tokens text)) a new ∧ e ∈ v.edits ∧
        Lexeme.StartsWord a ∧ Lexeme.StartsWord new ∧ Lexeme.IsName new ∧
        ∀ t ∈ Token.code (tokens text), t.kind = .identifier → t.text ≠ new := by
    intro e he
    obtain ⟨v, hv, hev⟩ := (hmem e).mp he
    obtain ⟨a, -, w, hw, hfix, hedits⟩ := exists_entity hv
    obtain ⟨new, hnew, hsafe, hrename, -⟩ := exists_safe_of_autofix hw hfix
    rw [← hedits, hrename] at hev
    obtain ⟨t, ht, hkind, hname, -⟩ := mem_rename_iff.mp hev
    -- the name of the entity is that of an identifier of the code
    have hisName : Lexeme.IsName a.name := hname ▸ isName_text (List.mem_filter.mp ht).1 hkind
    obtain ⟨hold, hstart, hnewName⟩ := suggestion_facts hnew hisName
    refine ⟨v, hv, a.name, new, ?_, ?_, hold, hstart, hnewName, ?_⟩
    · rw [← hedits, hrename]
      rfl
    · rwa [← hedits, hrename]
    · exact fun t ht hkind => isSafe_fresh hsafe ht hkind
  refine ⟨⟨?_, ?_, ?_, hbefore⟩, ?_⟩
  · intro e he
    obtain ⟨v, -, a, new, hv, hev, hold, -⟩ := source e he
    rw [hv] at hev
    obtain ⟨t, ht, hkind, rfl, rfl⟩ := mem_rename_iff.mp hev
    exact ⟨t, (List.mem_filter.mp ht).1, hkind, rfl, hold⟩
  · intro e he
    obtain ⟨v, -, a, new, hv, hev, -, hstart, hname, -⟩ := source e he
    rw [hv] at hev
    obtain ⟨t, -, -, -, rfl⟩ := mem_rename_iff.mp hev
    exact ⟨hstart, hname⟩
  · intro e he t ht hkind htext
    obtain ⟨v, hvfix, a, new, hv, hev, -⟩ := source e he
    refine (hmem _).mpr ⟨v, hvfix, ?_⟩
    rw [hv] at hev ⊢
    obtain ⟨s, hs, hskind, hsname, rfl⟩ := mem_rename_iff.mp hev
    rw [Edit.RenameAll.replaced_renameTo (List.mem_filter.mp hs).1] at htext
    exact mem_rename_iff.mpr
      ⟨t, Edit.RenameAll.mem_code_of_identifier ht hkind, hkind, htext.trans hsname, rfl⟩
  · intro e he t ht hkind
    obtain ⟨v, -, a, new, hv, hev, -, -, -, hfresh⟩ := source e he
    rw [hv] at hev
    obtain ⟨s, -, -, -, rfl⟩ := mem_rename_iff.mp hev
    exact hfresh t (Edit.RenameAll.mem_code_of_identifier ht hkind) hkind

/-- When the renames of a file are applied, its code stays the same up to names exactly when no two of
them give two names the same new one, and none puts a new name in front of a quote that it joins. -/
theorem sameUpToNames_of_fix_iff {config : Config} {isOneOfMany : Bool} {path : SourcePath}
    {text updated : Text}
    (h : applyFixes text (violations (.ofText config isOneOfMany path text)) = .ok updated) :
    let edits := (fixableViolations (violations (.ofText config isOneOfMany path text))).flatMap (·.edits)
    SameUpToNames (Token.code (tokens text)) (Token.code (tokens updated)) ↔
      (∀ a ∈ edits, ∀ b ∈ edits, a.replacement = b.replacement → a.replaced text = b.replaced text) ∧
      ∀ e ∈ edits, Lexeme.joinsQuote e.replacement (text.drop e.stop.toNat) = false := by
  intro edits
  obtain ⟨planned, hmem, -, hbefore, rfl, -⟩ := applyFixes_ok h
  have hsame : ∀ e, e ∈ planned ↔ e ∈ edits := fun e => by rw [hmem, List.mem_flatMap]
  obtain ⟨hall, hfresh⟩ := renameAll_of_applyFixes hbefore hmem
  rw [hall.sameUpToNames_splice_iff hfresh]
  simp only [hsame]

set_option maxRecDepth 10000 in
/-- A file with a single name to be renamed. -/
theorem sameUpToNames_of_fix_single :
    SameUpToNames (Token.code (tokens (Text.ofString "int fooBar = 1;\n")))
      (Token.code (tokens (Text.ofString "int foo_bar = 1;\n"))) := by
  obtain ⟨hfixed, hunmerged⟩ :=
    SourceFile.applyFixes_of_asRead violations {} false (.ofString "a.cpp")
      (Text.ofString "int fooBar = 1;\n") (Text.ofString "int foo_bar = 1;\n")
      (P := fun f =>
        (∀ a ∈ (fixableViolations (violations f)).flatMap (·.edits),
          ∀ b ∈ (fixableViolations (violations f)).flatMap (·.edits),
            a.replacement = b.replacement → a.replaced f.text = b.replaced f.text) ∧
        ∀ e ∈ (fixableViolations (violations f)).flatMap (·.edits),
          Lexeme.joinsQuote e.replacement (f.text.drop e.stop.toNat) = false)
      (by
        rw [Text.ofString_ofList, Text.ofString_ofList]
        decide +kernel)
  exact (sameUpToNames_of_fix_iff hfixed).mpr hunmerged

set_option maxRecDepth 10000 in
/-- Two variables that are different before they are renamed and one after it. -/
theorem exists_fix_merging_names :
    ∃ text updated : Text,
      applyFixes text (violations (.ofText {} false (.ofString "a.cpp") text)) = .ok updated ∧
        ¬SameUpToNames (Token.code (tokens text)) (Token.code (tokens updated)) := by
  refine ⟨Text.ofString "int fooBar = 1;\nint FooBar = 2;\n",
    Text.ofString "int foo_bar = 1;\nint foo_bar = 2;\n", ?_⟩
  obtain ⟨hfixed, hx, hy, hx', hy'⟩ :=
    SourceFile.applyFixes_of_asRead violations {} false (.ofString "a.cpp")
      (Text.ofString "int fooBar = 1;\nint FooBar = 2;\n") (Text.ofString "int foo_bar = 1;\nint foo_bar = 2;\n")
      (P := fun f =>
        (f.code.map Token.lexeme)[1]? = some (.identifier, Text.ofString "fooBar") ∧
        (f.code.map Token.lexeme)[6]? = some (.identifier, Text.ofString "FooBar") ∧
        ((Token.code (tokens (Text.ofString "int foo_bar = 1;\nint foo_bar = 2;\n"))).map Token.lexeme)[1]? =
          some (.identifier, Text.ofString "foo_bar") ∧
        ((Token.code (tokens (Text.ofString "int foo_bar = 1;\nint foo_bar = 2;\n"))).map Token.lexeme)[6]? =
          some (.identifier, Text.ofString "foo_bar"))
      (by
        rw [Text.ofString_ofList, Text.ofString_ofList]
        decide +kernel)
  exact ⟨hfixed, fun hsame => absurd ((hsame.lexeme_iff hx hy hx' hy').mp rfl) (by decide)⟩

end HouseStyle.NamingRule
