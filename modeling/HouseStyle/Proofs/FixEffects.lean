import HouseStyle.Proofs.FixConflicts

/-!
# What fixes achieve

A name that is proposed is in its style, so an entity that gets it is reported no more; an enumeration with
` class` behind its keyword is scoped. The fixes of a file are all applied together, and the entities of the
new file stand where those of the old one stood, each of the same sort (`IsFixBatch.exists_entity`). So every
fix does what it is meant to do (`fixes_take_effect`), if the fixes do no harm to what the file declares.
-/

namespace HouseStyle

open Extraction

/-! ## Proposed names -/

namespace NamingRule

/-- An entity with the name that is proposed for one of its sort is in its style. -/
theorem isCased_of_suggestion {m m' : Model} {e e' : Entity} {new : Text} (h : suggestion? m e = some new)
    (hkind : e'.kind = e.kind) (hmember : m'.isDataMember e' = m.isDataMember e) (hname : e'.name = new) :
    isCased m' e' = true := by
  unfold isCased
  unfold suggestion? at h
  rw [hmember, hkind, hname]
  split at h
  next hm =>
    rw [hm, Bool.true_or, if_pos rfl]
    have hvariable : e.kind = .variable_ := by
      unfold Model.isDataMember at hm
      rw [Bool.and_eq_true, beq_iff_eq] at hm
      exact hm.1
    rw [hvariable] at h ⊢
    obtain ⟨candidate, hc, heq⟩ := Option.map_eq_some_iff.mp h
    obtain ⟨hplain, htrailing⟩ := Style.acceptsTrailing_of_accepts (Style.convert_eq_some hc).2.2.2
    split at heq
    · exact heq ▸ htrailing
    · exact heq ▸ hplain
  next hm =>
    have haccepts := (Style.convert_eq_some h).2.2.2
    split
    next hmacro =>
      have hkind : e.kind = .macro_ := by simpa [hm] using hmacro
      rw [hkind] at haccepts ⊢
      exact (Style.acceptsTrailing_of_accepts haccepts).1
    next => exact haccepts

end NamingRule

/-! ## The entities of the new file -/

section

variable {config : Config} {isOneOfMany : Bool} {path : SourcePath} {text : Text} {edits : List Edit}

/-- A violation of a rule is fixed in a run. -/
def IsApplied (f : SourceFile) (r : RuleInfo) (w : Violation) : Prop :=
  withSeverity (f.config.ruleSettings r.id).severity w ∈ fixableViolations (detectEnabled f)

instance (f : SourceFile) (r : RuleInfo) (w : Violation) : Decidable (IsApplied f r w) :=
  inferInstanceAs (Decidable (_ ∈ _))

/-- An entity stands in the new file for one of the old file that is no macro: it is of the same sort and has
the new name, and it is a scoped enumeration where ` class` is put in. -/
structure StandsFor (text updated : Text) (edits : List Edit) (e e' : Entity) : Prop where
  isDataMember_eq : (extract (tokens updated)).isDataMember e' = (extract (tokens text)).isDataMember e
  name_eq : e.isSpecial = false → e'.name = IsFixBatch.respelled text edits e.name
  isScopedEnum : ∀ keyword, e.keyword = some keyword → keyword.scopeEdit ∈ edits → e'.isScopedEnum = true

namespace Rewrites

variable {updated : Text} {rs : List RewrittenToken} {name : Text → Text}

theorem isDataMember_eq (h : Rewrites text updated rs) {hname : IsRespelling name}
    {hrs : ∀ r ∈ rs, r.Respects name} (hfits : (Rewriting.ofList hname hrs).Fits (Token.code (tokens text)))
    {code : List Token} {e e' : Entity} (he : (Rewriting.ofList hname hrs).EntityFollows code e e') :
    (extract (tokens updated)).isDataMember e' = (extract (tokens text)).isDataMember e := by
  have hkind : e'.kind = e.kind := by rw [he.eq]
  have hscope : e'.scope = e.scope := by rw [he.eq]
  have hqualifier : e'.qualifier = e.qualifier.map name := by
    rw [he.eq]
    rfl
  have hat := congrArg (fun scopes => scopes[e.scope]?.map Scope.kind) (h.scopes_eq hfits)
  simp only [Array.getElem?_map, Option.map_map] at hat
  have hscopes : ((extract (tokens updated)).scopes[e.scope]?).map Scope.kind =
      ((extract (tokens text)).scopes[e.scope]?).map Scope.kind := hat
  unfold Model.isDataMember Model.scope?
  rw [hkind, hscope, Entity.isSome_qualifierText, Entity.isSome_qualifierText, hqualifier, List.isEmpty_map]
  cases hold : (extract (tokens text)).scopes[e.scope]? with
  | none =>
    rw [hold, Option.map_none, Option.map_eq_none_iff] at hscopes
    rw [hscopes]
  | some s =>
    rw [hold, Option.map_some, Option.map_eq_some_iff] at hscopes
    obtain ⟨s', hs', hsame⟩ := hscopes
    rw [hs', Option.any_some, Option.any_some, hsame]

end Rewrites

namespace IsFixBatch

/-- What has become of the entities of a file after a batch that does no harm. -/
theorem exists_entity (h : IsFixBatch (.ofText config isOneOfMany path text) edits)
    (hharmless : Harmless text edits) {i : Nat} {e : Entity}
    (he : (extract (tokens text)).entities[i]? = some e) :
    ∃ e', (extract (tokens (splice 0 text edits))).entities[i]? = some e' ∧ e'.kind = e.kind ∧
      (StandsFor text (splice 0 text edits) edits e e' ∨
        ∃ directive ∈ tokens text, directive.isDirective = true ∧ IsMacroOf e directive) := by
  obtain ⟨rs, hrewrites, hrs, -⟩ := h.exists_rewrites hharmless
  have hname : IsRespelling (respelled text edits) :=
    h.exchangeable.isRespelling hharmless.words
  have hrespects : ∀ r ∈ rs, r.Respects (respelled text edits) := fun r hr => (hrs r hr).1
  have hfits : (Rewriting.ofList hname hrespects).Fits (Token.code (tokens text)) :=
    h.fits hharmless hname hrespects fun r hr hs => ((hrs r hr).2.mp hs).2
  obtain ⟨pairs, hold, hnew, hpairs⟩ := hrewrites.exists_pairs hfits
  have hmem := List.mem_of_getElem? he
  rw [← hold, List.getElem?_map, Option.map_eq_some_iff] at he
  obtain ⟨⟨a, e'⟩, hz, heq⟩ := he
  obtain rfl : a = e := heq
  have hcorresponds : Rewrites.Corresponds _ rs a e' := hpairs _ (List.mem_of_getElem? hz)
  refine ⟨e', by rw [← hnew, List.getElem?_map, hz]; rfl, hcorresponds.kind_eq, ?_⟩
  rcases hcorresponds.eq with hfollows | ⟨r, hr, hkind, hmacro, -⟩
  · refine Or.inl ⟨hrewrites.isDataMember_eq hfits hfollows, hfollows.name_eq, fun keyword hkeyword hedit => ?_⟩
    rw [hfollows.eq]
    dsimp only
    rw [hkeyword, Option.any_some]
    -- `class` is put in behind the keyword of the entity
    rcases entity_cases hmem with ⟨-, -, hheads⟩ | ⟨_, -, -, hdefines⟩
    · have hin := (List.mem_filter.mp (hheads keyword hkeyword).mem.1).1
      have hs : scopesAt edits keyword.stop = true := List.contains_iff_mem.mpr hedit
      obtain ⟨b, hb⟩ := h.exists_keyword hin hs
      obtain ⟨r, hr, rfl⟩ := hrewrites.exists_old hin
      rw [Rewriting.scopes_old hrewrites.nodup hr, (hrs r hr).2.mpr ⟨hb.hasHead.2.1, hs⟩, Bool.or_true]
    · rw [hdefines.keyword] at hkeyword
      exact absurd hkeyword (by simp)
  · exact Or.inr ⟨r.old, hrewrites.old_mem hr, by simp [Token.isDirective, hkind], hmacro⟩

end IsFixBatch

/-- What an applied violation says about the edits of the batch. -/
theorem IsFixBatch.of_isApplied (h : IsFixBatch (.ofText config isOneOfMany path text) edits) {r : RuleInfo}
    {w : Violation} (hw : IsApplied (.ofText config isOneOfMany path text) r w) :
    w.autofix = true ∧ ∀ e ∈ w.edits, e ∈ edits := by
  have hfixable := (List.mem_filter.mp hw).2
  rw [isFixable_withSeverity] at hfixable
  refine ⟨(Violation.facts_of_isFixable hfixable).1, fun e he => (h.mem_iff e).mpr ⟨_, hw, ?_⟩⟩
  rwa [edits_withSeverity]

/-- An entity whose name is fixed is not reported in the new file. -/
theorem NamingRule.checkEntity_standsFor (h : IsFixBatch (.ofText config isOneOfMany path text) edits)
    {updated : Text} {e e' : Entity} (he : e ∈ (extract (tokens text)).entities)
    (hkind : e'.kind = e.kind)
    (hstands : StandsFor text updated edits e e' ∨
      ∃ directive ∈ tokens text, directive.isDirective = true ∧ IsMacroOf e directive) {w : Violation}
    (hw : checkEntity (.ofText config isOneOfMany path text) (.ofFile (.ofText config isOneOfMany path text)) e =
      some w) (happlied : IsApplied (.ofText config isOneOfMany path text) info w) (uses : Uses) :
    checkEntity (.ofText config isOneOfMany path updated) uses e' = none := by
  obtain ⟨hfix, hedits⟩ := h.of_isApplied happlied
  obtain ⟨hexempt, -, -⟩ := checkEntity_eq_some hw
  obtain ⟨new, hnew, hsafe, hrename, -⟩ := exists_safe_of_autofix hw hfix
  have hspecial := isSpecial_of_not_exempt hexempt
  have hundefined : ∀ directive ∈ tokens text, directive.isDirective = true → ¬ IsMacroOf e directive :=
    fun directive hmem hdirective hdefines =>
      name_ne_of_isSafe (List.mem_filter.mpr ⟨hmem, hdirective⟩) hdefines hsafe rfl
  rcases entity_cases he with ⟨hcode, hnamed, -⟩ | ⟨directive, hmem, hdirective, hdefines⟩
  · rcases hstands with hstands | ⟨directive, hmem, hdirective, hdefines⟩
    · obtain ⟨hid, hname⟩ := hnamed.eq_text hspecial
      have htoken := (List.mem_filter.mp hcode).1
      -- the rename of its name is one of the batch
      have hmem : e.token.renameTo new ∈ Edit.renames edits := by
        refine Edit.mem_renames.mpr ⟨hedits _ ?_, Token.isInsertion_renameTo htoken new⟩
        rw [hrename]
        exact mem_rename_iff.mpr ⟨e.token, hcode, hid, hname.symm, rfl⟩
      have hrespelled : IsFixBatch.respelled text edits e.name = new := by
        have hreplaced := h.respelled_of_replaced hmem
        rwa [Edit.RenameAll.replaced_renameTo htoken, ← hname] at hreplaced
      have hcased := isCased_of_suggestion hnew hkind hstands.isDataMember_eq
        ((hstands.name_eq hspecial).trans hrespelled)
      obtain ⟨message, suggestion, heq⟩ := checkEntity_eq (.ofText config isOneOfMany path updated) uses e'
      rw [heq, if_pos (Bool.or_eq_true _ _ ▸ Or.inr hcased)]
    · exact absurd hdefines (hundefined directive hmem hdirective)
  · exact absurd hdefines (hundefined directive hmem hdirective)

/-- An enumeration that is fixed is scoped in the new file. -/
theorem UnscopedEnumRule.isScopedEnum_standsFor (h : IsFixBatch (.ofText config isOneOfMany path text) edits)
    {updated : Text} {e e' : Entity} (hkind : e'.kind = e.kind)
    (hstands : StandsFor text updated edits e e' ∨
      ∃ directive ∈ tokens text, directive.isDirective = true ∧ IsMacroOf e directive) {w : Violation}
    (hw : checkEntity (.ofText config isOneOfMany path text) e = some w)
    (happlied : IsApplied (.ofText config isOneOfMany path text) info w) :
    e'.kind = .enum ∧ e'.isScopedEnum = true := by
  obtain ⟨-, hedits⟩ := h.of_isApplied happlied
  obtain ⟨henum, -, _, keyword, -, hkeyword, _, _, rfl⟩ := checkEntity_eq_some hw
  refine ⟨hkind.trans henum, ?_⟩
  rcases hstands with hstands | ⟨directive, -, -, hdefines⟩
  · exact hstands.isScopedEnum keyword hkeyword (hedits _ (List.mem_singleton.mpr rfl))
  · exact absurd (hdefines.kind.symm.trans henum) (by decide)

/-- Fixes that are applied do what they are meant to do, if they do no harm: in its place in the new file, no
entity whose name is fixed is reported for its name, and an enumeration that is fixed is scoped. -/
theorem fixes_take_effect {updated : Text}
    (h : applyFixes text (detectEnabled (.ofText config isOneOfMany path text)) = .ok updated)
    (hharmless : Harmless text (fixEdits (.ofText config isOneOfMany path text))) {i : Nat} {e : Entity}
    (he : (extract (tokens text)).entities[i]? = some e) :
    let f := SourceFile.ofText config isOneOfMany path text
    let f' := SourceFile.ofText config isOneOfMany path updated
    ∃ e', (extract (tokens updated)).entities[i]? = some e' ∧ e'.kind = e.kind ∧
      (∀ w, NamingRule.checkEntity f (.ofFile f) e = some w → IsApplied f NamingRule.info w →
        NamingRule.checkEntity f' (.ofFile f') e' = none) ∧
      ∀ w, UnscopedEnumRule.checkEntity f e = some w → IsApplied f UnscopedEnumRule.info w →
        e'.kind = .enum ∧ e'.isScopedEnum = true := by
  intro f f'
  obtain ⟨planned, hplan, rfl, -⟩ := applyFixes_eq_ok_iff.mp h
  have hbatch : IsFixBatch f planned := isFixBatch_of_planEdits hplan
  have hharmless' : Harmless text planned :=
    hharmless.of_mem_iff fun e => (hbatch.mem_iff e).trans mem_fixEdits.symm
  have hsplice : applyEdits text planned = splice 0 text planned :=
    applyEdits_eq_splice hbatch.within hbatch.before
  obtain ⟨e', he', hkind, hstands⟩ := hbatch.exists_entity hharmless' he
  rw [← hsplice] at he' hstands
  refine ⟨e', he', hkind, fun w hw happlied => ?_, fun w hw happlied => ?_⟩
  · exact NamingRule.checkEntity_standsFor hbatch (List.mem_of_getElem? he) hkind hstands hw happlied _
  · exact UnscopedEnumRule.isScopedEnum_standsFor hbatch hkind hstands hw happlied

end

/-- The header of `mixedHeader` with its fixes. -/
def fixedHeader : Text := Text.ofString "#pragma once\nint foo_baz = 1;\nenum class Foo \x7b One \x7d;\n"

set_option maxRecDepth 10000 in
/-- Behind a guarding line, a variable gets its new name and an enumeration becomes scoped. -/
theorem fixes_take_effect_together :
    (∃ e', (extract (tokens fixedHeader)).entities[0]? = some e' ∧
        NamingRule.checkEntity (.ofText {} false (.ofString "a.h") fixedHeader)
          (.ofFile (.ofText {} false (.ofString "a.h") fixedHeader)) e' = none) ∧
      ∃ e', (extract (tokens fixedHeader)).entities[1]? = some e' ∧
        e'.kind = .enum ∧ e'.isScopedEnum = true := by
  obtain ⟨horder, hfixes, hharmless, hnaming, hscoping⟩ : InOrder mixedHeader ∧
      fixesTo (detectEnabled (.asRead {} false (.ofString "a.h") mixedHeader)) mixedHeader fixedHeader = true ∧
      Harmless mixedHeader (fixEdits (.asRead {} false (.ofString "a.h") mixedHeader)) ∧
      ((Extraction.ofTokens (tokens mixedHeader)).asRead.entities[0]?).any (fun e =>
        let f := SourceFile.asRead {} false (.ofString "a.h") mixedHeader
        (NamingRule.checkEntity f (.ofFile f) e).any fun w => IsApplied f NamingRule.info w) = true ∧
      ((Extraction.ofTokens (tokens mixedHeader)).asRead.entities[1]?).any (fun e =>
        let f := SourceFile.asRead {} false (.ofString "a.h") mixedHeader
        (UnscopedEnumRule.checkEntity f e).any fun w => IsApplied f UnscopedEnumRule.info w) = true := by
    rw [mixedHeader, fixedHeader, Text.ofString_ofList, Text.ofString_ofList]
    decide +kernel
  have happly : applyFixes mixedHeader (detectEnabled (.ofText {} false (.ofString "a.h") mixedHeader)) =
      .ok fixedHeader := applyFixes_of_fixesTo detectEnabled hfixes
  rw [← SourceFile.ofText_eq_asRead horder] at hharmless hnaming hscoping
  rw [← extract_eq_asRead horder.1] at hnaming hscoping
  obtain ⟨e, he, hviolation⟩ := (Option.any_eq_true _ _).mp hnaming
  obtain ⟨w, hw, happlied⟩ := (Option.any_eq_true _ _).mp hviolation
  obtain ⟨a, ha, hviolation'⟩ := (Option.any_eq_true _ _).mp hscoping
  obtain ⟨v, hv, happlied'⟩ := (Option.any_eq_true _ _).mp hviolation'
  obtain ⟨e', he', -, hcased, -⟩ := fixes_take_effect happly hharmless he
  obtain ⟨a', ha', -, -, hscoped⟩ := fixes_take_effect happly hharmless ha
  exact ⟨⟨e', he', hcased w hw (of_decide_eq_true happlied)⟩,
    ⟨a', ha', hscoped v hv (of_decide_eq_true happlied')⟩⟩

set_option maxRecDepth 10000 in
/-- Two variables that get one name are compared with nothing, and fixing them does no harm. -/
example :
    let f := SourceFile.asRead {} false (.ofString "a.cpp") (Text.ofString "int fooBar = 1;\nint FooBar = 2;\n")
    (fixEdits f).map (·.replacement) = [Text.ofString "foo_bar", Text.ofString "foo_bar"] ∧
      Harmless f.text (fixEdits f) := by
  rw [Text.ofString_ofList]
  decide +kernel

/-- A name with a quote behind it, in front of strings. -/
def quotedBehindName : Text :=
  Text.ofString "constexpr int r = 1;\nint a = r\"(\" ; int fooBar = (1)\" ; int fooBaz ; \" ;\n"

/-- The same behind a new name, which opens a raw string with the quote. -/
def quotedBehindFixedName : Text :=
  Text.ofString "constexpr int R = 1;\nint a = R\"(\" ; int foo_bar = (1)\" ; int fooBaz ; \" ;\n"

set_option maxRecDepth 10000 in
/-- A new name that opens a raw string with the quote behind it: a name that stood in a string is declared in
the place of one that is fixed. -/
theorem exists_fix_without_effect :
    ∃ text updated, applyFixes text (detectEnabled (.ofText {} false (.ofString "a.cpp") text)) = .ok updated ∧
      ∃ e e' w, (extract (tokens text)).entities[2]? = some e ∧
        (extract (tokens updated)).entities[2]? = some e' ∧
        NamingRule.checkEntity (.ofText {} false (.ofString "a.cpp") text)
          (.ofFile (.ofText {} false (.ofString "a.cpp") text)) e = some w ∧
        IsApplied (.ofText {} false (.ofString "a.cpp") text) NamingRule.info w ∧
        NamingRule.checkEntity (.ofText {} false (.ofString "a.cpp") updated)
          (.ofFile (.ofText {} false (.ofString "a.cpp") updated)) e' ≠ none := by
  obtain ⟨hold, hnew, hfixes, hfixed, hreported⟩ : InOrder quotedBehindName ∧ InOrder quotedBehindFixedName ∧
      fixesTo (detectEnabled (.asRead {} false (.ofString "a.cpp") quotedBehindName)) quotedBehindName
        quotedBehindFixedName = true ∧
      ((Extraction.ofTokens (tokens quotedBehindName)).asRead.entities[2]?).any (fun e =>
        let f := SourceFile.asRead {} false (.ofString "a.cpp") quotedBehindName
        (NamingRule.checkEntity f (.ofFile f) e).any fun w => IsApplied f NamingRule.info w) = true ∧
      ((Extraction.ofTokens (tokens quotedBehindFixedName)).asRead.entities[2]?).any (fun e =>
        let f := SourceFile.asRead {} false (.ofString "a.cpp") quotedBehindFixedName
        (NamingRule.checkEntity f (.ofFile f) e).isSome) = true := by
    rw [quotedBehindName, quotedBehindFixedName, Text.ofString_ofList, Text.ofString_ofList]
    decide +kernel
  refine ⟨quotedBehindName, quotedBehindFixedName, applyFixes_of_fixesTo detectEnabled hfixes, ?_⟩
  rw [SourceFile.ofText_eq_asRead hold, SourceFile.ofText_eq_asRead hnew, extract_eq_asRead hold.1,
    extract_eq_asRead hnew.1]
  obtain ⟨e, he, hviolation⟩ := (Option.any_eq_true _ _).mp hfixed
  obtain ⟨w, hw, happlied⟩ := (Option.any_eq_true _ _).mp hviolation
  obtain ⟨e', he', hsome⟩ := (Option.any_eq_true _ _).mp hreported
  exact ⟨e, e', w, he, he', hw, of_decide_eq_true happlied, Option.isSome_iff_ne_none.mp hsome⟩

end HouseStyle
