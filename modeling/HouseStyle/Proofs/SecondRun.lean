import HouseStyle.Proofs.LinePositions
import HouseStyle.Proofs.MovedMarkers
import HouseStyle.Proofs.RewrittenUses

/-!
# What a first run leaves to a second one

A run of the fixer can leave something open. A rename that was unsafe because its new name was in use becomes safe
when that name is replaced itself (`Waits`). Other than that, what is open after a run was open before it: new names
are in their style, an enumeration that could not be scoped still cannot, and a guarding line is put in or missing as
before (`IsFixBatch.settled_iff`). This presumes that the names and the markers of the file stay out of each other's
way (`Lasting`): for one, no marker is left behind when a guarding line moves down the code that it is about.

So the result of a run is given back by a second one exactly when every entity that waits is turned off
(`second_fix_iff_settled`).
-/

namespace HouseStyle

open Extraction

/-! ## Conditions on a batch -/

/-- An entity waits for its name: the name is proposed for it but in use, and replaced itself in the batch. -/
structure Waits (f : SourceFile) (edits : List Edit) (e : Entity) : Prop where
  mem : e ∈ f.model.entities
  exempt : NamingRule.isExempt f.config.naming e = false
  cased : NamingRule.isCased f.model e = false
  kept : ∀ a ∈ Edit.renames edits, a.replaced f.text ≠ e.name
  freed : ∃ a ∈ Edit.renames edits, NamingRule.suggestion? f.model e = some (a.replaced f.text)
  unwritten : ∀ n ∈ (NamingRule.Uses.ofFile f).directiveWords, n ≠ e.name
  renameable : NamingRule.IsRenameable f e

/-- What has to hold of a batch so that nothing but what waits comes up behind it: no entity is out of its style under
a name that another one has brought it, no name is spelled as that of an operator, and a guarding line neither leaves
markers behind nor has words that are names. -/
structure Lasting (f : SourceFile) (edits : List Edit) : Prop where
  cased : ∀ e ∈ f.model.entities, ∀ a ∈ Edit.renames edits, a.replaced f.text = e.name →
    NamingRule.isExempt f.config.naming { e with name := a.replacement } = true ∨
      NamingRule.isCased f.model { e with name := a.replacement } = true
  names : ∀ t ∈ f.code, t.isIdentifier = true → ¬Rewriting.LooksLikeOperator t.text
  proposals : ∀ e ∈ f.model.entities, ∀ new ∈ NamingRule.suggestion? f.model e, ¬Rewriting.LooksLikeOperator new
  markers : ∀ g ∈ edits, IncludeGuardRule.guardEdit? f = some g → ∀ t ∈ f.tokens, t.isComment = true →
    (t.start : Int) < g.start → Marker.inText t.text = []
  words : ∀ g ∈ edits, IncludeGuardRule.guardEdit? f = some g → ∀ t ∈ f.code, t.isIdentifier = true →
    t.text ≠ Text.ofString "pragma" ∧ t.text ≠ Text.ofString "once"

namespace NamingRule

theorem isRenameable_iff {f : SourceFile} {e : Entity} :
    IsRenameable f e ↔ hasOneKind f.model e.name = true ∧ (f.isOneOfMany = true → f.model.isLocal e = true) ∧
      usesMayMean e.name (e.kind == .method || f.model.isDataMember e) (Uses.ofFile f).scopeNames [] f.code = true :=
  ⟨fun h => ⟨h.oneKind, h.isLocal, h.uses⟩, fun h => ⟨h.1, h.2.1, h.2.2⟩⟩

instance (f : SourceFile) (e : Entity) : Decidable (IsRenameable f e) := decidable_of_iff' _ isRenameable_iff

end NamingRule

theorem waits_iff {f : SourceFile} {edits : List Edit} {e : Entity} :
    Waits f edits e ↔ e ∈ f.model.entities ∧ NamingRule.isExempt f.config.naming e = false ∧
      NamingRule.isCased f.model e = false ∧ (∀ a ∈ Edit.renames edits, a.replaced f.text ≠ e.name) ∧
      (∃ a ∈ Edit.renames edits, NamingRule.suggestion? f.model e = some (a.replaced f.text)) ∧
      (∀ n ∈ (NamingRule.Uses.ofFile f).directiveWords, n ≠ e.name) ∧ NamingRule.IsRenameable f e :=
  ⟨fun h => ⟨h.mem, h.exempt, h.cased, h.kept, h.freed, h.unwritten, h.renameable⟩,
    fun ⟨hmem, hexempt, hcased, hkept, hfreed, hunwritten, hrenameable⟩ =>
      ⟨hmem, hexempt, hcased, hkept, hfreed, hunwritten, hrenameable⟩⟩

instance (f : SourceFile) (edits : List Edit) (e : Entity) : Decidable (Waits f edits e) :=
  decidable_of_iff' _ waits_iff

theorem lasting_iff {f : SourceFile} {edits : List Edit} :
    Lasting f edits ↔
      (∀ e ∈ f.model.entities, ∀ a ∈ Edit.renames edits, a.replaced f.text = e.name →
        NamingRule.isExempt f.config.naming { e with name := a.replacement } = true ∨
          NamingRule.isCased f.model { e with name := a.replacement } = true) ∧
      (∀ t ∈ f.code, t.isIdentifier = true → ¬Rewriting.LooksLikeOperator t.text) ∧
      (∀ e ∈ f.model.entities, ∀ new ∈ NamingRule.suggestion? f.model e, ¬Rewriting.LooksLikeOperator new) ∧
      (∀ g ∈ edits, IncludeGuardRule.guardEdit? f = some g → ∀ t ∈ f.tokens, t.isComment = true →
        (t.start : Int) < g.start → Marker.inText t.text = []) ∧
      ∀ g ∈ edits, IncludeGuardRule.guardEdit? f = some g → ∀ t ∈ f.code, t.isIdentifier = true →
        t.text ≠ Text.ofString "pragma" ∧ t.text ≠ Text.ofString "once" :=
  ⟨fun h => ⟨h.cased, h.names, h.proposals, h.markers, h.words⟩,
    fun ⟨hcased, hnames, hproposals, hmarkers, hwords⟩ => ⟨hcased, hnames, hproposals, hmarkers, hwords⟩⟩

instance (f : SourceFile) (edits : List Edit) : Decidable (Lasting f edits) := decidable_of_iff' _ lasting_iff

/-- Only what the edits of a batch are tells what it leaves. -/
theorem waits_congr {f : SourceFile} {edits planned : List Edit} (h : ∀ e, e ∈ planned ↔ e ∈ edits) (e : Entity) :
    Waits f planned e ↔ Waits f edits e := by
  have hrenames : ∀ a, a ∈ Edit.renames planned ↔ a ∈ Edit.renames edits := fun a => by
    rw [Edit.mem_renames, Edit.mem_renames, h]
  rw [waits_iff, waits_iff]
  simp only [hrenames]

theorem lasting_congr {f : SourceFile} {edits planned : List Edit} (h : ∀ e, e ∈ planned ↔ e ∈ edits) :
    Lasting f planned ↔ Lasting f edits := by
  have hrenames : ∀ a, a ∈ Edit.renames planned ↔ a ∈ Edit.renames edits := fun a => by
    rw [Edit.mem_renames, Edit.mem_renames, h]
  rw [lasting_iff, lasting_iff]
  simp only [hrenames, h]

section

variable {config : Config} {isOneOfMany : Bool} {path : SourcePath} {text updated : Text} {edits : List Edit}
  {rs : List RewrittenToken}

/-! ## Names that are tokens -/

/-- The name of an entity is a token of the code. -/
structure Entity.InCode (text : Text) (e : Entity) : Prop where
  code : e.token ∈ Token.code (tokens text)
  kind : e.token.kind = .identifier
  name_eq : e.name = e.token.text

theorem Entity.InCode.mem {e : Entity} (h : e.InCode text) : e.token ∈ tokens text := (List.mem_filter.mp h.code).1

theorem Entity.InCode.isName {e : Entity} (h : e.InCode text) : Lexeme.IsName e.name :=
  h.name_eq ▸ isName_text h.mem h.kind

/-- The name of an entity that is no macro is a token of the code, if it is free. -/
theorem Entity.InCode.of_kind {e : Entity} (he : e ∈ (extract (tokens text)).entities) (hkind : e.kind ≠ .macro_)
    (hspecial : e.isSpecial = false) : e.InCode text := by
  rcases entity_cases he with ⟨hcode, hof⟩ | ⟨_, -, -, hdefine⟩
  · obtain ⟨hid, hname⟩ := hof.named.eq_text hspecial
    exact ⟨hcode, hid, hname⟩
  · exact absurd hdefine.kind hkind

theorem Rewriting.EntityFollows.inCode {w : Rewriting} {code : List Token} {e e' : Entity}
    (h : w.EntityFollows code e e') (he : e ∈ (extract (tokens text)).entities) (hkind : e'.kind ≠ .macro_)
    (hspecial : e'.isSpecial = false) : e.InCode text :=
  .of_kind he (by rwa [h.eq] at hkind) (by rwa [h.eq] at hspecial)

/-- The name of a macro is a word of a directive. -/
theorem NamingRule.kind_ne_of_unwritten {e : Entity} (he : e ∈ (extract (tokens text)).entities)
    (hname : e.name ∉ (Uses.ofFile (.ofText config isOneOfMany path text)).directiveWords) : e.kind ≠ .macro_ := by
  rcases entity_cases he with ⟨-, hof⟩ | ⟨directive, hmem, hdirective, hdefine⟩
  · exact hof.kind
  · obtain ⟨_, hdefined, -⟩ := hdefine.defined
    refine absurd (mem_directiveWords_iff.mpr ⟨directive.text, ?_, (mem_wordsFrom_of_definedName hdefined).1⟩) hname
    exact List.mem_map_of_mem (List.mem_filter.mpr ⟨hmem, hdirective⟩)

/-! ## The guarding line -/

namespace IncludeGuardRule

/-- There is a place for a guarding line if the last comment at the start of a file is closed. -/
theorem isSome_guardEdit_iff {f : SourceFile} :
    (guardEdit? f).isSome = true ↔
      ∀ s ∈ ((f.tokens.takeWhile (·.isComment)).map (·.text)).getLast?, isOpenComment s = false := by
  unfold guardEdit?
  rw [List.getLast?_map]
  cases (f.tokens.takeWhile (·.isComment)).getLast? with
  | none => simp
  | some comment =>
    cases hopen : isOpenComment comment.text with
    | true => simp [hopen]
    | false =>
      simp only [Option.map_some, Option.mem_some_iff, forall_eq', hopen, Bool.false_eq_true, if_false, iff_true]
      split
      · rfl
      · split <;> rfl

end IncludeGuardRule

theorem SourceFile.startLine_lineLocation_one :
    ((SourceFile.ofText config isOneOfMany path text).lineLocation 1).startLine = some 1 := by
  have hstart := LineIndex.lineStart_add_column (Nat.zero_le text.length)
  have hposition := LineIndex.position_ofText (Nat.zero_le text.length)
  have hzero : (LineIndex.ofText text).lineStart 1 = 0 := by
    change (LineIndex.ofText text).lineStart ((1 : Nat) : Int) + 1 = 0 + 1 at hstart
    simpa using hstart
  show some (((LineIndex.ofText text).position ((LineIndex.ofText text).lineStart 1)).1 : Int) = some 1
  rw [hzero, hposition]
  rfl

namespace Guards

/-- Names in use are words of directives just if they were, whether a guarding line is put in or not. -/
theorem mem_directiveWords_iff (h : Guards (.ofText config isOneOfMany path text) edits updated rs)
    (hrewrites : Rewrites text updated rs)
    {name : Text → Text} (hrs : ∀ r ∈ rs, r.Respects name)
    (hlasting : Lasting (.ofText config isOneOfMany path text) edits) {t : Token} (ht : t ∈ Token.code (tokens text))
    (hid : t.isIdentifier = true) :
    t.text ∈ (NamingRule.Uses.ofFile (.ofText config isOneOfMany path updated)).directiveWords ↔
      t.text ∈ (NamingRule.Uses.ofFile (.ofText config isOneOfMany path text)).directiveWords := by
  obtain ⟨hold, hnew⟩ := hrewrites.directiveWords_cases hrs t.text
  refine ⟨fun hword => ?_, hold⟩
  cases h with
  | none _ htokens _ =>
    rw [NamingRule.mem_directiveWords_iff] at hword ⊢
    simp only [SourceFile.directives, SourceFile.ofText] at hword ⊢
    rwa [hrewrites.directiveTexts_eq hrs htokens] at hword
  | line he hguard _ _ _ =>
    obtain ⟨hpragma, honce⟩ := hlasting.words _ he hguard t ht hid
    exact (hnew hword).resolve_right (not_or.mpr ⟨hpragma, honce⟩)

/-- What is turned off on the line of an entity is turned off there as before: no marker is left behind. -/
theorem isSuppressed_iff (h : Guards (.ofText config isOneOfMany path text) edits updated rs)
    (hrewrites : Rewrites text updated rs) {name : Text → Text} (hname : IsRespelling name)
    (hrs : ∀ r ∈ rs, r.Respects name) (hlasting : Lasting (.ofText config isOneOfMany path text) edits)
    {ruleId : String} {e e' : Entity} {code : List Token}
    (hfollows : (Rewriting.ofList hname hrs).EntityFollows code e e') (he : e.InCode text) :
    (Suppressions.ofTokens (tokens updated)).isSuppressed ruleId (some e'.token.line) = true ↔
      (Suppressions.ofTokens (tokens text)).isSuppressed ruleId (some e.token.line) = true := by
  rw [show e'.token = (Rewriting.ofList hname hrs).token e.token by rw [hfollows.eq]]
  cases h with
  | none _ _ hmoves =>
    exact hrewrites.isSuppressed_token_iff hname hrs hmoves (fun _ _ _ hlt => absurd hlt (Nat.not_lt_zero _)) he.mem
      he.kind
  | line he' hguard hplace _ hmoves =>
    refine hrewrites.isSuppressed_token_iff hname hrs hmoves (fun t ht hcomment hlt => ?_) he.mem he.kind
    refine hlasting.markers _ he' hguard t ht hcomment ?_
    rw [hplace]
    exact Int.ofNat_lt.mpr hlt

end Guards

namespace IsFixBatch

variable (h : IsFixBatch (.ofText config isOneOfMany path text) edits)

include h

/-- A rename of a batch is the open fix of an entity. -/
theorem exists_renamed {a : Edit} (ha : a ∈ Edit.renames edits) :
    ∃ e ∈ (extract (tokens text)).entities, a.replaced text = e.name ∧
      NamingRule.suggestion? (extract (tokens text)) e = some a.replacement ∧
      NamingRule.isSafe (.ofText config isOneOfMany path text) (.ofFile (.ofText config isOneOfMany path text)) e
        a.replacement = true ∧
      NamingRule.info.id ∈ config.enabledRuleIds Rule.defaultEnablement := by
  obtain ⟨hmem, hinsertion⟩ := Edit.mem_renames.mp ha
  obtain ⟨v, hv, hav⟩ := (h.mem_iff a).mp hmem
  obtain ⟨info, line, hopen, henabled, -⟩ := exists_fixable_iff.mp ⟨v, hv, rfl⟩
  generalize v.edits = es at hopen hav
  cases hopen with
  | rename he hexempt hcased hnew hsafe =>
    obtain ⟨t, ht, -, hname, rfl⟩ := NamingRule.mem_rename_iff.mp hav
    refine ⟨_, he, ?_, hnew, hsafe, henabled⟩
    rw [Edit.RenameAll.replaced_renameTo (List.mem_filter.mp ht).1, hname]
  | scopeEnum =>
    obtain rfl := List.mem_singleton.mp hav
    exact absurd hinsertion (by simp [Edit.isInsertion])
  | guard _ _ hplace =>
    obtain rfl := List.mem_singleton.mp hav
    rw [IncludeGuardRule.isInsertion_of_guardEdit hplace] at hinsertion
    exact absurd hinsertion (by decide)

/-- A name is free in the new file if no name becomes it, and if it is free already or replaced. -/
theorem not_mem_identifiers_iff (hrewrites : Rewrites text updated rs) (hname : IsRespelling (respelled text edits))
    (hrs : ∀ r ∈ rs, r.Respects (respelled text edits)) {n : Text} :
    n ∉ (NamingRule.Uses.ofFile (.ofText config isOneOfMany path updated)).identifiers ↔
      (∀ a ∈ Edit.renames edits, a.replacement ≠ n) ∧
        (n ∈ (NamingRule.Uses.ofFile (.ofText config isOneOfMany path text)).identifiers →
          ∃ a ∈ Edit.renames edits, a.replaced text = n) := by
  rw [hrewrites.mem_identifiers_iff hname hrs]
  constructor
  · intro hnot
    refine ⟨fun a ha heq => hnot ⟨a.replaced text, ?_, (h.respelled_of_replaced ha).trans heq⟩, fun hin => ?_⟩
    · obtain ⟨t, ht, hid, heq⟩ := h.exists_replaced ha
      rw [heq]
      exact NamingRule.mem_identifiers_iff.mpr
        ⟨t, Edit.RenameAll.mem_code_of_identifier ht hid, beq_iff_eq.mpr hid, rfl⟩
    · obtain ⟨t, ht, hid, rfl⟩ := NamingRule.mem_identifiers_iff.mp hin
      rcases h.respelled_cases (List.mem_filter.mp ht).1 (beq_iff_eq.mp hid) with ⟨a, ha, heq, -⟩ | ⟨-, hsame⟩
      · exact ⟨a, ha, heq⟩
      · exact absurd ⟨t.text, hin, hsame⟩ hnot
  · rintro ⟨htaken, hfreed⟩ ⟨s, hs, rfl⟩
    obtain ⟨t, ht, hid, rfl⟩ := NamingRule.mem_identifiers_iff.mp hs
    rcases h.respelled_cases (List.mem_filter.mp ht).1 (beq_iff_eq.mp hid) with ⟨a, ha, -, heq⟩ | ⟨hkept, hsame⟩
    · exact htaken a ha heq.symm
    · rw [hsame] at hfreed
      obtain ⟨a, ha, heq⟩ := hfreed hs
      exact hkept a ha heq

/-- No name is spelled as that of an operator, neither before a batch that lasts nor behind it. -/
theorem not_looksLikeOperator (hlasting : Lasting (.ofText config isOneOfMany path text) edits) {t : Token}
    (ht : t ∈ Token.code (tokens text)) (hid : t.isIdentifier = true) :
    ¬Rewriting.LooksLikeOperator t.text ∧ ¬Rewriting.LooksLikeOperator (respelled text edits t.text) := by
  refine ⟨hlasting.names t ht hid, ?_⟩
  rcases h.respelled_cases (List.mem_filter.mp ht).1 (beq_iff_eq.mp hid) with ⟨a, ha, -, heq⟩ | ⟨-, hsame⟩
  · obtain ⟨b, hb, -, hproposal, -⟩ := h.exists_renamed ha
    rw [heq]
    exact hlasting.proposals b hb _ hproposal
  · rw [hsame]
    exact hlasting.names t ht hid

/-- Behind a batch the rename of an entity that keeps its name is safe if its new name is free or comes free, and is
no word of a directive. -/
theorem isSafe_of_kept_iff (hrewrites : Rewrites text updated rs) {hname : IsRespelling (respelled text edits)}
    {hrs : ∀ r ∈ rs, r.Respects (respelled text edits)}
    (hfits : (Rewriting.ofList hname hrs).Fits (Token.code (tokens text)))
    (hlasting : Lasting (.ofText config isOneOfMany path text) edits) {e e' : Entity}
    (he : e ∈ (extract (tokens text)).entities)
    (hfollows : (Rewriting.ofList hname hrs).EntityFollows (Token.code (tokens text)) e e')
    (hin : e.InCode text) (hsame : e'.name = e.name) (hkept : ∀ a ∈ Edit.renames edits, a.replaced text ≠ e.name)
    {new : Text} (hnew : NamingRule.suggestion? (extract (tokens text)) e = some new) :
    NamingRule.isSafe (.ofText config isOneOfMany path updated) (.ofFile (.ofText config isOneOfMany path updated)) e'
        new = true ↔
      ((∀ a ∈ Edit.renames edits, a.replacement ≠ new) ∧
          (new ∈ (NamingRule.Uses.ofFile (.ofText config isOneOfMany path text)).identifiers →
            ∃ a ∈ Edit.renames edits, a.replaced text = new)) ∧
        new ∉ (NamingRule.Uses.ofFile (.ofText config isOneOfMany path updated)).directiveWords ∧
        e.name ∉ (NamingRule.Uses.ofFile (.ofText config isOneOfMany path updated)).directiveWords ∧
        NamingRule.IsRenameable (.ofText config isOneOfMany path text) e := by
  obtain ⟨hspelled, hapart⟩ := h.respelled_of_kept hin.mem hin.kind (hin.name_eq ▸ hkept)
  rw [← hin.name_eq] at hspelled hapart
  have hisName := (NamingRule.suggestion_facts hnew hin.isName).2.2
  rw [NamingRule.isSafe_iff_unused hisName.head_ne_tilde (hlasting.proposals e he new hnew), hsame,
    h.not_mem_identifiers_iff hrewrites hname hrs,
    hrewrites.isRenameable_iff hfits hfollows hsame hspelled hapart (fun t => h.not_looksLikeOperator hlasting)
      (hin.name_eq ▸ hlasting.names _ hin.code (beq_iff_eq.mpr hin.kind))]

/-- An open fix that is not part of a batch of the fixes is turned off. -/
theorem isSuppressed_of_not_mem {info : RuleInfo} {line : Option Int} {es : List Edit}
    (hopen : OpenFix (.ofText config isOneOfMany path text) info line es)
    (henabled : info.id ∈ config.enabledRuleIds Rule.defaultEnablement) {e : Edit} (he : e ∈ es) (hnot : e ∉ edits) :
    (Suppressions.ofTokens (tokens text)).isSuppressed info.id line = true := by
  refine Bool.not_eq_false _ |>.mp fun hon => hnot ?_
  obtain ⟨v, hv, rfl⟩ := exists_fixable_iff.mpr ⟨info, line, hopen, henabled, hon⟩
  exact (h.mem_iff e).mpr ⟨v, hv, he⟩

/-- A header that is not guarded behind a batch was not guarded before, and there was a place for the line. -/
theorem isSuppressed_of_open_guard (hrewrites : Rewrites text updated rs) {name : Text → Text}
    (hrs : ∀ r ∈ rs, r.Respects name)
    (hguards : Guards (.ofText config isOneOfMany path text) edits updated rs)
    (hheader : path.isHeader = true)
    (hbare : IncludeGuardRule.hasGuard (.ofText config isOneOfMany path updated) = false)
    (hplace : (IncludeGuardRule.guardEdit? (.ofText config isOneOfMany path updated)).isSome = true)
    (henabled : IncludeGuardRule.info.id ∈ config.enabledRuleIds Rule.defaultEnablement) :
    (Suppressions.ofTokens (tokens text)).isSuppressed IncludeGuardRule.info.id (some 1) = true ∧
      RewrittenToken.MovesDown rs 0 0 := by
  cases hguards with
  | none hnone htokens hmoves =>
    refine ⟨?_, hmoves⟩
    have hbareBefore : IncludeGuardRule.hasGuard (.ofText config isOneOfMany path text) = false := by
      rw [← hbare]
      exact congrArg IncludeGuardRule.isGuarded (hrewrites.directiveTexts_eq hrs htokens).symm
    have hplaceBefore : (IncludeGuardRule.guardEdit? (.ofText config isOneOfMany path text)).isSome = true := by
      rw [IncludeGuardRule.isSome_guardEdit_iff] at hplace ⊢
      simp only [SourceFile.ofText] at hplace ⊢
      rwa [htokens, Rewrites.leadingTexts_written rs hrs, hrewrites.old] at hplace
    obtain ⟨g, hg⟩ := Option.isSome_iff_exists.mp hplaceBefore
    have hopen : OpenFix (.ofText config isOneOfMany path text) IncludeGuardRule.info
      ((SourceFile.ofText config isOneOfMany path text).lineLocation 1).startLine [g] := .guard hheader hbareBefore hg
    rw [SourceFile.startLine_lineLocation_one] at hopen
    exact h.isSuppressed_of_not_mem hopen henabled (List.mem_singleton_self g) fun hmem => hnone g hmem hg
  | line he hguard hstart hput hmoves =>
    -- the line stands in the new file
    obtain ⟨t, ht, hkind, htext⟩ := hput
    rw [IncludeGuardRule.hasGuard_of_mem ht hkind htext] at hbare
    exact absurd hbare (by decide)

variable (hrewrites : Rewrites text updated rs) {hname : IsRespelling (respelled text edits)}
  {hrs : ∀ r ∈ rs, r.Respects (respelled text edits)}
  (hfits : (Rewriting.ofList hname hrs).Fits (Token.code (tokens text)))
  (hlasting : Lasting (.ofText config isOneOfMany path text) edits)

include hrewrites hfits hlasting

/-- A rename that is safe behind a batch, of an entity that keeps its name, is one that waits, or it was open. -/
theorem waits_or_openFix {e e' : Entity} (he : e ∈ (extract (tokens text)).entities) (hin : e.InCode text)
    (hfollows : (Rewriting.ofList hname hrs).EntityFollows (Token.code (tokens text)) e e')
    (hsame : e'.name = e.name) (hkept : ∀ a ∈ Edit.renames edits, a.replaced text ≠ e.name) {new : Text}
    (hexempt : NamingRule.isExempt config.naming e = false)
    (hcased : NamingRule.isCased (extract (tokens text)) e = false)
    (hnew : NamingRule.suggestion? (extract (tokens text)) e = some new)
    (hsafe : NamingRule.isSafe (.ofText config isOneOfMany path updated)
      (.ofFile (.ofText config isOneOfMany path updated)) e' new = true) :
    Waits (.ofText config isOneOfMany path text) edits e ∨
      OpenFix (.ofText config isOneOfMany path text) NamingRule.info (some e.token.line)
        (NamingRule.rename (Token.code (tokens text)) e.name new) := by
  obtain ⟨⟨-, hfreed⟩, hnewWord, holdWord, hrenameable⟩ :=
    (h.isSafe_of_kept_iff hrewrites hfits hlasting he hfollows hin hsame hkept hnew).mp hsafe
  have words : ∀ n, n ∉ (NamingRule.Uses.ofFile (.ofText config isOneOfMany path updated)).directiveWords →
      n ∉ (NamingRule.Uses.ofFile (.ofText config isOneOfMany path text)).directiveWords :=
    fun n hn hword => hn ((hrewrites.directiveWords_cases hrs n).1 hword)
  by_cases hused : new ∈ (NamingRule.Uses.ofFile (.ofText config isOneOfMany path text)).identifiers
  · obtain ⟨a, ha, rfl⟩ := hfreed hused
    have hunwritten : ∀ n ∈ (NamingRule.Uses.ofFile (.ofText config isOneOfMany path text)).directiveWords,
        n ≠ e.name := fun n hn heq => words _ holdWord (heq ▸ hn)
    exact Or.inl ⟨he, hexempt, hcased, hkept, ⟨a, ha, hnew⟩, hunwritten, hrenameable⟩
  · have hisName := (NamingRule.suggestion_facts hnew hin.isName).2.2
    refine Or.inr (.rename he hexempt hcased hnew ?_)
    exact (NamingRule.isSafe_iff_unused hisName.head_ne_tilde (hlasting.proposals e he new hnew)).mpr
      ⟨hused, words _ hnewWord, words _ holdWord, hrenameable⟩

/-- If every entity that waits is turned off, one whose rename is open behind the batch was turned off. -/
theorem isSuppressed_of_open_rename {e e' : Entity} (he : e ∈ (extract (tokens text)).entities) (hin : e.InCode text)
    (hfollows : (Rewriting.ofList hname hrs).EntityFollows (Token.code (tokens text)) e e') {new : Text}
    (hexempt : NamingRule.isExempt config.naming e' = false)
    (hcased : NamingRule.isCased (extract (tokens updated)) e' = false)
    (hnew : NamingRule.suggestion? (extract (tokens updated)) e' = some new)
    (hsafe : NamingRule.isSafe (.ofText config isOneOfMany path updated)
      (.ofFile (.ofText config isOneOfMany path updated)) e' new = true)
    (henabled : NamingRule.info.id ∈ config.enabledRuleIds Rule.defaultEnablement)
    (hwaits : ∀ e, Waits (.ofText config isOneOfMany path text) edits e →
      (Suppressions.ofTokens (tokens text)).isSuppressed NamingRule.info.id (some e.token.line) = true) :
    (Suppressions.ofTokens (tokens text)).isSuppressed NamingRule.info.id (some e.token.line) = true := by
  have hspecial := NamingRule.isSpecial_of_not_exempt hexempt
  rw [hfollows.eq] at hspecial
  have hspelled : e'.name = respelled text edits e.name := hfollows.name_eq hspecial
  rw [Rewrites.isExempt_eq hfollows] at hexempt
  rw [hrewrites.isCased_eq hfits hfollows] at hcased
  rw [hrewrites.suggestion_eq hfits hfollows] at hnew
  rcases h.respelled_cases hin.mem hin.kind with ⟨a, ha, heq, hreplaced⟩ | ⟨hkept, hsame⟩
  · -- under its new name the entity is not reported
    rw [hspelled, hin.name_eq, hreplaced] at hexempt hcased
    rcases hlasting.cased e he a ha (heq.trans hin.name_eq.symm) with hyes | hyes
    · exact absurd (hyes.symm.trans hexempt) (by decide)
    · exact absurd (hyes.symm.trans hcased) (by decide)
  · rw [← hin.name_eq] at hkept hsame
    have hsame : e'.name = e.name := hspelled.trans hsame
    rw [hsame] at hexempt hcased hnew
    rcases h.waits_or_openFix hrewrites hfits hlasting he hin hfollows hsame hkept hexempt hcased hnew hsafe with
      hwait | hopen
    · exact hwaits e hwait
    · refine h.isSuppressed_of_not_mem hopen henabled
        (NamingRule.mem_rename_iff.mpr ⟨e.token, hin.code, hin.kind, hin.name_eq.symm, rfl⟩) fun hmem => ?_
      refine hkept (e.token.renameTo new) (Edit.mem_renames.mpr ⟨hmem, Token.isInsertion_renameTo hin.mem new⟩) ?_
      rw [Edit.RenameAll.replaced_renameTo hin.mem, hin.name_eq]

omit hlasting in
/-- An enumeration whose fix is open behind a batch could have been scoped before, and was not. -/
theorem isSuppressed_of_open_scope {e e' : Entity} (he : e ∈ (extract (tokens text)).entities)
    (hfollows : (Rewriting.ofList hname hrs).EntityFollows (Token.code (tokens text)) e e')
    (hput : ∀ r ∈ rs, r.behind.isSome = true ↔ r.old.kind = .keyword .enumKw ∧ scopesAt edits r.old.stop = true)
    (hkind : e'.kind = .enum) (hunscoped : e'.isScopedEnum = false) {body : Nat} (hbody : e'.bodyScope = some body)
    {keyword : Token} (hkeyword : e'.keyword = some keyword)
    (hclear : UnscopedEnumRule.obstacle? (.ofText config isOneOfMany path updated) body = none)
    (henabled : UnscopedEnumRule.info.id ∈ config.enabledRuleIds Rule.defaultEnablement) :
    (Suppressions.ofTokens (tokens text)).isSuppressed UnscopedEnumRule.info.id (some e.token.line) = true := by
  rw [hfollows.eq] at hkind hunscoped hbody hkeyword
  dsimp only at hkind hunscoped hbody hkeyword
  obtain ⟨hunscoped, hclass⟩ := Bool.or_eq_false_iff.mp hunscoped
  obtain ⟨before, hbefore, rfl⟩ := Option.map_eq_some_iff.mp hkeyword
  rw [hbefore, Option.any_some] at hclass
  obtain ⟨hleak, hmany⟩ := UnscopedEnumRule.obstacle_eq_none_iff.mp hclear
  have hclearBefore : UnscopedEnumRule.obstacle? (.ofText config isOneOfMany path text) body = none :=
    UnscopedEnumRule.obstacle_eq_none_iff.mpr ⟨hrewrites.leak_eq_none hfits hleak, hmany⟩
  refine h.isSuppressed_of_not_mem (.scopeEnum he hkind hunscoped hbody hbefore hclearBefore) henabled
    (List.mem_singleton_self _) fun hmem => ?_
  -- with the edit in the batch there would be `class` behind the keyword
  have hscoped : IsScoped text e before := ⟨he, hkind, hunscoped, hbefore⟩
  obtain ⟨r, hr, rfl⟩ := hrewrites.exists_old (List.mem_filter.mp hscoped.hasHead.1).1
  rw [Rewriting.scopes_old hrewrites.nodup hr, (hput r hr).mpr ⟨hscoped.hasHead.2.1, List.contains_iff_mem.mpr hmem⟩]
    at hclass
  exact absurd hclass (by decide)

/-- An entity that waits can be renamed behind the batch. -/
theorem openFix_of_waits (hguards : Guards (.ofText config isOneOfMany path text) edits updated rs) {e e' : Entity}
    (hwaits : Waits (.ofText config isOneOfMany path text) edits e) (hin : e.InCode text)
    (he' : e' ∈ (extract (tokens updated)).entities)
    (hfollows : (Rewriting.ofList hname hrs).EntityFollows (Token.code (tokens text)) e e') :
    ∃ es, OpenFix (.ofText config isOneOfMany path updated) NamingRule.info (some e'.token.line) es := by
  obtain ⟨he, hexempt, hcased, hkept, ⟨a, ha, hnew⟩, hunwritten, hrenameable⟩ := hwaits
  have hsame : e'.name = e.name := by
    rw [hfollows.name_eq (NamingRule.isSpecial_of_not_exempt hexempt), hin.name_eq]
    exact (h.respelled_of_kept hin.mem hin.kind (hin.name_eq ▸ hkept)).1
  -- the name that comes free is no word of a directive, since it is replaced
  have hfreed : a.replaced text ∉
      (NamingRule.Uses.ofFile (.ofText config isOneOfMany path updated)).directiveWords := by
    obtain ⟨b, -, hb, -, hsafe, -⟩ := h.exists_renamed ha
    obtain ⟨-, -, -, hfree, -⟩ := NamingRule.isSafe_iff.mp hsafe
    obtain ⟨t, ht, htid, heq⟩ := h.exists_replaced ha
    rw [heq, hguards.mem_directiveWords_iff hrewrites hrs hlasting (Edit.RenameAll.mem_code_of_identifier ht htid)
      (beq_iff_eq.mpr htid), ← heq, hb]
    exact hfree
  have hname : e.name ∉ (NamingRule.Uses.ofFile (.ofText config isOneOfMany path updated)).directiveWords := by
    rw [hin.name_eq, hguards.mem_directiveWords_iff hrewrites hrs hlasting hin.code (beq_iff_eq.mpr hin.kind),
      ← hin.name_eq]
    exact fun hword => hunwritten _ hword rfl
  have hsafe := (h.isSafe_of_kept_iff hrewrites hfits hlasting he hfollows hin hsame hkept hnew).mpr
    ⟨⟨fun b hb => h.exchangeable.replacement_ne hb ha, fun _ => ⟨a, ha, rfl⟩⟩, hfreed, hname, hrenameable⟩
  refine ⟨_, .rename he' ?_ ?_ ?_ hsafe⟩
  · show NamingRule.isExempt config.naming e' = false
    rw [Rewrites.isExempt_eq hfollows, hsame]
    exact hexempt
  · show NamingRule.isCased (extract (tokens updated)) e' = false
    rw [hrewrites.isCased_eq hfits hfollows, hsame]
    exact hcased
  · show NamingRule.suggestion? (extract (tokens updated)) e' = some (a.replaced text)
    rw [hrewrites.suggestion_eq hfits hfollows, hsame]
    exact hnew

end IsFixBatch

/-! ## The result of a run -/

/-- A batch that does no harm and lasts leaves a settled file exactly when every entity that waits for its name is
turned off. -/
theorem IsFixBatch.settled_iff (h : IsFixBatch (.ofText config isOneOfMany path text) edits)
    (hharmless : Harmless text edits) (hlasting : Lasting (.ofText config isOneOfMany path text) edits) :
    Settled (.ofText config isOneOfMany path (splice 0 text edits)) ↔
      ∀ e, Waits (.ofText config isOneOfMany path text) edits e →
        (Suppressions.ofTokens (tokens text)).isSuppressed NamingRule.info.id (some e.token.line) = true := by
  obtain ⟨rs, hrewrites, hput, hguards⟩ := h.exists_rewrites hharmless
  have hname : IsRespelling (respelled text edits) := h.exchangeable.isRespelling hharmless.words
  have hrs : ∀ r ∈ rs, r.Respects (respelled text edits) := fun r hr => (hput r hr).1
  have hfits : (Rewriting.ofList hname hrs).Fits (Token.code (tokens text)) :=
    h.fits hharmless hname hrs fun r hr hs => ((hput r hr).2.mp hs).2
  constructor
  · intro hsettled e hwaits
    have hkind := NamingRule.kind_ne_of_unwritten hwaits.mem fun hword => hwaits.unwritten _ hword rfl
    have hin : e.InCode text := .of_kind hwaits.mem hkind (NamingRule.isSpecial_of_not_exempt hwaits.exempt)
    obtain ⟨e', he', hfollows⟩ := hrewrites.exists_new_entity hfits hwaits.mem hkind
    obtain ⟨es, hopen⟩ := h.openFix_of_waits hrewrites hfits hlasting hguards hwaits hin he' hfollows
    -- a name has been replaced, and so the rule is enabled
    obtain ⟨a, ha, -⟩ := hwaits.freed
    obtain ⟨-, -, -, -, -, henabled⟩ := h.exists_renamed ha
    exact (hguards.isSuppressed_iff hrewrites hname hrs hlasting hfollows hin).mp (hsettled _ _ _ hopen henabled)
  · intro hwaits info line es hopen henabled
    cases hopen with
    | rename he' hexempt hcased hnew hsafe =>
      have hkind := NamingRule.kind_ne_of_unwritten he' (NamingRule.isSafe_iff.mp hsafe).2.2.2.1
      obtain ⟨e, he, hfollows⟩ := hrewrites.exists_old_entity hfits he' hkind
      have hin : e.InCode text := hfollows.inCode he hkind (NamingRule.isSpecial_of_not_exempt hexempt)
      refine (hguards.isSuppressed_iff hrewrites hname hrs hlasting hfollows hin).mpr ?_
      exact h.isSuppressed_of_open_rename hrewrites hfits hlasting he hin hfollows hexempt hcased hnew hsafe henabled
        hwaits
    | scopeEnum he' hkind hunscoped hbody hkeyword hclear =>
      obtain ⟨e, he, hfollows⟩ := hrewrites.exists_old_entity hfits he' (by simp [hkind])
      have hin : e.InCode text := hfollows.inCode he (by simp [hkind])
        (isSpecial_of_kind he' (by simp [hkind]) (by simp [hkind]))
      refine (hguards.isSuppressed_iff hrewrites hname hrs hlasting hfollows hin).mpr ?_
      exact h.isSuppressed_of_open_scope hrewrites hfits he hfollows (fun r hr => (hput r hr).2) hkind hunscoped hbody
        hkeyword hclear henabled
    | guard hheader hbare hplace =>
      obtain ⟨hoff, hstay⟩ := h.isSuppressed_of_open_guard hrewrites hrs hguards hheader hbare (by rw [hplace]; rfl)
        henabled
      rw [SourceFile.startLine_lineLocation_one]
      exact (hrewrites.isSuppressed_iff hname hrs hstay (by simp) (Int.le_refl 1)).mpr hoff

/-- The first run changes the text exactly when something is open there, and a second run gives the result of the
first one back as it is exactly when nothing is open in that. If the fixes do no harm and last, this is so exactly when
every entity that waits for its name is turned off. -/
theorem second_fix_iff_settled
    (h : applyFixes text (detectEnabled (.ofText config isOneOfMany path text)) = .ok updated) :
    let f := SourceFile.ofText config isOneOfMany path text
    let f' := SourceFile.ofText config isOneOfMany path updated
    (updated = text ↔ Settled f) ∧
      (applyFixes updated (detectEnabled f') = .ok updated ↔ Settled f') ∧
      (Harmless text (fixEdits f) → Lasting f (fixEdits f) →
        (applyFixes updated (detectEnabled f') = .ok updated ↔ ∀ e, Waits f (fixEdits f) e →
          f.suppressions.isSuppressed NamingRule.info.id (some e.token.line) = true)) := by
  intro f f'
  refine ⟨?_, applyFixes_eq_self_iff, fun hharmless hlasting => ?_⟩
  · rw [← applyFixes_eq_self_iff, h, Except.ok.injEq]
  · obtain ⟨planned, hplan, rfl, -⟩ := applyFixes_eq_ok_iff.mp h
    have hbatch : IsFixBatch f planned := isFixBatch_of_planEdits hplan
    have hmem : ∀ e, e ∈ planned ↔ e ∈ fixEdits f := fun e => (hbatch.mem_iff e).trans mem_fixEdits.symm
    have hsettled := hbatch.settled_iff (hharmless.of_mem_iff hmem) ((lasting_congr hmem).mpr hlasting)
    have hsplice : applyEdits text planned = splice 0 text planned :=
      applyEdits_eq_splice hbatch.within hbatch.before
    rw [← hsplice] at hsettled
    rw [applyFixes_eq_self_iff, hsettled]
    exact forall_congr' fun e => imp_congr (waits_congr hmem e) Iff.rfl

end

set_option maxRecDepth 10000 in
/-- A name whose rename leaves nothing to do. -/
theorem second_fix_settled_single :
    applyFixes (Text.ofString "int fooBar = 1;\n")
        (detectEnabled (.ofText {} false (.ofString "a.cpp") (Text.ofString "int fooBar = 1;\n"))) =
      .ok (Text.ofString "int foo_bar = 1;\n") ∧
    applyFixes (Text.ofString "int foo_bar = 1;\n")
        (detectEnabled (.ofText {} false (.ofString "a.cpp") (Text.ofString "int foo_bar = 1;\n"))) =
      .ok (Text.ofString "int foo_bar = 1;\n") := by
  obtain ⟨hfixes, hlasting⟩ :
      fixesTo (detectEnabled (.asRead {} false (.ofString "a.cpp") (Text.ofString "int fooBar = 1;\n")))
          (Text.ofString "int fooBar = 1;\n") (Text.ofString "int foo_bar = 1;\n") = true ∧
        InOrder (Text.ofString "int fooBar = 1;\n") ∧
          let f := SourceFile.asRead {} false (.ofString "a.cpp") (Text.ofString "int fooBar = 1;\n")
          Harmless f.text (fixEdits f) ∧ Lasting f (fixEdits f) ∧
            ∀ e ∈ f.model.entities, ¬Waits f (fixEdits f) e := by
    rw [Text.ofString_ofList, Text.ofString_ofList]
    decide +kernel
  have hfirst : applyFixes (Text.ofString "int fooBar = 1;\n")
      (detectEnabled (.ofText {} false (.ofString "a.cpp") (Text.ofString "int fooBar = 1;\n"))) =
        .ok (Text.ofString "int foo_bar = 1;\n") :=
    applyFixes_of_fixesTo detectEnabled hfixes
  obtain ⟨hharmless, hlasting, hnone⟩ := SourceFile.of_asRead {} false (.ofString "a.cpp")
    (Text.ofString "int fooBar = 1;\n")
    (P := fun f => Harmless f.text (fixEdits f) ∧ Lasting f (fixEdits f) ∧
      ∀ e ∈ f.model.entities, ¬Waits f (fixEdits f) e) hlasting
  refine ⟨hfirst, ((second_fix_iff_settled hfirst).2.2 hharmless hlasting).mpr fun e hwaits => ?_⟩
  exact absurd hwaits (hnone e hwaits.mem)

set_option maxRecDepth 10000 in
/-- A name that is free only after the first run: the second run goes on with the text. -/
theorem exists_second_fix :
    ∃ text updated again : Text,
      applyFixes text (detectEnabled (.ofText {} false (.ofString "a.cpp") text)) = .ok updated ∧
      applyFixes updated (detectEnabled (.ofText {} false (.ofString "a.cpp") updated)) = .ok again ∧
      again ≠ updated := by
  obtain ⟨text, updated, again, hfirst, hsecond, hne⟩ : ∃ text updated again : Text,
      fixesTo (detectEnabled (.asRead {} false (.ofString "a.cpp") text)) text updated = true ∧
      fixesTo (detectEnabled (.asRead {} false (.ofString "a.cpp") updated)) updated again = true ∧
      again ≠ updated := by
    refine ⟨Text.ofString "class foo_bar \x7b\x7d;\nint fooBar;\n",
      Text.ofString "class FooBar \x7b\x7d;\nint fooBar;\n",
      Text.ofString "class FooBar \x7b\x7d;\nint foo_bar;\n", ?_⟩
    rw [Text.ofString_ofList, Text.ofString_ofList, Text.ofString_ofList]
    decide +kernel
  exact ⟨text, updated, again, applyFixes_of_fixesTo detectEnabled hfirst,
    applyFixes_of_fixesTo detectEnabled hsecond, hne⟩

set_option maxRecDepth 10000 in
/-- In that text the variable waits for its name, which the class has. -/
example :
    let f := SourceFile.asRead {} false (.ofString "a.cpp") (Text.ofString "class foo_bar \x7b\x7d;\nint fooBar;\n")
    Harmless f.text (fixEdits f) ∧ Lasting f (fixEdits f) ∧
      (f.model.entities.filter fun e => Waits f (fixEdits f) e).map (·.name) = [Text.ofString "fooBar"] := by
  rw [Text.ofString_ofList]
  decide +kernel

end HouseStyle
