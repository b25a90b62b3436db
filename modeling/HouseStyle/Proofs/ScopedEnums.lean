import HouseStyle.Proofs.FixEffects
import Mathlib.Data.List.Forall2
import Mathlib.Data.List.Nodup

/-!
# What an enumeration means once it is scoped

An enumeration is turned into an `enum class` without asking if no enumerator of it is used without
qualification. Three things escape this. Any `::` in front of a name counts as qualification, also one behind
another name or behind none. Directives are not looked at. And ` class` is put in at the declaration with
braces only, while the enumeration may be declared without them, too.

- `uses_qualified`: what is looked at, every use in the code.
- `exists_scoped_file`: the fixes of the enumerations of a file are always applied, and the new file declares
  what the old one does, with the enumerations scoped that are fixed.
- `meaning_kept_iff`: when an enumeration that is fixed keeps what it means.
-/

namespace HouseStyle

open Extraction

/-! ## Enumerations and their keywords -/

section

variable {text : Text} {e e' : Entity}

/-- The name of an entity is free unless it is a function. -/
theorem isSpecial_of_kind (he : e ∈ (extract (tokens text)).entities) (hfunction : e.kind ≠ .function)
    (hmethod : e.kind ≠ .method) : e.isSpecial = false := by
  rcases entity_cases he with ⟨-, hof⟩ | ⟨_, -, -, hdefines⟩
  · refine Bool.eq_false_iff.mpr fun hspecial => ?_
    exact (hof.function hspecial).elim hfunction hmethod
  · exact hdefines.isSpecial

theorem mem_tokens_of_keyword (he : e ∈ (extract (tokens text)).entities) {keyword : Token}
    (h : e.keyword = some keyword) : keyword ∈ tokens text := by
  rcases entity_cases he with ⟨-, -, hheads⟩ | ⟨_, -, -, hnamed⟩
  · exact (List.mem_filter.mp (hheads keyword h).mem.1).1
  · exact absurd (hnamed.keyword.symm.trans h) (by simp)

/-- Different types have different keywords. -/
theorem eq_of_keyword_eq (he : e ∈ (extract (tokens text)).entities) (he' : e' ∈ (extract (tokens text)).entities)
    {keyword : Token} (h : e.keyword = some keyword) (h' : e'.keyword = some keyword) : e = e' := by
  obtain ⟨declared, hperm, hdeclares⟩ := exists_entities_extract (tokens text)
  have hdeclared : ∀ a ∈ (extract (tokens text)).entities, a.keyword = some keyword → a ∈ declared := by
    intro a ha hkeyword
    refine (List.mem_append.mp (hperm.mem_iff.mp ha)).resolve_right fun hmacro => ?_
    obtain ⟨_, -, hof⟩ := List.mem_filterMap.mp hmacro
    exact absurd ((isMacroOf_of_eq_some hof).keyword.symm.trans hkeyword) (by simp)
  have he := hdeclared e he h
  have he' := hdeclared e' he' h'
  obtain ⟨head, ⟨-, rest, hsuffix, hread⟩, -, -, hname⟩ := (hdeclares.ofCode e he).keyword keyword h
  obtain ⟨head', ⟨-, rest', hsuffix', hread'⟩, -, -, hname'⟩ := (hdeclares.ofCode e' he').keyword keyword h'
  obtain rfl := Token.eq_of_cons_suffix ((nodup_tokens text).sublist List.filter_sublist) hsuffix hsuffix'
  obtain rfl := Option.some.inj (hread.symm.trans hread')
  -- and no two are declared by one token
  obtain ⟨names, hnames, hcode⟩ := hdeclares.tokens
  have hnodup : (declared.map (·.token)).Nodup :=
    hnames.nodup_iff.mp ((nodup_tokens text).sublist (hcode.trans List.filter_sublist))
  exact List.inj_on_of_nodup_map hnodup he he' (Option.some.inj (hname.symm.trans hname'))

end

/-! ## Putting ` class` in -/

namespace Renaming

/-- Names stay as they are. -/
def none : Renaming where
  newName _ := .none
  startsWord_old h := absurd h (by simp)
  startsWord_new h := absurd h (by simp)
  isName_new h := absurd h (by simp)

theorem noQuoteJoined_none (behind : Text) (ps : List Piece) : Piece.NoQuoteJoined none behind ps :=
  Piece.noQuoteJoined_iff_forall.mpr fun _ _ _ _ _ h => absurd h (by simp [none])

end Renaming

theorem isRespelling_id : IsRespelling id :=
  ⟨fun _ => rfl, fun _ h => h, fun _ _ _ => Iff.rfl⟩

/-- An entity and the one that stands in its place in another file. They are alike, but if it is an enumeration
and the condition holds, it has become scoped. -/
structure IsScopedIf (p : Prop) (e e' : Entity) : Prop where
  kind : e'.kind = e.kind
  name : e.kind = .enum → e'.name = e.name
  scope : e.kind = .enum → e'.scope = e.scope
  isScopedEnum : e.kind = .enum → (e'.isScopedEnum = true ↔ e.isScopedEnum = true ∨ p)

theorem IsScopedIf.of_enum {p : Prop} {e e' : Entity} (hkind : e'.kind = e.kind)
    (henum : e.kind = .enum → e'.name = e.name ∧ e'.scope = e.scope ∧
      (e'.isScopedEnum = true ↔ e.isScopedEnum = true ∨ p)) : IsScopedIf p e e' :=
  ⟨hkind, fun h => (henum h).1, fun h => (henum h).2.1, fun h => (henum h).2.2⟩

/-- A batch of edits that put ` class` in behind enumerations that are not scoped. -/
structure IsScopingBatch (text : Text) (edits : List Edit) : Prop where
  isScoped : ∀ e ∈ edits, ∃ a keyword, IsScoped text a keyword ∧ e = keyword.scopeEdit
  before : edits.Pairwise Edit.Before

namespace IsScopingBatch

open IsFixBatch (scopesAt)

variable {text : Text} {edits : List Edit}

theorem exists_keyword (h : IsScopingBatch text edits) {t : Token} (ht : t ∈ tokens text)
    (hs : scopesAt edits t.stop = true) : ∃ a, IsScoped text a t := by
  obtain ⟨a, keyword, ha, heq⟩ := h.isScoped t.scopeEdit (List.contains_iff_mem.mp hs)
  obtain rfl := Token.scopeEdit_inj ht (List.mem_filter.mp ha.hasHead.1).1 heq
  exact ⟨a, ha⟩

/-- The edits of the batch are those of the pieces of the text. -/
theorem eq_editsFrom (h : IsScopingBatch text edits) :
    edits = Piece.editsFrom .none (scopesAt edits) 0 (Piece.ofText true text) := by
  have hcut : Piece.ofText true (Piece.join (Piece.ofText true text)) = Piece.ofText true text := by
    rw [Piece.join_ofText]
  refine Piece.eq_editsFrom (Piece.text_ne_nil_of_mem hcut) h.before fun e => ?_
  refine Iff.trans ?_ (Piece.mem_editsFrom_iff (p := .start)).symm
  constructor
  · intro he
    obtain ⟨a, keyword, ha, rfl⟩ := h.isScoped e he
    obtain ⟨hcode, hkind, -⟩ := ha.hasHead
    exact ⟨keyword, (List.mem_filter.mp hcode).1, Or.inr ⟨hkind, List.contains_iff_mem.mpr he, rfl⟩⟩
  · rintro ⟨t, -, ⟨-, new, hnew, -⟩ | ⟨-, hs, rfl⟩⟩
    · exact absurd hnew (by simp [Renaming.none])
    · exact List.contains_iff_mem.mp hs

/-- The batch rewrites the tokens of the file, and no name changes. -/
theorem exists_rewrites (h : IsScopingBatch text edits) :
    ∃ rs, Rewrites text (splice 0 text edits) rs ∧ ∀ r ∈ rs, r.Respects id ∧
      (r.behind.isSome = true ↔ r.old.kind = .keyword .enumKw ∧ scopesAt edits r.old.stop = true) := by
  have hpieces : Piece.ofText true text = [] ++ Piece.ofText true text := rfl
  have hcut : Piece.ofText true (Piece.join (Piece.ofText true text)) = Piece.ofText true text := by
    rw [Piece.join_ofText]
  have hsplice : splice 0 text edits =
      Piece.join (Piece.rewriteFrom .none (scopesAt edits) 0 (Piece.ofText true text)) := by
    rw [← Piece.splice_editsFrom, Piece.join_ofText, ← h.eq_editsFrom]
  rw [hsplice]
  obtain ⟨rs, hrewrites, hrs, -⟩ := @Piece.exists_rewrites_of_cut .none _ _ _ _ _ [] _ hpieces
    (Piece.ofText_rewriteFrom hcut (Renaming.noQuoteJoined_none _ _) 0) (by simp) (by simp) fun _ _ => rfl
  exact ⟨rs, hrewrites, hrs⟩

/-- The new file declares what the old one does, and those enumerations are scoped behind whose keyword ` class`
has been put in. -/
theorem exists_pairs (h : IsScopingBatch text edits) :
    ∃ pairs : List (Entity × Entity), pairs.map (·.1) = (extract (tokens text)).entities ∧
      pairs.map (·.2) = (extract (tokens (splice 0 text edits))).entities ∧
      ∀ z ∈ pairs, IsScopedIf (∃ keyword, z.1.keyword = some keyword ∧ keyword.scopeEdit ∈ edits) z.1 z.2 := by
  obtain ⟨rs, hrewrites, hrs⟩ := h.exists_rewrites
  have hrespects : ∀ r ∈ rs, r.Respects id := fun r hr => (hrs r hr).1
  have hfits : (Rewriting.ofList isRespelling_id hrespects).Fits (Token.code (tokens text)) :=
    fits_of_isScoped isRespelling_id hrespects (fun _ _ _ heq => heq) fun r hr ht hs =>
      h.exists_keyword ht ((hrs r hr).2.mp hs).2
  obtain ⟨pairs, hold, hnew, hpairs⟩ := hrewrites.exists_pairs hfits
  refine ⟨pairs, hold, hnew, fun z hz => .of_enum (hpairs z hz).kind_eq fun henum => ?_⟩
  have hmem : z.1 ∈ (extract (tokens text)).entities := hold ▸ List.mem_map_of_mem hz
  rcases (hpairs z hz).eq with hfollows | ⟨r, -, -, hnamed, -⟩
  · have hscope : z.2.scope = z.1.scope := by rw [hfollows.eq]
    have hscoped := congrArg Entity.isScopedEnum hfollows.eq
    refine ⟨hfollows.name_eq (isSpecial_of_kind hmem (by simp [henum]) (by simp [henum])), hscope, ?_⟩
    rw [hscoped, Bool.or_eq_true, Option.any_eq_true]
    refine or_congr Iff.rfl (exists_congr fun keyword => and_congr_right fun hkeyword => ?_)
    -- the keyword is an `enum` of the file
    rcases entity_cases hmem with ⟨-, -, hheads⟩ | ⟨_, -, -, hdefines⟩
    · have hhead := hheads keyword hkeyword
      have hkind : keyword.kind = .keyword .enumKw := by
        obtain ⟨_, -, -, hkind, -⟩ := id hhead
        simpa [Token.isKeyword] using hkind henum
      obtain ⟨r, hr, rfl⟩ := hrewrites.exists_old (List.mem_filter.mp hhead.mem.1).1
      rw [Rewriting.scopes_old hrewrites.nodup hr, (hrs r hr).2, and_iff_right hkind]
      exact List.contains_iff_mem
    · exact absurd (hdefines.keyword.symm.trans hkeyword) (by simp)
  · exact absurd (hnamed.kind.symm.trans henum) (by decide)

end IsScopingBatch

/-! ## The fixes of the enumerations of a file -/

namespace UnscopedEnumRule

/-- What the rule has to say about a file. -/
def violations (f : SourceFile) : List Violation := (detectEnabled f).filter (·.ruleId == info.id)

/-- The edits of the rule that may be applied without asking. -/
def openEdits (f : SourceFile) : List Edit := (fixableViolations (violations f)).flatMap (·.edits)

/-- An enumeration is reported, and its fix may be applied without asking. -/
def IsFixed (f : SourceFile) (e : Entity) : Prop := ∃ w, checkEntity f e = some w ∧ IsApplied f info w

instance (f : SourceFile) (e : Entity) : Decidable (IsFixed f e) :=
  decidable_of_iff ((checkEntity f e).any fun w => decide (IsApplied f info w)) (by
    rw [Option.any_eq_true]
    exact exists_congr fun w => and_congr_right fun _ => decide_eq_true_iff)

section

variable {config : Config} {isOneOfMany : Bool} {path : SourcePath} {text : Text}

theorem IsFixed.isScoped {e : Entity} (he : e ∈ (extract (tokens text)).entities)
    (h : IsFixed (.ofText config isOneOfMany path text) e) : ∃ keyword, IsScoped text e keyword := by
  obtain ⟨w, hw, -⟩ := h
  obtain ⟨hkind, hunscoped, -, keyword, -, hkeyword, -⟩ := checkEntity_eq_some hw
  exact ⟨keyword, he, hkind, hunscoped, hkeyword⟩

/-- The edits of the rule put ` class` in behind the enumerations that are fixed. -/
theorem mem_openEdits_iff {edit : Edit} :
    edit ∈ openEdits (.ofText config isOneOfMany path text) ↔
      ∃ e ∈ (extract (tokens text)).entities, IsFixed (.ofText config isOneOfMany path text) e ∧
        ∃ keyword, e.keyword = some keyword ∧ edit = keyword.scopeEdit := by
  constructor
  · intro h
    obtain ⟨v, hv, hedit⟩ := List.mem_flatMap.mp h
    obtain ⟨hv, hfixable⟩ := List.mem_filter.mp hv
    obtain ⟨hv, hid⟩ := List.mem_filter.mp hv
    obtain ⟨r, hbuiltin, -, w, hw, -, -, heq⟩ :=
      mem_fixableViolations_iff.mp (List.mem_filter.mpr ⟨hv, hfixable⟩)
    have hrule : r.info.id = info.id := by
      rw [← (isOf_of_mem_reports hbuiltin hw).ruleId_eq, ← ruleId_withSeverity _ w, ← heq]
      simpa using hid
    rw [Rule.eq_of_id (s := .total info check) hbuiltin (by simp [Rule.builtin]) hrule, reports_total] at hw
    obtain ⟨e, he, hw⟩ := List.mem_filterMap.mp hw
    obtain ⟨-, -, _, keyword, -, hkeyword, _, _, hreport⟩ := checkEntity_eq_some hw
    refine ⟨e, he, ⟨w, hw, ?_⟩, keyword, hkeyword, ?_⟩
    · rw [hrule] at heq
      show withSeverity (config.ruleSettings info.id).severity w ∈ _
      rw [← heq]
      exact List.mem_filter.mpr ⟨hv, hfixable⟩
    · rw [heq, edits_withSeverity, hreport] at hedit
      exact List.mem_singleton.mp hedit
  · rintro ⟨e, he, ⟨w, hw, happlied⟩, keyword, hkeyword, rfl⟩
    obtain ⟨-, -, _, keyword', -, hkeyword', _, _, hreport⟩ := checkEntity_eq_some hw
    obtain rfl := Option.some.inj (hkeyword.symm.trans hkeyword')
    obtain ⟨hmem, hfixable⟩ := List.mem_filter.mp happlied
    refine List.mem_flatMap.mpr ⟨_, List.mem_filter.mpr ⟨List.mem_filter.mpr ⟨hmem, ?_⟩, hfixable⟩, ?_⟩
    · rw [ruleId_withSeverity, hreport]
      exact beq_self_eq_true info.id
    · rw [edits_withSeverity, hreport]
      exact List.mem_singleton_self _

/-- The fixes of the enumerations of a file are applied, and the new file declares what the old one does, with
the enumerations scoped that are fixed. -/
theorem exists_scoped_file (config : Config) (isOneOfMany : Bool) (path : SourcePath) (text : Text) :
    ∃ updated, applyFixes text (violations (.ofText config isOneOfMany path text)) = .ok updated ∧
      ∃ pairs : List (Entity × Entity), pairs.map (·.1) = (extract (tokens text)).entities ∧
        pairs.map (·.2) = (extract (tokens updated)).entities ∧
        ∀ z ∈ pairs, IsScopedIf (IsFixed (.ofText config isOneOfMany path text) z.1) z.1 z.2 := by
  have hinsertions : ∀ e ∈ openEdits (.ofText config isOneOfMany path text),
      ∃ a keyword, IsScoped text a keyword ∧ e = keyword.scopeEdit := by
    intro e he
    obtain ⟨a, ha, hfixed, keyword, hkeyword, rfl⟩ := mem_openEdits_iff.mp he
    obtain ⟨keyword', hscoped⟩ := hfixed.isScoped ha
    obtain rfl := Option.some.inj (hkeyword.symm.trans hscoped.keyword_eq)
    exact ⟨a, keyword, hscoped, rfl⟩
  obtain ⟨planned, hplan⟩ : ∃ planned,
      planEdits text.length (openEdits (.ofText config isOneOfMany path text)) = .ok planned := by
    refine exists_planEdits_iff.mpr ⟨fun e he => ?_, fun a ha b hb => ?_⟩
    · obtain ⟨_, keyword, hscoped, rfl⟩ := hinsertions e he
      exact hscoped.within
    · obtain ⟨_, keyword, -, rfl⟩ := hinsertions a ha
      obtain ⟨_, keyword', -, rfl⟩ := hinsertions b hb
      exact keyword.eq_or_not_overlaps_scopeEdit keyword'
  obtain ⟨hmem, hwithin, hbefore⟩ := planEdits_ok hplan
  have hbatch : IsScopingBatch text planned := ⟨fun e he => hinsertions e ((hmem e).mp he), hbefore⟩
  have hsplice : applyEdits text planned = splice 0 text planned := applyEdits_eq_splice hwithin hbefore
  obtain ⟨pairs, hold, hnew, hpairs⟩ := hbatch.exists_pairs
  rw [← hsplice] at hnew
  have hkinds : entityKinds (applyEdits text planned) = entityKinds text := by
    rw [entityKinds, entityKinds, ← hold, ← hnew, List.map_map, List.map_map]
    exact List.map_congr_left fun z hz => (hpairs z hz).kind
  refine ⟨_, applyFixes_eq_ok_iff.mpr ⟨planned, hplan, rfl, hkinds⟩, pairs, hold, hnew, fun z hz => ?_⟩
  have hin : z.1 ∈ (extract (tokens text)).entities := hold ▸ List.mem_map_of_mem hz
  have hiff : (∃ keyword, z.1.keyword = some keyword ∧ keyword.scopeEdit ∈ planned) ↔
      IsFixed (.ofText config isOneOfMany path text) z.1 := by
    constructor
    · rintro ⟨keyword, hkeyword, hedit⟩
      -- the keyword is that of an enumeration that is fixed, and so of this one
      obtain ⟨a, ha, hfixed, keyword', hkeyword', heq⟩ := mem_openEdits_iff.mp ((hmem _).mp hedit)
      obtain rfl := Token.scopeEdit_inj (mem_tokens_of_keyword hin hkeyword) (mem_tokens_of_keyword ha hkeyword') heq
      rwa [eq_of_keyword_eq hin ha hkeyword hkeyword']
    · intro hfixed
      obtain ⟨keyword, hscoped⟩ := hfixed.isScoped hin
      exact ⟨keyword, hscoped.keyword_eq,
        (hmem _).mpr (mem_openEdits_iff.mpr ⟨z.1, hin, hfixed, keyword, hscoped.keyword_eq, rfl⟩)⟩
  rw [← hiff]
  exact hpairs z hz

end

/-! ## Uses of enumerators -/

/-- The scope of the braces of an enumeration. -/
def body? (f : SourceFile) (e : Entity) : Option Scope := e.bodyScope.bind f.model.scope?

/-- The names of the enumerators of an enumeration. -/
def enumerators (f : SourceFile) (e : Entity) : List Text :=
  ((e.bodyScope.elim [] f.model.entitiesIn).filter (·.kind == .enumVariant)).map (·.name)

/-- A token stands outside the braces of an enumeration. -/
def IsOutside (f : SourceFile) (e : Entity) (t : Token) : Prop :=
  (body? f e).any (fun body => !(body.start ≤ t.start && t.start < body.stop)) = true

instance (f : SourceFile) (e : Entity) (t : Token) : Decidable (IsOutside f e t) :=
  inferInstanceAs (Decidable (_ = _))

/-- A token of the code outside the braces of an enumeration has the name of one of its enumerators. -/
structure IsUse (f : SourceFile) (e : Entity) (before : List Token) (use : Token) (after : List Token) :
    Prop where
  code : f.code = before ++ use :: after
  isIdentifier : use.isIdentifier = true
  name : use.text ∈ enumerators f e
  outside : IsOutside f e use

/-- A name with this code in front of it is that of a member. -/
def IsMember (before : List Token) : Prop := before.getLast?.any (·.isOneOf [.dot, .arrow]) = true

/-- A name with this code in front of it is qualified, by whatever stands in front of the `::`. -/
def IsQualified (before : List Token) : Prop := before.getLast?.any (·.isPunct .scope) = true

/-- A name with this code in front of it is qualified by the name of an enumeration. -/
def IsQualifiedBy (e : Entity) (before : List Token) : Prop :=
  IsQualified before ∧ before.dropLast.getLast?.any (fun t => t.isIdentifier && t.text == e.name) = true

instance (before : List Token) : Decidable (IsMember before) := inferInstanceAs (Decidable (_ = _))

instance (before : List Token) : Decidable (IsQualified before) := inferInstanceAs (Decidable (_ = _))

instance (e : Entity) (before : List Token) : Decidable (IsQualifiedBy e before) :=
  inferInstanceAs (Decidable (_ ∧ _))

/-- A word of a directive outside the braces of an enumeration is the name of one of its enumerators. -/
structure IsWordUse (f : SourceFile) (e : Entity) (directive : Token) (before word after : Text) : Prop where
  mem : directive ∈ f.directives
  text : directive.text = before ++ word ++ after
  name : word ∈ enumerators f e
  start : ∀ g, before.getLast? = some g → Lexeme.continuesWord g = false
  stop : ∀ g, after.head? = some g → Lexeme.continuesWord g = false
  outside : IsOutside f e directive

/-- A word with this text in front of it is the name of a member. -/
def IsMemberWord (before : Text) : Prop :=
  Text.ofString "." <:+ Blank.trimText before ∨ Text.ofString "->" <:+ Blank.trimText before

/-- A word with this text in front of it is qualified by the name of an enumeration. -/
def IsWordQualifiedBy (e : Entity) (before : Text) : Prop :=
  ∃ front, Blank.trimText before = front ++ Text.ofString "::" ∧
    ∃ more, Blank.trimText front = more ++ e.name ∧ ∀ g, more.getLast? = some g → Lexeme.continuesWord g = false

theorem isOneOf_signs {t : Token} :
    t.isOneOf [.scope, .dot, .arrow] = true ↔ t.isOneOf [.dot, .arrow] = true ∨ t.isPunct .scope = true := by
  unfold Token.isOneOf Token.isPunct
  cases t.kind <;> simp [or_comm]

/-- No use is unqualified if there is a sign of qualification or a member in front of each. -/
theorem unqualifiedUse_eq_none_iff {names : List Text} {body : Scope} {before : Option Token} {ts : List Token} :
    unqualifiedUse? names body before ts = none ↔
      ∀ front t back, ts = front ++ t :: back → t.isIdentifier = true → t.text ∈ names →
        (!(body.start ≤ t.start && t.start < body.stop)) = true →
        (front.getLast?.or before).any (·.isOneOf [.scope, .dot, .arrow]) = true := by
  induction ts generalizing before with
  | nil => simp [unqualifiedUse?]
  | cons u ts ih =>
    -- what stands in front of a later token does not depend on what stood in front of the first
    have hlast : ∀ front : List Token, (u :: front).getLast?.or before = front.getLast?.or (some u) := by
      intro front
      rw [List.getLast?_cons, Option.some_or]
      cases front.getLast? <;> rfl
    have huse : (u.isIdentifier && names.contains u.text && !(body.start ≤ u.start && u.start < body.stop) &&
        !before.any (·.isOneOf [.scope, .dot, .arrow])) = true ↔
        u.isIdentifier = true ∧ u.text ∈ names ∧ (!(body.start ≤ u.start && u.start < body.stop)) = true ∧
          before.any (·.isOneOf [.scope, .dot, .arrow]) ≠ true := by
      simp only [Bool.and_eq_true, Bool.not_eq_true', List.contains_iff_mem, and_assoc, ne_eq, Bool.not_eq_true]
    rw [unqualifiedUse?]
    split
    -- the first token is such a use itself
    · next h =>
      obtain ⟨hid, hname, houtside, hnot⟩ := huse.mp h
      exact iff_of_false (by simp) fun hall => hnot (hall [] u ts rfl hid hname houtside)
    · next h =>
      rw [ih]
      constructor
      · intro hall front t back heq hid hname houtside
        cases front with
        | nil =>
          obtain ⟨rfl, rfl⟩ := List.cons.inj heq
          by_contra hnot
          exact h (huse.mpr ⟨hid, hname, houtside, hnot⟩)
        | cons v front =>
          obtain ⟨rfl, rfl⟩ := List.cons.inj heq
          rw [hlast]
          exact hall front t back rfl hid hname houtside
      · intro hall front t back heq hid hname houtside
        rw [← hlast]
        exact hall (u :: front) t back (by rw [heq]; rfl) hid hname houtside

/-- Without enumerators there are no uses of them, so these need not be told apart. -/
theorem leak_eq_none_iff {f : SourceFile} {b : Nat} {body : Scope} (h : f.model.scope? b = some body) :
    leak? f b = none ↔
      unqualifiedUse? (((f.model.entitiesIn b).filter (·.kind == .enumVariant)).map (·.name)) body none f.code =
        none := by
  unfold leak?
  rw [h]
  dsimp only
  generalize ((f.model.entitiesIn b).filter (·.kind == .enumVariant)).map (·.name) = names
  cases names with
  | nil => exact iff_of_true rfl (unqualifiedUse_eq_none_iff.mpr fun _ _ _ _ _ hname => absurd hname (by simp))
  | cons => exact Iff.rfl

theorem obstacle_eq_none_iff {f : SourceFile} {b : Nat} :
    obstacle? f b = none ↔ leak? f b = none ∧ f.isOneOfMany = false := by
  unfold obstacle?
  cases leak? f b <;> simp

/-- In the code, every use of an enumerator of an enumeration that is fixed is a member or qualified. -/
theorem uses_qualified {f : SourceFile} {e : Entity} (hfixed : IsFixed f e) {before after : List Token}
    {use : Token} (huse : IsUse f e before use after) : IsMember before ∨ IsQualified before := by
  obtain ⟨w, hw, happlied⟩ := hfixed
  obtain ⟨-, -, body, _, hbody, -, _, _, hreport⟩ := checkEntity_eq_some hw
  have hfixable := (List.mem_filter.mp happlied).2
  rw [isFixable_withSeverity, hreport] at hfixable
  have hnone : obstacle? f body = none := by
    simpa [RuleInfo.violation] using (Violation.facts_of_isFixable hfixable).1
  obtain ⟨hleak, -⟩ := obstacle_eq_none_iff.mp hnone
  obtain ⟨scope, hscope, houtside⟩ := (Option.any_eq_true _ _).mp huse.outside
  have hnames : enumerators f e = ((f.model.entitiesIn body).filter (·.kind == .enumVariant)).map (·.name) := by
    rw [enumerators, hbody]
    rfl
  rw [body?, hbody, Option.bind_some] at hscope
  rw [leak_eq_none_iff hscope, ← hnames] at hleak
  have hsign := unqualifiedUse_eq_none_iff.mp hleak before use after huse.code huse.isIdentifier huse.name houtside
  rw [Option.or_none] at hsign
  obtain ⟨sign, hlast, hkind⟩ := (Option.any_eq_true _ _).mp hsign
  unfold IsMember IsQualified
  rw [hlast]
  exact isOneOf_signs.mp hkind

/-! ## What an enumeration means -/

/-- An entity declares the name of an enumeration in its scope, as an enumeration. -/
def Redeclares (e d : Entity) : Prop := d.kind = .enum ∧ d.name = e.name ∧ d.scope = e.scope

instance (e d : Entity) : Decidable (Redeclares e d) := inferInstanceAs (Decidable (_ ∧ _))

/-- Among some entities all declarations of an enumeration are scoped, or none is. -/
def Agree (e : Entity) (es : List Entity) : Prop :=
  ∀ a ∈ es, ∀ b ∈ es, Redeclares e a → Redeclares e b → a.isScopedEnum = b.isScopedEnum

/-- A file keeps what an enumeration means in it when it is rewritten: the names of the enumerators stand where
a scoped enumeration has them, and all declarations of it agree in the new file. -/
structure KeepsMeaning (f : SourceFile) (e : Entity) (updated : Text) : Prop where
  code : ∀ before use after, IsUse f e before use after → IsMember before ∨ IsQualifiedBy e before
  directives : ∀ directive before word after, IsWordUse f e directive before word after →
    IsMemberWord before ∨ IsWordQualifiedBy e before
  declarations : Agree e (extract (tokens updated)).entities

section

variable {config : Config} {isOneOfMany : Bool} {path : SourcePath} {text : Text} {e : Entity}

/-- When all declarations of an enumeration that is fixed agree in the new file. -/
theorem exists_agree_iff (he : e ∈ (extract (tokens text)).entities)
    (hfixed : IsFixed (.ofText config isOneOfMany path text) e) :
    ∃ updated, applyFixes text (violations (.ofText config isOneOfMany path text)) = .ok updated ∧
      (Agree e (extract (tokens updated)).entities ↔ ∀ d ∈ (extract (tokens text)).entities, Redeclares e d →
        d.isScopedEnum = true ∨ IsFixed (.ofText config isOneOfMany path text) d) := by
  obtain ⟨updated, happlied, pairs, hold, hnew, hpairs⟩ := exists_scoped_file config isOneOfMany path text
  refine ⟨updated, happlied, ?_⟩
  have hredeclares : ∀ z ∈ pairs, Redeclares e z.2 ↔ Redeclares e z.1 := by
    intro z hz
    have hz := hpairs z hz
    unfold Redeclares
    rw [hz.kind]
    refine and_congr_right fun h => ?_
    rw [hz.name h, hz.scope h]
  rw [← hold, ← hnew]
  unfold Agree
  simp only [List.forall_mem_map]
  constructor
  · intro hagree z hz hdeclares
    rw [← hold] at he
    obtain ⟨y, hy, rfl⟩ := List.mem_map.mp he
    obtain ⟨_, -, hkind, -⟩ := hfixed.isScoped (hold ▸ List.mem_map_of_mem hy)
    have hscoped := ((hpairs y hy).isScopedEnum hkind).mpr (Or.inr hfixed)
    rw [hagree y hy z hz ((hredeclares y hy).mpr ⟨hkind, rfl, rfl⟩) ((hredeclares z hz).mpr hdeclares)] at hscoped
    exact ((hpairs z hz).isScopedEnum hdeclares.1).mp hscoped
  · intro hall y hy z hz hdeclares hdeclares'
    have hscoped : ∀ z ∈ pairs, Redeclares e z.2 → z.2.isScopedEnum = true := by
      intro z hz h
      have h := (hredeclares z hz).mp h
      exact ((hpairs z hz).isScopedEnum h.1).mpr (hall z hz h)
    rw [hscoped y hy hdeclares, hscoped z hz hdeclares']

/-- The fix of an enumeration keeps what it means exactly when `::` in front of an enumerator always stands
behind the name of the enumeration, directives name its enumerators only as members or behind its name, and all
other declarations of it are scoped already or fixed themselves. -/
theorem meaning_kept_iff (he : e ∈ (extract (tokens text)).entities)
    (hfixed : IsFixed (.ofText config isOneOfMany path text) e) :
    let f := SourceFile.ofText config isOneOfMany path text
    (∀ before use after, IsUse f e before use after → IsMember before ∨ IsQualified before) ∧
      ∃ updated, applyFixes text (violations f) = .ok updated ∧
        (KeepsMeaning f e updated ↔
          (∀ before use after, IsUse f e before use after → IsQualified before → IsQualifiedBy e before) ∧
            (∀ directive before word after, IsWordUse f e directive before word after →
              IsMemberWord before ∨ IsWordQualifiedBy e before) ∧
            ∀ d ∈ (extract (tokens text)).entities, Redeclares e d → d.isScopedEnum = true ∨ IsFixed f d) := by
  intro f
  obtain ⟨updated, happlied, hagree⟩ := exists_agree_iff he hfixed
  refine ⟨fun _ _ _ => uses_qualified hfixed, updated, happlied, ?_⟩
  constructor
  · rintro ⟨hcode, hdirectives, hdeclarations⟩
    refine ⟨fun before use after huse hqualified => ?_, hdirectives, hagree.mp hdeclarations⟩
    refine (hcode before use after huse).resolve_left ?_
    obtain ⟨sign, hlast, hsign⟩ := (Option.any_eq_true _ _).mp hqualified
    have hkind : sign.kind = .punct .scope := by simpa [Token.isPunct] using hsign
    rw [IsMember, hlast]
    simp [Token.isOneOf, hkind]
  · rintro ⟨hcode, hdirectives, hdeclarations⟩
    refine ⟨fun before use after huse => ?_, hdirectives, hagree.mpr hdeclarations⟩
    exact (uses_qualified hfixed huse).imp_right (hcode before use after huse)

end

/-- An enumerator that is used behind the name of its enumeration. -/
def qualifiedUse : Text := Text.ofString "enum Color \x7b Red \x7d;\nint pick() \x7b return Color::Red; \x7d\n"

set_option maxRecDepth 10000 in
theorem meaning_kept_qualified :
    ∃ e ∈ (extract (tokens qualifiedUse)).entities,
      IsFixed (.ofText {} false (.ofString "a.cpp") qualifiedUse) e ∧
        ∃ updated, applyFixes qualifiedUse (violations (.ofText {} false (.ofString "a.cpp") qualifiedUse)) =
          .ok updated ∧ KeepsMeaning (.ofText {} false (.ofString "a.cpp") qualifiedUse) e updated := by
  obtain ⟨e, he, hdirectives, hfixed, huses, hdeclared⟩ :=
    SourceFile.exists_entity_of_asRead {} false (.ofString "a.cpp") qualifiedUse 0
      (P := fun f e => f.directives = [] ∧ IsFixed f e ∧
        (∀ n < f.code.length, ∀ use ∈ f.code[n]?, use.text ∈ enumerators f e → IsOutside f e use →
          IsQualified (f.code.take n) → IsQualifiedBy e (f.code.take n)) ∧
        ∀ d ∈ f.model.entities, Redeclares e d → d.isScopedEnum = true ∨ IsFixed f d)
      (by
        rw [qualifiedUse, Text.ofString_ofList]
        decide +kernel)
  have he := List.mem_of_getElem? he
  obtain ⟨-, updated, happlied, hiff⟩ := meaning_kept_iff he hfixed
  refine ⟨e, he, hfixed, updated, happlied, hiff.mpr ⟨fun before use after huse => ?_, ?_, hdeclared⟩⟩
  · have hcode := huse.code
    have hlt : before.length < (SourceFile.ofText {} false (.ofString "a.cpp") qualifiedUse).code.length := by
      rw [hcode, List.length_append, List.length_cons]
      omega
    have := huses before.length hlt use (by rw [hcode]; simp) huse.name huse.outside
    rwa [hcode, List.take_left] at this
  · intro directive before word after huse
    have := huse.mem
    rw [hdirectives] at this
    exact absurd this List.not_mem_nil

/-- An enumerator behind a `::` with nothing in front of it. -/
def globalUse : Text := Text.ofString "enum Color \x7b Red \x7d;\nint x = ::Red;\n"

/-- An enumerator that a macro stands for. -/
def useInMacro : Text := Text.ofString "enum Color \x7b Red \x7d;\n#define D Red\n"

/-- An enumeration that is declared without braces, too. -/
def declaredAhead : Text := Text.ofString "enum Color : int;\nenum Color : int \x7b Red \x7d;\n"

/-- A file with this text has an enumeration that is fixed and does not keep what it means. -/
def LosesMeaning (text : Text) : Prop :=
  ∃ e ∈ (extract (tokens text)).entities, IsFixed (.ofText {} false (.ofString "a.cpp") text) e ∧
    ∃ updated, applyFixes text (violations (.ofText {} false (.ofString "a.cpp") text)) = .ok updated ∧
      ¬ KeepsMeaning (.ofText {} false (.ofString "a.cpp") text) e updated

set_option maxRecDepth 10000 in
/-- An enumeration that is fixed loses what it means: to a `::` that is not its own, in a directive, or between
its declarations. -/
theorem exists_lost_meaning :
    LosesMeaning globalUse ∧ LosesMeaning useInMacro ∧ LosesMeaning declaredAhead := by
  refine ⟨?_, ?_, ?_⟩
  · obtain ⟨e, he, hfixed, n, -, use, hn, hid, hname, houtside, hmember, hqualified⟩ :=
      SourceFile.exists_entity_of_asRead {} false (.ofString "a.cpp") globalUse 0
        (P := fun f e => IsFixed f e ∧ ∃ n ∈ List.range f.code.length, ∃ use ∈ f.code[n]?,
          use.isIdentifier = true ∧ use.text ∈ enumerators f e ∧ IsOutside f e use ∧
            ¬ IsMember (f.code.take n) ∧ ¬ IsQualifiedBy e (f.code.take n))
        (by
          rw [globalUse, Text.ofString_ofList]
          decide +kernel)
    have he := List.mem_of_getElem? he
    obtain ⟨updated, happlied, -⟩ := exists_agree_iff he hfixed
    refine ⟨e, he, hfixed, updated, happlied, fun hkept => ?_⟩
    obtain ⟨hlt, rfl⟩ := List.getElem?_eq_some_iff.mp hn
    have hcode := (List.take_append_drop n (SourceFile.ofText {} false (.ofString "a.cpp") globalUse).code).symm
    rw [List.drop_eq_getElem_cons hlt] at hcode
    exact (hkept.code _ _ _ ⟨hcode, hid, hname, houtside⟩).elim hmember hqualified
  · obtain ⟨e, he, hfixed, directive, hdirective, htext, hname, houtside⟩ :=
      SourceFile.exists_entity_of_asRead {} false (.ofString "a.cpp") useInMacro 0
        (P := fun f e => IsFixed f e ∧ ∃ directive ∈ f.directives, directive.text = Text.ofString "#define D Red" ∧
          Text.ofString "Red" ∈ enumerators f e ∧ IsOutside f e directive)
        (by
          rw [useInMacro, Text.ofString_ofList]
          decide +kernel)
    have he := List.mem_of_getElem? he
    obtain ⟨updated, happlied, -⟩ := exists_agree_iff he hfixed
    refine ⟨e, he, hfixed, updated, happlied, fun hkept => ?_⟩
    have hword := hkept.directives directive (Text.ofString "#define D ") (Text.ofString "Red") []
      ⟨hdirective, htext, hname, by decide, by simp, houtside⟩
    rcases hword with hmember | ⟨front, hsign, -⟩
    · exact absurd hmember (by unfold IsMemberWord; decide)
    · have hsuffix : Text.ofString "::" <:+ Blank.trimText (Text.ofString "#define D ") := ⟨front, hsign.symm⟩
      exact absurd hsuffix (by decide)
  · obtain ⟨e, he, hfixed, d, hd, hredeclares, hunscoped, hleft⟩ :=
      SourceFile.exists_entity_of_asRead {} false (.ofString "a.cpp") declaredAhead 1
        (P := fun f e => IsFixed f e ∧
          ∃ d ∈ f.model.entities, Redeclares e d ∧ d.isScopedEnum = false ∧ ¬ IsFixed f d)
        (by
          rw [declaredAhead, Text.ofString_ofList]
          decide +kernel)
    have he := List.mem_of_getElem? he
    obtain ⟨updated, happlied, hiff⟩ := exists_agree_iff he hfixed
    refine ⟨e, he, hfixed, updated, happlied, fun hkept => ?_⟩
    rcases hiff.mp hkept.declarations d hd hredeclares with hscoped | hfixed'
    · exact absurd (hunscoped.symm.trans hscoped) (by decide)
    · exact hleft hfixed'

end UnscopedEnumRule

end HouseStyle
