import HouseStyle.Proofs.InOrder
import HouseStyle.Proofs.LiteralContents

/-!
# What is reported whatever strings say

Files that differ in what their string literals say are reported alike: the same rules report the same
places, in the same order (`marks_eq`). Two rules look at joined texts, though. Neighbouring parameters are of
one type if their types are written alike, literals included, so a literal in the type of a parameter can make
two types the same or different. And the initializer of a pointer is searched as a text. Reports of these two
rules are left open where the answer to such a test changes (`isDisputed`), and only there.

All other tests are made on tokens. A step of a rule on a file is therefore compared with the step on the
other file at the token in the same place (`FileRequoted`).
-/

namespace HouseStyle

/-- What a report is about: the rule and the place. -/
def Violation.mark (v : Violation) : String × Option Location := (v.ruleId, v.location)

/-- Which neighbouring parameters have types that are written alike. -/
def AdjacentTypesRule.alike : List Parameter → List Bool
  | p :: q :: ps => (q.typeText == p.typeText) :: alike (q :: ps)
  | _ => []

/-- The report depends on what is between the quotes of a literal: in one of the files neighbouring parameters
of a function have types that are written alike and in the other one they have not, or the initializer of a
variable reads like an allocation in just one of the files. -/
def isDisputed (f g : SourceFile) (m : String × Option Location) : Bool :=
  (f.model.entities.zip g.model.entities).any fun z =>
    (m.1 == AdjacentTypesRule.info.id &&
        AdjacentTypesRule.alike z.1.parameters != AdjacentTypesRule.alike z.2.parameters &&
        (z.1.token :: z.1.parameters.filterMap (·.name)).any fun t => m.2 == some (f.tokenLocation t)) ||
      (m.1 == OwnershipRule.info.id &&
        OwnershipRule.allocatesText none z.1.initializer != OwnershipRule.allocatesText none z.2.initializer &&
        m.2 == some (f.tokenLocation z.1.token))

/-! ## Files -/

/-- One file has the tokens of another one with other string literals, and a model that says the same but for
joined texts. -/
structure FileRequoted (F : Token → Token) (f g : SourceFile) : Prop where
  same : ∀ t, SameButQuoted t (F t)
  path : g.path = f.path
  config : g.config = f.config
  code : g.code = f.code.map F
  directives : g.directives = f.directives
  suppressions : g.suppressions = f.suppressions
  entities : List.Forall₂ (EntityRequoted F) f.model.entities g.model.entities
  scope : ∀ i, Option.Rel (fun s s' : Scope => s' = { s with name := s'.name })
    (f.model.scope? i) (g.model.scope? i)
  anomalies : g.model.anomalies = f.model.anomalies.map fun a => (F a.1, F a.2)
  mem_code : ∀ a ∈ f.model.anomalies, a.1 ∈ f.code ∧ a.2 ∈ f.code
  location : ∀ t ∈ f.code, ∀ u ∈ f.code, g.location t.start u.stop = f.location t.start u.stop
  firstLine : g.lineLocation 1 = f.lineLocation 1
  unquoted : ∀ t ∈ f.code, t.isIdentifier = true → .scalar '"' ∉ t.text
  afterType : ∀ us, us ⊆ f.code → afterType? (us.map F) = (afterType? us).map (·.map F)

/-- The line index knows the place of a token. -/
theorem position_of_mem_tokens {text : Text} {t : Token} (h : t ∈ tokens text) :
    (LineIndex.ofText text).position t.start = (t.line, t.column) ∧
      (LineIndex.ofText text).position t.stop = (t.endLine, t.endColumn) := by
  obtain ⟨hline, hcolumn, hendLine, hendColumn⟩ := mem_tokens_place h
  have hstop := stop_le_length h
  have hstart := Nat.le_trans (Nat.le_of_lt (start_lt_stop h)) hstop
  rw [LineIndex.position_ofText hstart, LineIndex.position_ofText hstop, hline, hcolumn, hendLine, hendColumn]
  exact ⟨rfl, rfl⟩

namespace Requotes

variable {F : Token → Token} {a b : Text} (h : Requotes F a b)

include h

/-- A test of kinds that no literal passes picks the same tokens. -/
theorem filter_eq {p : Token → Bool} (hp : ∀ t u : Token, t.kind = u.kind → p t = p u)
    (hliteral : ∀ t : Token, t.kind = .literal → p t = false) :
    (HouseStyle.tokens b).filter p = (HouseStyle.tokens a).filter p := by
  rw [h.tokens, h.relabels.filter_map hp]
  refine (List.map_congr_left fun t ht => ?_).trans (List.map_id _)
  refine (h.same t).eq_of_kind fun hkind => ?_
  rw [List.mem_filter, hliteral t hkind] at ht
  exact absurd ht.2 (by decide)

theorem suppressions_eq :
    Suppressions.ofTokens (HouseStyle.tokens b) = Suppressions.ofTokens (HouseStyle.tokens a) := by
  unfold Suppressions.ofTokens Suppressions.Reading.ofTokens
  rw [h.filter_eq (fun t u hkind => by simp only [Token.isComment, hkind])
    fun t hkind => by simp [Token.isComment, hkind]]

theorem mem_tokens {t : Token} (ht : t ∈ HouseStyle.tokens a) : F t ∈ HouseStyle.tokens b := by
  rw [h.tokens]
  exact List.mem_map_of_mem ht

/-- Tokens stand on the same lines and in the same columns. -/
theorem position_eq {t : Token} (ht : t ∈ HouseStyle.tokens a) :
    (LineIndex.ofText b).position t.start = (LineIndex.ofText a).position t.start ∧
      (LineIndex.ofText b).position t.stop = (LineIndex.ofText a).position t.stop := by
  have hb := position_of_mem_tokens (h.mem_tokens ht)
  rw [(h.same t).place] at hb
  rw [(position_of_mem_tokens ht).1, (position_of_mem_tokens ht).2]
  exact hb

theorem scope_rel (i : Nat) : Option.Rel (fun s s' : Scope => s' = { s with name := s'.name })
    ((extract (HouseStyle.tokens a)).scope? i) ((extract (HouseStyle.tokens b)).scope? i) := by
  obtain ⟨hlen, hscopes⟩ := List.forall₂_iff_get.mp h.relabelled.scopes
  unfold Model.scope?
  rw [← Array.getElem?_toList, ← Array.getElem?_toList]
  by_cases hi : i < (extract (HouseStyle.tokens a)).scopes.toList.length
  · have hi' := hlen ▸ hi
    rw [List.getElem?_eq_getElem hi, List.getElem?_eq_getElem hi']
    refine .some ?_
    have hrel := hscopes i hi hi'
    rw [List.get_eq_getElem, List.get_eq_getElem] at hrel
    generalize (extract (HouseStyle.tokens a)).scopes.toList[i] = s at hrel ⊢
    generalize (extract (HouseStyle.tokens b)).scopes.toList[i] = s' at hrel ⊢
    -- scopes start and end at tokens, and these have not moved
    have hstart : s'.start = s.start := by
      rcases hrel.start with ⟨-, hold, hnew⟩ | ⟨t, -, hold, hnew⟩
      · rw [hold, hnew]
      · rw [hold, hnew, (h.same t).start_eq]
    have hstop : s'.stop = s.stop := by
      rcases hrel.stop with ⟨-, hold, hnew⟩ | ⟨t, -, hold, hnew⟩
      · rw [hold, hnew]
      · rw [hold, hnew, (h.same t).stop_eq]
    have hsame := hrel.same
    rwa [hstart, hstop] at hsame
  · have hi' := hlen ▸ hi
    rw [List.getElem?_eq_none (Nat.le_of_not_lt hi), List.getElem?_eq_none (Nat.le_of_not_lt hi')]
    exact .none

theorem fileRequoted (config : Config) (isOneOfMany : Bool) (path : SourcePath) :
    FileRequoted F (.ofText config isOneOfMany path a) (.ofText config isOneOfMany path b) where
  same := h.same
  path := rfl
  config := rfl
  code := by
    show Token.code (HouseStyle.tokens b) = (Token.code (HouseStyle.tokens a)).map F
    rw [h.tokens]
    exact h.relabels.code_map
  directives := h.filter_eq (fun t u hkind => by simp only [Token.isDirective, hkind])
    fun t hkind => by simp [Token.isDirective, hkind]
  suppressions := h.suppressions_eq
  entities := by
    refine ((List.forall₂_and_left _ _).mpr ⟨fun e he => he, h.relabelled.entities⟩).imp fun e e' hboth => ?_
    exact h.entityRequoted hboth.1 hboth.2
  scope := h.scope_rel
  anomalies := h.relabelled.anomalies
  mem_code := fun pair hpair => by
    change pair ∈ (extract (HouseStyle.tokens a)).anomalies at hpair
    rw [extract_eq] at hpair
    change pair ∈ (Extraction.ofTokens (HouseStyle.tokens a)).anomalies.toList at hpair
    rw [Extraction.anomalies_ofTokens] at hpair
    rcases Extraction.anomalies_readCode (HouseStyle.tokens a) pair hpair with ⟨hsame, hmem⟩ | hsub
    · exact ⟨hmem, hsame ▸ hmem⟩
    · exact ⟨hsub.subset List.mem_cons_self, hsub.subset (List.mem_cons_of_mem _ List.mem_cons_self)⟩
  location := fun t ht u hu => by
    unfold SourceFile.location SourceFile.ofText
    dsimp only
    rw [(h.position_eq (List.mem_filter.mp ht).1).1, (h.position_eq (List.mem_filter.mp hu).1).2]
  firstLine := by
    show SourceFile.location _ 0 0 = SourceFile.location _ 0 0
    unfold SourceFile.location SourceFile.ofText
    dsimp only
    rw [LineIndex.position_ofText (Nat.zero_le _), LineIndex.position_ofText (Nat.zero_le _)]
    rfl
  unquoted := fun t ht hid hquote => by
    -- a name holds no quote, so the texts of identifiers stay
    have hname := isName_text (List.mem_filter.mp ht).1 (beq_iff_eq.mp hid)
    exact absurd (hname.2.1 _ hquote) (by decide)
  afterType := fun us hus => by
    -- a type of words of the code is read as before, since their kinds are
    have hus := List.Subset.trans hus (List.filter_subset_self _)
    rw [← h.relabels.code_eq hus, Rewriting.afterType_code]
    refine Option.map_congr fun rest hrest => ?_
    exact h.relabels.code_eq (List.Subset.trans (suffix_afterType hrest).subset hus)

end Requotes

/-! ## Lists of reports -/

section

variable {α β : Type} {R : α → β → Prop} {xs : List α} {ys : List β}

theorem map_eq_of_forall₂ {γ : Type} {c : α → γ} {c' : β → γ} (h : List.Forall₂ R xs ys)
    (hc : ∀ a b, R a b → c' b = c a) : ys.map c' = xs.map c := by
  induction h with
  | nil => rfl
  | cons hfirst _ ih => rw [List.map_cons, List.map_cons, hc _ _ hfirst, ih]

/-- What is reported of one thing after another is the same if it is for each of them. -/
theorem filter_marks_flatMap {keep : String × Option Location → Bool} {c : α → List Violation}
    {c' : β → List Violation} (h : List.Forall₂ R xs ys)
    (hc : ∀ a b, R a b →
      ((c' b).map Violation.mark).filter keep = ((c a).map Violation.mark).filter keep) :
    ((ys.flatMap c').map Violation.mark).filter keep = ((xs.flatMap c).map Violation.mark).filter keep := by
  induction h with
  | nil => rfl
  | @cons a b xs ys hfirst _ ih =>
    rw [List.flatMap_cons, List.flatMap_cons, List.map_append, List.map_append, List.filter_append,
      List.filter_append, hc a b hfirst, ih]

theorem marks_filterMap {c : α → Option Violation} {c' : β → Option Violation} (h : List.Forall₂ R xs ys)
    (hc : ∀ a b, R a b → (c' b).map Violation.mark = (c a).map Violation.mark) :
    (ys.filterMap c').map Violation.mark = (xs.filterMap c).map Violation.mark := by
  rw [List.map_filterMap, List.map_filterMap]
  induction h with
  | nil => rfl
  | @cons a b xs ys hfirst _ ih => rw [List.filterMap_cons, List.filterMap_cons, hc a b hfirst, ih]

end

/-! ## Rules that look at entities -/

namespace EntityRequoted

variable {F : Token → Token} {e e' : Entity} (h : EntityRequoted F e e')

include h

theorem token_eq : e'.token = e.token := by rw [h.same]

theorem kind_eq : e'.kind = e.kind := by rw [h.same]

theorem isFunction_eq : e'.isFunction = e.isFunction := by
  unfold Entity.isFunction
  rw [h.kind_eq]

theorem isObject_eq : e'.isObject = e.isObject := by
  unfold Entity.isObject
  rw [h.kind_eq]

/-- A use of a name is one in both files. -/
theorem beq_name {s : Text} (hs : .scalar '"' ∉ s) : (s == e'.name) = (s == e.name) := by
  rw [Bool.beq_comm, Bool.beq_comm (a := s)]
  exact h.shown.beq_eq hs

end EntityRequoted

namespace FileRequoted

variable {F : Token → Token} {f g : SourceFile} (h : FileRequoted F f g)

include h

theorem tokenLocation_eq (t : Token) : g.tokenLocation (F t) = f.tokenLocation t :=
  (h.same t).tokenLocation_eq h.path

theorem tokenLocation_self (t : Token) : g.tokenLocation t = f.tokenLocation t :=
  (SameButQuoted.refl t).tokenLocation_eq h.path

theorem tokenLocation_entity {e e' : Entity} (he : EntityRequoted F e e') :
    g.tokenLocation e'.token = f.tokenLocation e.token := by
  rw [he.token_eq, h.tokenLocation_self]

theorem isDataMember_eq {e e' : Entity} (he : EntityRequoted F e e') :
    g.model.isDataMember e' = f.model.isDataMember e := by
  unfold Model.isDataMember
  rw [Entity.isSome_qualifierText, Entity.isSome_qualifierText]
  have hscope := h.scope e.scope
  rw [show e'.kind = e.kind from he.kind_eq, show e'.qualifier = e.qualifier by rw [he.same],
    show e'.scope = e.scope by rw [he.same]]
  congr 2
  generalize f.model.scope? e.scope = a at hscope ⊢
  generalize g.model.scope? e.scope = b at hscope ⊢
  cases hscope with
  | none => rfl
  | some hs => rw [Option.any_some, Option.any_some, hs]

theorem marks_longParameterList :
    (LongParameterListRule.check g).map Violation.mark = (LongParameterListRule.check f).map Violation.mark := by
  have hlimit : g.config.parameterLimit = f.config.parameterLimit := by rw [h.config]
  have hlong : List.Forall₂ (EntityRequoted F)
      (f.model.entities.filter fun e => e.isFunction && decide (f.config.parameterLimit < e.parameters.length))
      (g.model.entities.filter fun e => e.isFunction && decide (g.config.parameterLimit < e.parameters.length)) :=
    List.rel_filter (fun e e' he => by
      dsimp only
      rw [he.isFunction_eq, he.parameters.length_eq, hlimit]) h.entities
  unfold LongParameterListRule.check
  dsimp only
  rw [List.map_map, List.map_map]
  exact map_eq_of_forall₂ hlong fun e e' he =>
    congrArg (fun l => (LongParameterListRule.info.id, some l)) (h.tokenLocation_entity he)

theorem marks_includeGuard :
    (IncludeGuardRule.check g).map Violation.mark = (IncludeGuardRule.check f).map Violation.mark := by
  unfold IncludeGuardRule.check IncludeGuardRule.hasGuard
  rw [h.path, h.directives]
  split
  · rfl
  · exact congrArg (fun l => [(IncludeGuardRule.info.id, some l)]) h.firstLine

/-- A name that can be wrong is the same in both files. -/
theorem marks_naming : (NamingRule.check g).map Violation.mark = (NamingRule.check f).map Violation.mark := by
  refine marks_filterMap h.entities fun e e' he => ?_
  obtain ⟨_, _, hold⟩ := NamingRule.checkEntity_eq f (.ofFile f) e
  obtain ⟨_, _, hnew⟩ := NamingRule.checkEntity_eq g (.ofFile g) e'
  have hskip : (NamingRule.isExempt g.config.naming e' || NamingRule.isCased g.model e') =
      (NamingRule.isExempt f.config.naming e || NamingRule.isCased f.model e) := by
    have hspecial : e'.isSpecial = e.isSpecial := by rw [he.same]
    cases hs : e.isSpecial with
    | true => simp [NamingRule.isExempt, hs, hspecial]
    | false =>
      have hname := he.name hs
      unfold NamingRule.isExempt NamingRule.isCased
      rw [h.isDataMember_eq he, he.kind_eq, hname, h.config, hspecial,
        show e'.isOverride = e.isOverride by rw [he.same], show e'.confidence = e.confidence by rw [he.same]]
  rw [hold, hnew, hskip]
  split
  · rfl
  · exact congrArg (fun l => some (NamingRule.info.id, some l)) (h.tokenLocation_entity he)

theorem marks_unparsed : (UnparsedRule.check g).map Violation.mark = (UnparsedRule.check f).map Violation.mark := by
  unfold UnparsedRule.check
  rw [h.anomalies, List.map_map, List.map_map, List.map_map]
  refine List.map_congr_left fun a ha => ?_
  obtain ⟨hfirst, hlast⟩ := h.mem_code a ha
  have hlocation : g.location (F a.1).start (F a.2).stop = f.location a.1.start a.2.stop := by
    rw [(h.same a.1).start_eq, (h.same a.2).stop_eq]
    exact h.location _ hfirst _ hlast
  exact congrArg (fun l => (UnparsedRule.info.id, some l)) hlocation

theorem marks_unscopedEnum :
    (UnscopedEnumRule.check g).map Violation.mark = (UnscopedEnumRule.check f).map Violation.mark := by
  refine marks_filterMap h.entities fun e e' he => ?_
  have hbody : e'.bodyScope = e.bodyScope := by rw [he.same]
  unfold UnscopedEnumRule.checkEntity
  rw [he.kind_eq, show e'.isScopedEnum = e.isScopedEnum by rw [he.same], hbody, he.keyword]
  split
  · rfl
  · cases e.bodyScope with
    | none => rfl
    | some i =>
      cases e.keyword with
      | none => rfl
      | some t => exact congrArg (fun l => some (UnscopedEnumRule.info.id, some l)) (h.tokenLocation_entity he)

end FileRequoted

/-! ## Casts -/

namespace CastRule

/-- Whether brackets hold the type of a cast, and an operand follows. -/
def isCast (values : List Text) (e : Enclosed) : Bool :=
  match e.inside, e.after with
  | first :: more, operand :: _ =>
    let isName := more.isEmpty && first.isIdentifier
    !((more.isEmpty && first.isKeyword .voidKw) || afterType? e.inside != some [] ||
      (isName && values.contains first.text) || !startsOperand (!isName) operand)
  | _, _ => false

theorem isCast_cons (values : List Text) (first : Token) (more : List Token) (closer operand : Token)
    (others : List Token) :
    isCast values ⟨first :: more, closer, operand :: others⟩ =
      !((more.isEmpty && first.isKeyword .voidKw) || afterType? (first :: more) != some [] ||
        (more.isEmpty && first.isIdentifier && values.contains first.text) ||
        !startsOperand (!(more.isEmpty && first.isIdentifier)) operand) := rfl

theorem mark_checkAt (f : SourceFile) (names : Names) (opener : Token) (after : List Token) :
    (checkAt f names opener after).map Violation.mark =
      (closing? (maxTokens - 1) 0 after).bind fun e =>
        if isCast names.values e then some (info.id, some (f.location opener.start e.closer.stop)) else none := by
  unfold checkAt
  cases closing? (maxTokens - 1) 0 after with
  | none => rfl
  | some e =>
    obtain ⟨inside, closer, rest⟩ := e
    cases inside with
    | nil => rfl
    | cons first more =>
      cases rest with
      | nil => rfl
      | cons operand others =>
        dsimp only [Option.bind_some]
        split
        next hno => exact (if_neg (by rw [isCast_cons, hno]; decide)).symm
        next hyes => exact (if_pos (by rw [isCast_cons, Bool.not_eq_true _ |>.mp hyes]; rfl)).symm

/-- Names stand for values in both files, as far as they are names. -/
theorem contains_values {F : Token → Token} {f g : SourceFile} (h : FileRequoted F f g) {s : Text}
    (hs : .scalar '"' ∉ s) :
    (Names.ofModel g.model).values.contains s = (Names.ofModel f.model).values.contains s := by
  have hvalues : List.Forall₂ (EntityRequoted F)
      (f.model.entities.filter fun e => e.isObject || e.kind == .function || e.kind == .method)
      (g.model.entities.filter fun e => e.isObject || e.kind == .function || e.kind == .method) :=
    List.rel_filter (fun e e' he => by
      dsimp only
      rw [he.isObject_eq, he.kind_eq]) h.entities
  unfold Names.ofModel
  dsimp only
  generalize f.model.entities.filter _ = es at hvalues ⊢
  generalize g.model.entities.filter _ = es' at hvalues ⊢
  induction hvalues with
  | nil => rfl
  | cons hfirst _ ih =>
    rw [List.map_cons, List.map_cons, List.contains_cons, List.contains_cons, ih, hfirst.beq_name hs]

/-- Brackets, with the tokens of the other file. -/
def mapped (F : Token → Token) (e : Enclosed) : Enclosed := ⟨e.inside.map F, F e.closer, e.after.map F⟩

/-- Brackets are closed by the token in the same place. -/
theorem closing_map {F : Token → Token} (hF : ∀ t, SameButQuoted t (F t)) (room depth : Nat) (ts : List Token) :
    closing? room depth (ts.map F) = (closing? room depth ts).map (mapped F) := by
  induction ts generalizing room depth with
  | nil => simp [closing?]
  | cons t ts ih =>
    have step : ∀ room depth, (closing? room depth (ts.map F)).map (Enclosed.cons (F t)) =
        ((closing? room depth ts).map (Enclosed.cons t)).map (mapped F) := by
      intro room depth
      rw [ih, Option.map_map, Option.map_map]
      rfl
    rw [List.map_cons, closing?.eq_def, closing?.eq_def room depth (t :: ts)]
    cases room with
    | zero => rfl
    | succ room =>
      dsimp only
      rw [(hF t).isPunct_eq, (hF t).isPunct_eq, (hF t).isOneOf_eq]
      split
      · exact step _ _
      split
      · cases depth with
        | zero => rfl
        | succ depth => exact step _ _
      split
      · rfl
      · exact step _ _

variable {F : Token → Token} {f g : SourceFile}

theorem isCast_mapped (h : FileRequoted F f g) {e : Enclosed} (hinside : e.inside ⊆ f.code) :
    isCast (Names.ofModel g.model).values (mapped F e) = isCast (Names.ofModel f.model).values e := by
  obtain ⟨inside, closer, rest⟩ := e
  cases inside with
  | nil => rfl
  | cons first more =>
    cases rest with
    | nil => rfl
    | cons operand others =>
      -- what stands alone in the brackets is a name, and then it is the same one
      have hvalue : (more.isEmpty && first.isIdentifier &&
            (Names.ofModel g.model).values.contains (F first).text) =
          (more.isEmpty && first.isIdentifier && (Names.ofModel f.model).values.contains first.text) := by
        cases hname : first.isIdentifier with
        | false => rw [Bool.and_false, Bool.false_and, Bool.false_and]
        | true =>
          rw [(h.same first).eq_of_isIdentifier hname,
            contains_values h (h.unquoted first (hinside List.mem_cons_self) hname)]
      have htype : (afterType? ((first :: more).map F) != some []) = (afterType? (first :: more) != some []) := by
        rw [h.afterType _ hinside]
        rcases afterType? (first :: more) with _ | ⟨_ | ⟨t, ts⟩⟩ <;> rfl
      have hoperand : ∀ allowSign, startsOperand allowSign (F operand) = startsOperand allowSign operand := by
        intro allowSign
        unfold startsOperand
        rw [(h.same operand).kind_eq]
      rw [List.map_cons] at htype
      show isCast _ ⟨F first :: more.map F, F closer, F operand :: others.map F⟩ = _
      rw [isCast_cons, isCast_cons, List.isEmpty_map, (h.same first).isIdentifier_eq,
        (h.same first).isKeyword_eq, htype, hvalue, hoperand]

theorem mark_checkAt_map (h : FileRequoted F f g) {opener : Token} {after : List Token}
    (hcode : opener :: after ⊆ f.code) :
    (checkAt g (.ofModel g.model) (F opener) (after.map F)).map Violation.mark =
      (checkAt f (.ofModel f.model) opener after).map Violation.mark := by
  rw [mark_checkAt, mark_checkAt, closing_map h.same]
  cases he : closing? (maxTokens - 1) 0 after with
  | none => rfl
  | some e =>
    rw [(closing_append he).1, List.cons_subset, List.append_subset, List.cons_subset] at hcode
    obtain ⟨hopener, hinside, hcloser, -⟩ := hcode
    have hlocation : g.location (F opener).start (F e.closer).stop = f.location opener.start e.closer.stop := by
      rw [(h.same opener).start_eq, (h.same e.closer).stop_eq]
      exact h.location _ hopener _ hcloser
    rw [Option.map_some, Option.bind_some, Option.bind_some, isCast_mapped h hinside]
    split
    · exact congrArg (fun l => some (info.id, some l)) hlocation
    · rfl

end CastRule

theorem FileRequoted.marks_casts {F : Token → Token} {f g : SourceFile} (h : FileRequoted F f g) :
    (CastRule.check g).map Violation.mark = (CastRule.check f).map Violation.mark := by
  have hfrom : ∀ (ts : List Token) (before : Option Token), ts ⊆ f.code →
      (CastRule.checkFrom g (.ofModel g.model) (before.map F) (ts.map F)).map Violation.mark =
        (CastRule.checkFrom f (.ofModel f.model) before ts).map Violation.mark := by
    intro ts
    induction ts with
    | nil => exact fun _ _ => rfl
    | cons t ts ih =>
      intro before hts
      have hbefore : ((F t).isPunct .lparen && (before.map F).all CastRule.mayPrecede) =
          (t.isPunct .lparen && before.all CastRule.mayPrecede) := by
        congr 1
        · exact (h.same t).isPunct_eq _
        · cases before with
          | none => rfl
          | some u =>
            simp only [Option.map_some, Option.all_some, CastRule.mayPrecede, (h.same u).kind_eq]
      rw [List.map_cons, CastRule.checkFrom, CastRule.checkFrom, List.map_append, List.map_append,
        ← ih (some t) (List.cons_subset.mp hts).2, hbefore]
      congr 1
      split
      · have hat := CastRule.mark_checkAt_map h hts
        rw [← Option.toList_map, ← Option.toList_map, hat]
      · rfl
  unfold CastRule.check
  rw [h.code]
  exact hfrom f.code none (List.Subset.refl _)

/-! ## Parameters of one type -/

namespace AdjacentTypesRule

variable {F : Token → Token}

/-- A run of as many parameters, the first of which is at the same position. -/
structure Run.Same (F : Token → Token) (r r' : Run) : Prop where
  first : ParameterRequoted F r.first r'.first
  length : r'.length = r.length

/-- The first run of a parameter list starts with its first parameter. -/
theorem Run.exists_ofList_cons (before : Nat) (p : Parameter) (ps : List Parameter) :
    ∃ r runs, ofList before (p :: ps) = r :: runs ∧ r.first = p := by
  rw [ofList]
  cases ofList (before + 1) ps with
  | nil => exact ⟨_, _, rfl, rfl⟩
  | cons r runs =>
    rw [cons]
    split
    · exact ⟨_, _, rfl, rfl⟩
    · exact ⟨_, _, rfl, rfl⟩

theorem Run.same_ofList {ps ps' : List Parameter} (h : List.Forall₂ (ParameterRequoted F) ps ps')
    (halike : alike ps = alike ps') (before : Nat) :
    List.Forall₂ (Run.Same F) (ofList before ps) (ofList before ps') := by
  induction h generalizing before with
  | nil => exact .nil
  | @cons p p' ps ps' hfirst hrest ih =>
    cases hrest with
    | nil => exact .cons ⟨hfirst, rfl⟩ .nil
    | @cons q q' ps ps' =>
      obtain ⟨hhead, htail⟩ := List.cons.inj halike
      have hruns := ih htail (before + 1)
      obtain ⟨r, runs, hr, rfl⟩ := exists_ofList_cons (before + 1) q ps
      obtain ⟨r', runs', hr', rfl⟩ := exists_ofList_cons (before + 1) q' ps'
      have hiff : r.typeText = p.typeText ↔ r'.typeText = p'.typeText := by
        rw [← beq_iff_eq, ← beq_iff_eq (a := r'.typeText)]
        exact Bool.eq_iff_iff.mp hhead
      rw [hr, hr'] at hruns
      show List.Forall₂ (Run.Same F) (cons before p (ofList (before + 1) (r.first :: ps)))
        (cons before p' (ofList (before + 1) (r'.first :: ps')))
      rw [hr, hr', cons, cons]
      obtain ⟨hsame, hothers⟩ := List.forall₂_cons.mp hruns
      by_cases htype : r.typeText = p.typeText
      · rw [if_pos htype, if_pos (hiff.mp htype)]
        exact .cons ⟨hfirst, congrArg (· + 1) hsame.length⟩ hothers
      · rw [if_neg htype, if_neg (mt hiff.mpr htype)]
        exact .cons ⟨hfirst, rfl⟩ hruns

/-- The violations of one function. -/
def violationsOf (f : SourceFile) (e : Entity) : List Violation :=
  ((Run.ofList 0 e.parameters).filter fun r => decide (2 ≤ r.length) && !r.typeText.isEmpty).map (violation f e)

theorem check_eq (f : SourceFile) :
    check f = (f.model.entities.filter (·.isFunction)).flatMap (violationsOf f) := rfl

theorem mark_violation (f : SourceFile) (e : Entity) (r : Run) :
    (violation f e r).mark = (info.id, some (f.tokenLocation (r.first.name.getD e.token))) := rfl

variable {f g : SourceFile} {e e' : Entity}

/-- The place of a report is told by the token in the same place. -/
theorem tokenLocation_getD (h : FileRequoted F f g) (he : EntityRequoted F e e') {p p' : Parameter}
    (hp : ParameterRequoted F p p') :
    g.tokenLocation (p'.name.getD e'.token) = f.tokenLocation (p.name.getD e.token) := by
  rw [hp.name, he.token_eq]
  cases p.name with
  | none => exact h.tokenLocation_self _
  | some t => exact h.tokenLocation_eq t

/-- Where the same neighbours have types that are written alike, the same runs are reported. -/
theorem marks_violationsOf (h : FileRequoted F f g) (he : EntityRequoted F e e')
    (halike : alike e.parameters = alike e'.parameters) :
    (violationsOf g e').map Violation.mark = (violationsOf f e).map Violation.mark := by
  have hruns : List.Forall₂ (Run.Same F)
      ((Run.ofList 0 e.parameters).filter fun r => decide (2 ≤ r.length) && !r.typeText.isEmpty)
      ((Run.ofList 0 e'.parameters).filter fun r => decide (2 ≤ r.length) && !r.typeText.isEmpty) :=
    List.rel_filter (fun r r' hr => by
      have hempty : r'.typeText.isEmpty = r.typeText.isEmpty := hr.first.typeText.isEmpty_eq
      dsimp only
      rw [hr.length, hempty]) (Run.same_ofList he.parameters halike 0)
  unfold violationsOf
  rw [List.map_map, List.map_map]
  refine map_eq_of_forall₂ hruns fun r r' hr => ?_
  rw [Function.comp_apply, Function.comp_apply, mark_violation, mark_violation, tokenLocation_getD h he hr.first]

/-- Where they are not the same, the reports are disputed. -/
theorem isDisputed_of_alike (hz : (e, e') ∈ f.model.entities.zip g.model.entities)
    (halike : alike e.parameters ≠ alike e'.parameters) {p : Parameter} (hp : p ∈ e.parameters) :
    isDisputed f g (info.id, some (f.tokenLocation (p.name.getD e.token))) = true := by
  refine List.any_eq_true.mpr ⟨_, hz, ?_⟩
  have hany : ((e.token :: e.parameters.filterMap (·.name)).any fun t =>
      some (f.tokenLocation (p.name.getD e.token)) == some (f.tokenLocation t)) = true := by
    refine List.any_eq_true.mpr ⟨p.name.getD e.token, ?_, beq_self_eq_true _⟩
    cases hname : p.name with
    | none => exact List.mem_cons_self
    | some t => exact List.mem_cons_of_mem _ (List.mem_filterMap.mpr ⟨p, hp, hname⟩)
  dsimp only
  rw [hany, beq_self_eq_true, bne_iff_ne.mpr halike]
  rfl

theorem isDisputed_of_mem_violationsOf (hz : (e, e') ∈ f.model.entities.zip g.model.entities)
    (halike : alike e.parameters ≠ alike e'.parameters) {v : Violation} (hv : v ∈ violationsOf f e) :
    isDisputed f g v.mark = true := by
  obtain ⟨r, hr, rfl⟩ := List.mem_map.mp hv
  exact isDisputed_of_alike hz halike (Run.mem_ofList (List.mem_filter.mp hr).1 List.mem_cons_self)

theorem isDisputed_of_mem_violationsOf' (h : FileRequoted F f g) (he : EntityRequoted F e e')
    (hz : (e, e') ∈ f.model.entities.zip g.model.entities) (halike : alike e.parameters ≠ alike e'.parameters)
    {v : Violation} (hv : v ∈ violationsOf g e') : isDisputed f g v.mark = true := by
  obtain ⟨r, hr, rfl⟩ := List.mem_map.mp hv
  obtain ⟨i, hi, hget⟩ := List.mem_iff_getElem.mp (Run.mem_ofList (List.mem_filter.mp hr).1 List.mem_cons_self)
  obtain ⟨hlen, hparameters⟩ := List.forall₂_iff_get.mp he.parameters
  have hi' : i < e.parameters.length := hlen ▸ hi
  have hsame := hparameters i hi' hi
  rw [List.get_eq_getElem, List.get_eq_getElem, hget] at hsame
  rw [mark_violation, tokenLocation_getD h he hsame]
  exact isDisputed_of_alike hz halike (List.getElem_mem hi')

/-- The reports of one function are the same but for disputed ones. -/
theorem filter_marks_violationsOf (h : FileRequoted F f g) (he : EntityRequoted F e e')
    (hz : (e, e') ∈ f.model.entities.zip g.model.entities) :
    ((violationsOf g e').map Violation.mark).filter (!isDisputed f g ·) =
      ((violationsOf f e).map Violation.mark).filter (!isDisputed f g ·) := by
  by_cases halike : alike e.parameters = alike e'.parameters
  · rw [marks_violationsOf h he halike]
  · have hnone : ∀ vs : List Violation, (∀ v ∈ vs, isDisputed f g v.mark = true) →
        (vs.map Violation.mark).filter (!isDisputed f g ·) = [] := by
      intro vs hvs
      rw [List.filter_eq_nil_iff, List.forall_mem_map]
      intro v hv
      rw [hvs v hv]
      decide
    rw [hnone _ fun v => isDisputed_of_mem_violationsOf' h he hz halike,
      hnone _ fun v => isDisputed_of_mem_violationsOf hz halike]

end AdjacentTypesRule

/-! ## Owning pointers -/

namespace OwnershipRule

variable {F : Token → Token}

theorem head_any_map {p : Token → Bool} (hp : ∀ t, p (F t) = p t) (ts : List Token) :
    (ts.map F).head?.any p = ts.head?.any p := by
  cases ts with
  | nil => rfl
  | cons t ts => exact hp t

variable (hF : ∀ t, SameButQuoted t (F t))

include hF

theorem allocation_map (ts : List Token) : allocation? (ts.map F) = (allocation? ts).map F := by
  induction ts with
  | nil => rfl
  | cons t ts ih =>
    have hword : allocators.any (F t).isWord = allocators.any t.isWord := by
      congr 1
      funext word
      exact (hF t).isWord_eq word
    rw [List.map_cons, allocation?, allocation?, (hF t).isKeyword_eq, hword,
      head_any_map fun t => (hF t).isPunct_eq _, ih]
    split
    · rfl
    split <;> rfl

theorem expression_map (depth : Nat) (ts : List Token) :
    expression depth (ts.map F) = (expression depth ts).map F := by
  induction ts generalizing depth with
  | nil => rfl
  | cons t ts ih =>
    rw [List.map_cons, expression.eq_def, expression.eq_def depth (t :: ts)]
    dsimp only
    rw [(hF t).isOneOf_eq, (hF t).isOneOf_eq, (hF t).isOneOf_eq]
    split
    · rw [ih, List.map_cons]
    split
    · cases depth with
      | zero => rfl
      | succ depth => exact congrArg (F t :: ·) (ih depth)
    split
    · rfl
    · rw [ih, List.map_cons]

theorem source_map (after : List Token) : source? (after.map F) = (source? after).map F := by
  unfold source?
  rw [← List.map_drop, expression_map hF, allocation_map hF]

theorem withoutThis_map (before : List Token) : withoutThis (before.map F) = (withoutThis before).map F := by
  rcases before with _ | ⟨p, _ | ⟨q, rest⟩⟩
  · rfl
  · rfl
  · rw [List.map_cons, List.map_cons, withoutThis, withoutThis, (hF p).isPunct_eq, (hF q).isKeyword_eq]
    split <;> rfl

theorem withoutBounds_map (before : List Token) : withoutBounds (before.map F) = (withoutBounds before).map F := by
  rcases before with _ | ⟨p, _ | ⟨q, rest⟩⟩
  · rfl
  · rfl
  · rw [List.map_cons, List.map_cons, withoutBounds, withoutBounds, (hF p).isPunct_eq, (hF q).isPunct_eq]
    split <;> rfl

theorem release_map (before after : List Token) :
    release? (before.map F) (after.map F) = (release? before after).map F := by
  unfold release?
  rw [withoutThis_map hF, withoutBounds_map hF]
  rcases withoutBounds (withoutThis before) with _ | ⟨p, _ | ⟨q, rest⟩⟩
  · rfl
  · rw [List.map_cons]
    dsimp only [List.map_nil]
    rw [(hF p).isKeyword_eq]
    split <;> rfl
  · rw [List.map_cons, List.map_cons]
    dsimp only
    rw [(hF p).isKeyword_eq, (hF p).isPunct_eq, (hF q).isWord_eq, head_any_map fun t => (hF t).isPunct_eq _]
    split
    · rfl
    split <;> rfl

theorem isOwnUse_map (before : List Token) : isOwnUse (before.map F) = isOwnUse before := by
  cases before with
  | nil => rfl
  | cons p before =>
    rw [List.map_cons, isOwnUse, isOwnUse, (hF p).isPunct_eq, (hF p).isPunct_eq,
      head_any_map fun t => (hF t).isKeyword_eq _]

variable {e e' : Entity} (he : EntityRequoted F e e')

include he

theorem isSome_evidenceAt (isMember : Bool) (before : List Token) (use : Token) (after : List Token) :
    (evidenceAt? e' isMember (before.map F) (F use) (after.map F)).isSome =
      (evidenceAt? e isMember before use after).isSome := by
  unfold evidenceAt?
  dsimp only
  rw [source_map hF, release_map hF, head_any_map fun t => (hF t).isPunct_eq _,
    head_any_map fun t => (hF t).isOneOf_eq _, head_any_map fun t => (hF t).isOneOf_eq _,
    (hF use).start_eq, he.token_eq]
  cases source? after <;> cases release? before after <;> split <;> split <;> rfl

theorem isSome_evidenceFrom (isMember : Bool) {ts : List Token}
    (hunquoted : ∀ t ∈ ts, t.isIdentifier = true → .scalar '"' ∉ t.text) (before : List Token) :
    (evidenceFrom? e' isMember (before.map F) (ts.map F)).isSome = (evidenceFrom? e isMember before ts).isSome := by
  induction ts generalizing before with
  | nil => rfl
  | cons t ts ih =>
    rw [List.forall_mem_cons] at hunquoted
    have hrest := ih hunquoted.2 (t :: before)
    rw [List.map_cons] at hrest
    -- a use of the name in one file is one in the other
    have huse : ((F t).isIdentifier && (F t).text == e'.name && isOwnUse (before.map F)) =
        (t.isIdentifier && t.text == e.name && isOwnUse before) := by
      rw [(hF t).isIdentifier_eq, isOwnUse_map hF]
      cases hid : t.isIdentifier with
      | false => rfl
      | true => rw [(hF t).eq_of_isIdentifier hid, he.beq_name (hunquoted.1 hid)]
    rw [List.map_cons, evidenceFrom?, evidenceFrom?, huse, Option.isSome_or, Option.isSome_or, hrest]
    congr 1
    split
    · exact isSome_evidenceAt hF he isMember before t ts
    · rfl

omit hF he

variable {f g : SourceFile}

/-- A variable can be seen where it can be seen in the other file. -/
theorem visibleCode_map (h : FileRequoted F f g) (he : EntityRequoted F e e') :
    visibleCode g e' = (visibleCode f e).map F := by
  have hrel := h.scope e.scope
  have hscope : e'.scope = e.scope := by rw [he.same]
  unfold visibleCode
  rw [h.isDataMember_eq he, hscope, h.code]
  split
  · rfl
  · generalize f.model.scope? e.scope = a at hrel ⊢
    generalize g.model.scope? e.scope = b at hrel ⊢
    cases hrel with
    | none => rfl
    | some hs =>
      dsimp only
      rw [hs, List.filter_map]
      refine congrArg _ (List.filter_congr fun t _ => ?_)
      rw [Function.comp_apply, (h.same t).start_eq]

/-- If both initializers read like an allocation or none does, there is evidence in both files or in none. -/
theorem isSome_evidence (h : FileRequoted F f g) (he : EntityRequoted F e e')
    (htext : allocatesText none e.initializer = allocatesText none e'.initializer) :
    (evidence? g e').isSome = (evidence? f e).isSome := by
  unfold evidence?
  rw [← htext, h.isDataMember_eq he, visibleCode_map h he]
  split
  · rfl
  · exact isSome_evidenceFrom h.same he _ (fun t ht => h.unquoted t ((visibleCode_sublist f e).subset ht)) []

theorem mark_checkEntity (f : SourceFile) (e : Entity) :
    (checkEntity f e).map Violation.mark =
      if !e.isObject || e.confidence == .low || !TypeText.isBarePointer e.typeText then none
      else if (evidence? f e).isSome then some (info.id, some (f.tokenLocation e.token)) else none := by
  unfold checkEntity
  split
  · rfl
  · cases evidence? f e <;> rfl

/-- The report on one variable is the same, or it is disputed. -/
theorem filter_mark_checkEntity (h : FileRequoted F f g) (he : EntityRequoted F e e')
    (hz : (e, e') ∈ f.model.entities.zip g.model.entities) :
    ((checkEntity g e').toList.map Violation.mark).filter (!isDisputed f g ·) =
      ((checkEntity f e).toList.map Violation.mark).filter (!isDisputed f g ·) := by
  rw [← Option.toList_map, ← Option.toList_map, mark_checkEntity, mark_checkEntity, h.tokenLocation_entity he,
    he.isObject_eq, TypeText.isBarePointer_eq he.typeText, show e'.confidence = e.confidence by rw [he.same]]
  by_cases htext : allocatesText none e.initializer = allocatesText none e'.initializer
  · rw [isSome_evidence h he htext]
  · have hdisputed : isDisputed f g (info.id, some (f.tokenLocation e.token)) = true := by
      refine List.any_eq_true.mpr ⟨_, hz, ?_⟩
      dsimp only
      rw [beq_self_eq_true, beq_self_eq_true, bne_iff_ne.mpr htext, Bool.and_self, Bool.and_self, Bool.or_true]
    have hnone : ∀ (skip found : Bool), (if skip then none else
        if found then some (info.id, some (f.tokenLocation e.token)) else none).toList.filter
          (!isDisputed f g ·) = [] := by
      intro skip found
      cases skip <;> cases found <;> simp [hdisputed]
    rw [hnone, hnone]

end OwnershipRule

/-! ## All rules -/

namespace FileRequoted

variable {F : Token → Token} {f g : SourceFile} (h : FileRequoted F f g)

include h

/-- The entities of the two files side by side. -/
theorem entities_zip : List.Forall₂
    (fun e e' => EntityRequoted F e e' ∧ (e, e') ∈ f.model.entities.zip g.model.entities)
    f.model.entities g.model.entities := by
  obtain ⟨hlength, hrel⟩ := List.forall₂_iff_zip.mp h.entities
  exact List.forall₂_iff_zip.mpr ⟨hlength, fun hz => ⟨hrel hz, hz⟩⟩

theorem filter_marks_adjacentTypes :
    ((AdjacentTypesRule.check g).map Violation.mark).filter (!isDisputed f g ·) =
      ((AdjacentTypesRule.check f).map Violation.mark).filter (!isDisputed f g ·) := by
  rw [AdjacentTypesRule.check_eq, AdjacentTypesRule.check_eq]
  have hfunctions := List.rel_filter (p := (·.isFunction)) (q := (·.isFunction))
    (fun e e' he => by
      dsimp only
      rw [he.1.isFunction_eq]) h.entities_zip
  exact filter_marks_flatMap hfunctions fun e e' he =>
    AdjacentTypesRule.filter_marks_violationsOf h he.1 he.2

theorem filter_marks_ownership :
    ((OwnershipRule.check g).map Violation.mark).filter (!isDisputed f g ·) =
      ((OwnershipRule.check f).map Violation.mark).filter (!isDisputed f g ·) := by
  unfold OwnershipRule.check
  rw [List.filterMap_eq_flatMap_toList, List.filterMap_eq_flatMap_toList]
  exact filter_marks_flatMap h.entities_zip fun e e' he => OwnershipRule.filter_mark_checkEntity h he.1 he.2

/-- Every rule reports the same but for disputed places. -/
theorem filter_marks_reports {r : Rule} (hr : r ∈ Rule.builtin) :
    ((r.reports g).map Violation.mark).filter (!isDisputed f g ·) =
      ((r.reports f).map Violation.mark).filter (!isDisputed f g ·) := by
  simp only [Rule.builtin, List.mem_cons, List.not_mem_nil, or_false] at hr
  rcases hr with rfl | rfl | rfl | rfl | rfl | rfl | rfl | rfl <;> rw [reports_total, reports_total]
  · exact h.filter_marks_adjacentTypes
  · rw [h.marks_longParameterList]
  · rw [h.marks_includeGuard]
  · rw [h.marks_naming]
  · rw [h.marks_casts]
  · exact h.filter_marks_ownership
  · rw [h.marks_unparsed]
  · rw [h.marks_unscopedEnum]

omit h in
/-- Whether a violation is turned off is told by its rule and its place. -/
theorem marks_detectRule {r : Rule} (hr : r ∈ Rule.builtin) (f : SourceFile) :
    (detectRule f r).map Violation.mark = ((r.reports f).map Violation.mark).filter fun m =>
      !(!"engine/".isPrefixOf m.1 && f.suppressions.isSuppressed m.1 (m.2.bind (·.startLine))) := by
  have hmark : ∀ v, (withSeverity (f.config.ruleSettings r.info.id).severity v).mark = v.mark := by
    cases (f.config.ruleSettings r.info.id).severity <;> exact fun v => rfl
  unfold detectRule
  rw [check_eq_reports hr f]
  dsimp only
  rw [List.filter_map, List.map_map, List.filter_map]
  refine (List.map_congr_left fun v _ => hmark v).trans (congrArg _ (List.filter_congr fun v _ => ?_))
  rw [Function.comp_apply, isTurnedOff_withSeverity]
  rfl

/-- So does a run by all rules that are enabled. -/
theorem filter_marks_detectEnabled :
    ((detectEnabled g).map Violation.mark).filter (!isDisputed f g ·) =
      ((detectEnabled f).map Violation.mark).filter (!isDisputed f g ·) := by
  have hrule : ∀ r ∈ Rule.builtin, ((detectRule g r).map Violation.mark).filter (!isDisputed f g ·) =
      ((detectRule f r).map Violation.mark).filter (!isDisputed f g ·) := by
    intro r hr
    rw [marks_detectRule hr, marks_detectRule hr, List.filter_comm, List.filter_comm (l := (r.reports f).map _),
      h.filter_marks_reports hr, h.suppressions]
  have hnote : placeNote g = placeNote f := by
    funext note
    unfold placeNote
    rw [h.path]
  unfold detectEnabled detect
  rw [h.config, h.suppressions, hnote, List.map_append, List.map_append, List.filter_append, List.filter_append,
    List.map_flatMap, List.map_flatMap, List.filter_flatMap, List.filter_flatMap]
  congr 1
  exact List.flatMap_congr fun r hr => hrule r (List.mem_filter.mp hr).1

end FileRequoted

/-- Two files with the same tokens, but for what string literals say, have the same violations at the same
places, disputed ones apart. -/
theorem marks_eq {a b : Text} (h : List.Forall₂ SameButQuoted (tokens a) (tokens b)) (config : Config)
    (isOneOfMany : Bool) (path : SourcePath) :
    let f := SourceFile.ofText config isOneOfMany path a
    let g := SourceFile.ofText config isOneOfMany path b
    ((detectEnabled g).map Violation.mark).filter (!isDisputed f g ·) =
      ((detectEnabled f).map Violation.mark).filter (!isDisputed f g ·) := by
  obtain ⟨F, hF⟩ := exists_requotes h
  exact (hF.fileRequoted config isOneOfMany path).filter_marks_detectEnabled

/-- A token in which a string literal is changed. -/
def requoted (inner inner' : Text) (t : Token) : Token :=
  if t.kind = .literal ∧ t.text = .scalar '"' :: (inner ++ [.scalar '"']) then
    { t with text := .scalar '"' :: (inner' ++ [.scalar '"']) }
  else t

theorem sameButQuoted_requoted (inner inner' : Text) {a b : Text}
    (h : tokens b = (tokens a).map (requoted inner inner')) : List.Forall₂ SameButQuoted (tokens a) (tokens b) := by
  rw [h, List.forall₂_map_right_iff, List.forall₂_same]
  intro t _
  unfold requoted
  split
  next hquoted => exact ⟨rfl, .inr ⟨hquoted.1, inner, inner', hquoted.2, rfl⟩⟩
  next => exact .refl t

set_option maxRecDepth 10000 in
/-- The copy of a string is owned, whatever the string is. -/
theorem marks_eq_copied :
    let a := Text.ofString "char* s = strdup(\"a\");"
    let b := Text.ofString "char* s = strdup(\"b\");"
    let f := SourceFile.ofText {} false (.ofString "a.cpp") a
    let g := SourceFile.ofText {} false (.ofString "a.cpp") b
    List.Forall₂ SameButQuoted (tokens a) (tokens b) ∧
      ((detectEnabled g).map Violation.mark).filter (!isDisputed f g ·) =
        ((detectEnabled f).map Violation.mark).filter (!isDisputed f g ·) := by
  intro a b f g
  have htokens : List.Forall₂ SameButQuoted (tokens a) (tokens b) := by
    refine sameButQuoted_requoted (Text.ofString "a") (Text.ofString "b") ?_
    simp only [a, b]
    rw [Text.ofString_ofList, Text.ofString_ofList]
    decide +kernel
  exact ⟨htokens, marks_eq htokens {} false (.ofString "a.cpp")⟩

set_option maxRecDepth 10000 in
/-- Parameters with types that are different, until one literal is changed. -/
theorem exists_literal_in_types :
    ∃ a b : Text, a.length = b.length ∧ List.Forall₂ SameButQuoted (tokens a) (tokens b) ∧
      (detectEnabled (.ofText {} false (.ofString "a.cpp") b)).map Violation.mark ≠
        (detectEnabled (.ofText {} false (.ofString "a.cpp") a)).map Violation.mark := by
  obtain ⟨a, b, hlength, htokens, ha, hb, hne⟩ : ∃ a b : Text, a.length = b.length ∧
      tokens b = (tokens a).map (requoted (Text.ofString "b") (Text.ofString "a")) ∧ InOrder a ∧ InOrder b ∧
      (detectEnabled (.asRead {} false (.ofString "a.cpp") b)).map Violation.mark ≠
        (detectEnabled (.asRead {} false (.ofString "a.cpp") a)).map Violation.mark := by
    refine ⟨Text.ofString "void f(A<\"a\">, A<\"b\">);", Text.ofString "void f(A<\"a\">, A<\"a\">);", ?_⟩
    rw [Text.ofString_ofList, Text.ofString_ofList]
    decide +kernel
  refine ⟨a, b, hlength, sameButQuoted_requoted (Text.ofString "b") (Text.ofString "a") htokens, ?_⟩
  rw [SourceFile.ofText_eq_asRead ha, SourceFile.ofText_eq_asRead hb]
  exact hne

end HouseStyle
