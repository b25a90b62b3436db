import HouseStyle.Proofs.FixConflicts
import HouseStyle.Proofs.LinePositions
import HouseStyle.Proofs.RewrittenModel
import HouseStyle.Proofs.ScopeTree

/-!
# What is reported stands in the text

Whatever the text of a file is, the rules of the library finish their checks, and what is reported of the
file stands in it: locations, related locations and edits have their offsets in order and inside the text,
and the lines and columns of a location are those that the line index finds for its offsets.

Locations come from tokens, from pairs of tokens, from names inside directives, and from comments with a
marker. So the tokens that a model holds besides the names of its entities have to be tokens of the file:
those of the parameters (`Extraction.KnowsParameters`), and the ends of stretches that were not understood.

- `standsIn_macro`: the name of a macro knows its place inside its directive.
- `knowsParameters_of_takes`: a step of reading keeps the names of parameters known.
- `standsIn_of_mem_reports`: what a rule reports stands in the text.
- `detection_well_formed`: the whole result of checking a file.
-/

namespace HouseStyle

open List (Sublist)
open scoped List

/-! ## Standing in a text -/

/-- A location stands in a text: its offsets are in order and inside the text, and its lines and columns are
those of its offsets in the line index. -/
def Location.StandsIn (l : Location) (text : Text) : Prop :=
  ∃ start stop : Int, l.startOffset = some start ∧ l.endOffset = some stop ∧
    0 ≤ start ∧ start ≤ stop ∧ stop ≤ text.length ∧
    l.startLine = some (((LineIndex.ofText text).position start).1 : Int) ∧
    l.startColumn = some (((LineIndex.ofText text).position start).2 : Int) ∧
    l.endLine = some (((LineIndex.ofText text).position stop).1 : Int) ∧
    l.endColumn = some (((LineIndex.ofText text).position stop).2 : Int)

/-- A violation stands in a text, with all that it points to and all that it would change. -/
structure Violation.StandsIn (v : Violation) (text : Text) : Prop where
  location : ∃ l, v.location = some l ∧ l.StandsIn text
  related : ∀ l ∈ v.related, l.StandsIn text
  edits : ∀ e ∈ v.edits, e.Within text.length

/-- A token knows where it stands in a text. -/
structure Token.StandsIn (t : Token) (text : Text) : Prop where
  ordered : t.start ≤ t.stop
  within : t.stop ≤ text.length
  line : t.line = lineAt text t.start
  column : t.column = columnAt text t.start
  endLine : t.endLine = lineAt text t.stop
  endColumn : t.endColumn = columnAt text t.stop

/-- A piece of a text that is made a token knows where it stands. -/
theorem Piece.standsIn_tokenAt (kind : TokenKind) {text before inner after : Text}
    (h : text = before ++ inner ++ after) :
    (Piece.tokenAt (Place.start.past before) kind inner).StandsIn text := by
  have hstart := Place.past_start_append before (inner ++ after)
  have hstop := Place.past_start_append (before ++ inner) after
  rw [← List.append_assoc, ← h] at hstart
  rw [← h, Place.past_append] at hstop
  unfold Piece.tokenAt
  rw [hstop, hstart]
  refine ⟨?_, ?_, rfl, rfl, rfl, rfl⟩
  · simp
  · rw [h]
    simp

theorem standsIn_of_mem_tokens {text : Text} {t : Token} (h : t ∈ tokens text) : t.StandsIn text := by
  obtain ⟨hline, hcolumn, hendLine, hendColumn⟩ := mem_tokens_place h
  exact ⟨Nat.le_of_lt (start_lt_stop h), stop_le_length h, hline, hcolumn, hendLine, hendColumn⟩

theorem Edit.within_of_le {start stop length : Nat} (replacement : Text) (h : start ≤ stop)
    (hstop : stop ≤ length) : Edit.Within ⟨start, stop, replacement⟩ length :=
  ⟨Int.natCast_nonneg _, Int.ofNat_le.mpr h, Int.ofNat_le.mpr hstop⟩

/-- Of tokens of a text that stand in order the first one starts before the last one ends. -/
theorem start_le_stop_of_sublist {text : Text} {t u : Token} (h : [t, u] <+ tokens text) :
    t.start ≤ u.stop := by
  have hordered := (tokens_ordered text).sublist h
  have hapart := List.rel_of_pairwise_cons hordered List.mem_cons_self
  have ht := start_lt_stop (h.subset List.mem_cons_self)
  have hu := start_lt_stop (h.subset (List.mem_cons_of_mem t List.mem_cons_self))
  omega

namespace SourceFile

variable {f : SourceFile} {text : Text}

theorem standsIn_location (hlines : f.lines = .ofText text) {start stop : Nat} (h : start ≤ stop)
    (hstop : stop ≤ text.length) : (f.location start stop).StandsIn text := by
  unfold location
  rw [hlines]
  exact ⟨start, stop, rfl, rfl, Int.natCast_nonneg _, Int.ofNat_le.mpr h, Int.ofNat_le.mpr hstop,
    rfl, rfl, rfl, rfl⟩

theorem standsIn_tokenLocation {t : Token} (h : t.StandsIn text) : (f.tokenLocation t).StandsIn text := by
  have hstart := LineIndex.position_ofText (Nat.le_trans h.ordered h.within)
  have hstop := LineIndex.position_ofText h.within
  refine ⟨t.start, t.stop, rfl, rfl, Int.natCast_nonneg _, Int.ofNat_le.mpr h.ordered,
    Int.ofNat_le.mpr h.within, ?_⟩
  rw [hstart, hstop, ← h.line, ← h.column, ← h.endLine, ← h.endColumn]
  exact ⟨rfl, rfl, rfl, rfl⟩

end SourceFile

/-! ## Names inside directives -/

namespace Extraction

/-- The name of a macro knows where it stands in the file. -/
theorem standsIn_macro {text : Text} {directive : Token} (h : directive ∈ tokens text) {e : Entity}
    (he : macro? directive = some e) : e.token.StandsIn text := by
  obtain ⟨front, back, hpieces, hdirective⟩ := Piece.exists_place_of_mem h
  obtain ⟨⟨lead, name⟩, hdefined, rfl⟩ := Option.map_eq_some_iff.mp he
  obtain ⟨more, hmore⟩ := definedName_append hdefined
  have htext : text = (Piece.join front ++ lead) ++ name ++ (more ++ Piece.join back) := by
    rw [← Piece.join_ofText true text, hpieces, Piece.join_append, Piece.join_cons]
    show Piece.join front ++ (directive.text ++ _) = _
    rw [hmore]
    simp only [List.append_assoc]
  have hplace : (⟨directive.start, directive.line, directive.column⟩ : Place) =
      Place.start.past (Piece.join front) := by
    rw [hdirective]
    rfl
  dsimp only
  rw [hplace, ← Place.past_append]
  exact Piece.standsIn_tokenAt .identifier htext

end Extraction

/-- The token of an entity knows where it stands, also if it is a part of a directive. -/
theorem standsIn_of_mem_entities {text : Text} {e : Entity} (h : e ∈ (extract (tokens text)).entities) :
    e.token.StandsIn text := by
  obtain ⟨declared, hdeclared, hdeclares⟩ := Extraction.declares_of_takes
    (Extraction.takes_run (.initial (Extraction.codeEnd (tokens text))) List.suffix_rfl)
  rw [mem_entities_extract, (Extraction.ofTokens_eq _).1] at h
  rcases List.mem_append.mp h with h | h
  · rw [Extraction.readCode, hdeclared] at h
    exact standsIn_of_mem_tokens (List.mem_filter.mp (hdeclares.token_mem h)).1
  · obtain ⟨directive, hdirective, he⟩ := List.mem_filterMap.mp h
    exact Extraction.standsIn_macro (List.mem_filter.mp hdirective).1 he

/-! ## Tokens that a model holds -/

namespace Extraction

/-- The parameters that have been read have names among the tokens of the code. -/
def KnowsParameters (code : List Token) (x : Extraction) : Prop :=
  ∀ e ∈ x.entities.toList, ∀ p ∈ e.parameters, ∀ t, p.name = some t → t ∈ code

/-- What is recorded besides has no parameters. -/
theorem KnowsParameters.keep {code : List Token} {x y : Extraction} (h : KnowsParameters code x)
    {es : List Entity} (hentities : y.entities.toList = x.entities.toList ++ es)
    (hes : ∀ e ∈ es, e.parameters = []) : KnowsParameters code y := by
  intro e he p hp
  rw [hentities] at he
  rcases List.mem_append.mp he with he | he
  · exact h e he p hp
  · rw [hes e he] at hp
    exact absurd hp (by simp)

theorem parameters_parameterEntities (index : Nat) (parameters : List Parameter) :
    ∀ e ∈ parameterEntities index parameters, e.parameters = [] := by
  intro e he
  obtain ⟨p, -, he⟩ := List.mem_filterMap.mp he
  obtain ⟨name, -, rfl⟩ := Option.map_eq_some_iff.mp he
  rfl

theorem parameters_typeEntity (x : Extraction) (keyword : Token) (head : TypeHead) (bodyScope : Option Nat) :
    ∀ e ∈ (x.typeEntity? keyword head bodyScope).toList, e.parameters = [] := by
  intro e he
  rw [Option.mem_toList] at he
  unfold typeEntity? at he
  split at he
  · exact absurd he (by simp)
  · obtain ⟨name, -, rfl⟩ := Option.map_eq_some_iff.mp he
    rfl

theorem knowsParameters_openNamespaces {code : List Token} {x : Extraction} (h : KnowsParameters code x)
    (chained : Bool) (start : Nat) (names : List Token) :
    KnowsParameters code (x.openNamespaces chained start names) := by
  induction names generalizing x chained with
  | nil => exact h
  | cons name names ih =>
    obtain ⟨namespaceNames, hcons⟩ := openNamespaces_cons x chained start name names
    rw [hcons]
    refine ih ?_ true
    exact h.keep Array.toList_push (by simp)

/-- A step of reading keeps the names of parameters known. -/
theorem knowsParameters_of_takes {code ts : List Token} {x y : Extraction} (h : Takes code ts x y)
    (hts : ts <+ code) (hx : KnowsParameters code x) : KnowsParameters code y := by
  induction h with
  | note => exact hx
  | anomaly => exact hx
  | @declare x e t _ _ _ _ _ _ hparameters => exact hx.keep (entities_add x e) (by simpa using hparameters)
  | @declareType x keyword head _ =>
    exact hx.keep (entities_addType x keyword head none) (parameters_typeEntity x keyword head none)
  | @function x f hasBody _ =>
    -- the parameters are named in their list, and the list is a part of what is taken
    intro e he p hp t ht
    rw [entities_addFunction, List.append_assoc] at he
    rcases List.mem_append.mp he with he | he
    · exact hx e he p hp t ht
    rcases List.mem_append.mp he with he | he
    · rw [parameters_parameterEntities _ _ e he] at hp
      exact absurd hp (by simp)
    · obtain rfl := List.mem_singleton.mp he
      have hname := (Parameter.names_readAll_sublist (parameterTokens f)).1.subset
        (List.mem_filterMap.mpr ⟨p, hp, ht⟩)
      exact hts.subset (List.mem_cons_of_mem _
        (List.mem_cons_of_mem _ ((parameterTokens_sublist f).subset hname)))
  | @opensType x keyword head inTypedef _ _ =>
    exact hx.keep (entities_openType x inTypedef keyword head) (parameters_typeEntity x keyword head _)
  | opens => exact hx
  | opensNamespaces => exact knowsParameters_openNamespaces hx _ _ _
  | closes _ hleave =>
    obtain ⟨_, _, -, -, rfl⟩ := leave_eq hleave
    exact hx
  | append _ _ ihxy ihyz =>
    exact ihyz ((List.sublist_append_right _ _).trans hts) (ihxy ((List.sublist_append_left _ _).trans hts) hx)
  | within _ hsub ih => exact ih (hsub.trans hts) hx

theorem knowsParameters_readCode (tokens : List Token) :
    KnowsParameters (Token.code tokens) (readCode tokens) :=
  knowsParameters_of_takes (takes_run (.initial (codeEnd tokens)) List.suffix_rfl) (Sublist.refl _)
    (by simp [KnowsParameters, initial])

/-- A stretch that was not understood goes from a token of the code to the same or a later one. -/
theorem anomalies_readCode (tokens : List Token) :
    ∀ a ∈ (readCode tokens).anomalies.toList,
      a.1 = a.2 ∧ a.1 ∈ Token.code tokens ∨ [a.1, a.2] <+ Token.code tokens := by
  obtain ⟨as, has, hin⟩ := anomalies_of_takes
    (takes_run (.initial (codeEnd tokens)) (List.suffix_rfl (l := Token.code tokens)))
  intro a ha
  rw [readCode, has] at ha
  exact hin a ((List.mem_append.mp ha).resolve_left (by simp [initial]))

end Extraction

/-- The parameters of a function are named by tokens of the file. -/
theorem standsIn_of_mem_parameters {text : Text} {e : Entity} (he : e ∈ (extract (tokens text)).entities)
    {p : Parameter} (hp : p ∈ e.parameters) {t : Token} (ht : p.name = some t) : t.StandsIn text := by
  rw [mem_entities_extract, (Extraction.ofTokens_eq _).1] at he
  rcases List.mem_append.mp he with he | he
  · have hcode := Extraction.knowsParameters_readCode (tokens text) e he p hp t ht
    exact standsIn_of_mem_tokens (List.mem_filter.mp hcode).1
  · obtain ⟨directive, -, he⟩ := List.mem_filterMap.mp he
    obtain ⟨_, -, rfl⟩ := Option.map_eq_some_iff.mp he
    exact absurd hp (by simp)

/-- A stretch that was not understood stands in the file. -/
theorem anomaly_bounds {text : Text} {first last : Token}
    (h : (first, last) ∈ (extract (tokens text)).anomalies) :
    first.start ≤ last.stop ∧ last.stop ≤ text.length := by
  rw [extract_eq] at h
  change _ ∈ (Extraction.ofTokens (tokens text)).anomalies.toList at h
  rw [Extraction.anomalies_ofTokens] at h
  have hcode : Token.code (tokens text) <+ tokens text := List.filter_sublist
  rcases Extraction.anomalies_readCode (tokens text) _ h with ⟨hsame, hmem⟩ | hsub
  · obtain rfl : first = last := hsame
    exact ⟨Nat.le_of_lt (start_lt_stop (hcode.subset hmem)), stop_le_length (hcode.subset hmem)⟩
  · have hboth := hsub.trans hcode
    exact ⟨start_le_stop_of_sublist hboth,
      stop_le_length (hboth.subset (List.mem_cons_of_mem _ List.mem_cons_self))⟩

/-! ## What each rule reports -/

namespace RuleInfo

/-- A violation with its location, what it points to and its edits in a text stands in the text. -/
theorem standsIn_violation {r : RuleInfo} {message : List Text} {location : Location}
    {suggestion : Option (List Text)} {edits : List Edit} {autofix : Bool} {related : List Location}
    {text : Text} (hlocation : location.StandsIn text) (hedits : ∀ e ∈ edits, e.Within text.length)
    (hrelated : ∀ l ∈ related, l.StandsIn text) :
    (r.violation message location suggestion edits autofix related).StandsIn text :=
  ⟨⟨location, rfl, hlocation⟩, hrelated, hedits⟩

end RuleInfo

/-- The closing bracket of a cast is a round one, and stands where the tokens are split. -/
theorem CastRule.closing_append {room depth : Nat} {ts : List Token} {e : Enclosed}
    (h : closing? room depth ts = some e) :
    ts = e.inside ++ e.closer :: e.after ∧ e.closer.isPunct .rparen = true := by
  have later : ∀ {room depth : Nat} {t : Token} {ts : List Token} {e : Enclosed},
      (∀ e', closing? room depth ts = some e' →
        ts = e'.inside ++ e'.closer :: e'.after ∧ e'.closer.isPunct .rparen = true) →
      (closing? room depth ts).map (.cons t) = some e →
        t :: ts = e.inside ++ e.closer :: e.after ∧ e.closer.isPunct .rparen = true := by
    intro room depth t ts e ih h
    obtain ⟨e', he', rfl⟩ := Option.map_eq_some_iff.mp h
    obtain ⟨hsplit, hcloser⟩ := ih e' he'
    exact ⟨congrArg (t :: ·) hsplit, hcloser⟩
  induction ts generalizing room depth e with
  | nil => exact absurd h (by simp [closing?])
  | cons t ts ih =>
    unfold closing? at h
    cases room with
    | zero => exact absurd h (by simp)
    | succ room =>
      dsimp only at h
      split at h
      · exact later (fun _ => ih) h
      split at h
      · next hclose =>
        cases depth with
        | zero =>
          obtain rfl := Option.some.inj h
          exact ⟨rfl, hclose⟩
        | succ depth => exact later (fun _ => ih) h
      split at h
      · exact absurd h (by simp)
      · exact later (fun _ => ih) h

/-- The parameters of a run are some of the parameter list. -/
theorem AdjacentTypesRule.Run.mem_ofList {before : Nat} {ps : List Parameter} {r : Run}
    (h : r ∈ ofList before ps) {p : Parameter} (hp : p ∈ r.first :: r.others) : p ∈ ps := by
  induction ps generalizing before r p with
  | nil => exact absurd h (by simp [ofList])
  | cons q ps ih =>
    have hlater : ∀ r' ∈ ofList (before + 1) ps, ∀ p ∈ r'.first :: r'.others, p ∈ q :: ps :=
      fun r' hr' p hp => List.mem_cons_of_mem q (ih hr' hp)
    have halone : ∀ p ∈ [q], p ∈ q :: ps := fun p hp => by
      rw [List.mem_singleton.mp hp]
      exact List.mem_cons_self
    unfold ofList cons at h
    split at h
    · obtain rfl := List.mem_singleton.mp h
      exact halone p hp
    · next first rest heq =>
      rw [heq, List.forall_mem_cons] at hlater
      split at h
      · rcases List.mem_cons.mp h with rfl | h
        · rcases List.mem_cons.mp hp with rfl | hp
          · exact List.mem_cons_self
          · exact hlater.1 p hp
        · exact hlater.2 r h p hp
      · rcases List.mem_cons.mp h with rfl | h
        · exact halone p hp
        · rcases List.mem_cons.mp h with rfl | h
          · exact hlater.1 p hp
          · exact hlater.2 r h p hp

namespace OwnershipRule

variable {e : Entity} {isMember : Bool} {before after ts : List Token} {t use : Token} {found : Evidence}

theorem mem_of_allocation (h : allocation? ts = some t) : t ∈ ts := by
  induction ts with
  | nil => exact absurd h (by simp [allocation?])
  | cons u us ih =>
    unfold allocation? at h
    split at h
    · obtain rfl := Option.some.inj h
      exact List.mem_cons_self
    split at h
    · obtain rfl := Option.some.inj h
      exact List.mem_cons_self
    · exact List.mem_cons_of_mem u (ih h)

theorem expression_sublist (depth : Nat) (ts : List Token) : expression depth ts <+ ts := by
  induction ts generalizing depth with
  | nil => exact List.nil_sublist _
  | cons u us ih =>
    unfold expression
    split
    · exact (ih _).cons_cons u
    split
    · cases depth with
      | zero => exact List.nil_sublist _
      | succ depth => exact (ih _).cons_cons u
    split
    · exact List.nil_sublist _
    · exact (ih _).cons_cons u

theorem mem_of_source (h : source? after = some t) : t ∈ after :=
  List.mem_of_mem_drop ((expression_sublist 0 _).subset (mem_of_allocation h))

theorem withoutThis_sublist (before : List Token) : withoutThis before <+ before := by
  unfold withoutThis
  split
  · split
    · exact (List.sublist_cons_self _ _).trans (List.sublist_cons_self _ _)
    · exact Sublist.refl _
  · exact Sublist.refl _

theorem withoutBounds_sublist (before : List Token) : withoutBounds before <+ before := by
  unfold withoutBounds
  split
  · split
    · exact (List.sublist_cons_self _ _).trans (List.sublist_cons_self _ _)
    · exact Sublist.refl _
  · exact Sublist.refl _

theorem mem_of_release (h : release? before after = some t) : t ∈ before := by
  refine ((withoutBounds_sublist _).trans (withoutThis_sublist before)).subset ?_
  unfold release? at h
  split at h
  next => exact absurd h (by simp)
  next p rest heq =>
    rw [heq]
    split at h
    · obtain rfl := Option.some.inj h
      exact List.mem_cons_self
    · split at h
      next => exact absurd h (by simp)
      next q more =>
        split at h
        · obtain rfl := Option.some.inj h
          exact List.mem_cons_of_mem p List.mem_cons_self
        · exact absurd h (by simp)

theorem mem_of_evidenceAt (h : evidenceAt? e isMember before use after = some found)
    (ht : found.token = some t) : t ∈ before ∨ t ∈ after := by
  have hbehind : ∀ {what : List Text},
      (source? after).map (fun t => Evidence.mk what (some t)) = some found → t ∈ after := by
    intro what h
    obtain ⟨u, hu, rfl⟩ := Option.map_eq_some_iff.mp h
    obtain rfl := Option.some.inj ht
    exact mem_of_source hu
  unfold evidenceAt? at h
  dsimp only at h
  rcases Option.or_eq_some_iff.mp h with h | ⟨-, h⟩
  · split at h
    · exact Or.inr (hbehind h)
    · exact absurd h (by simp)
  rcases Option.or_eq_some_iff.mp h with h | ⟨-, h⟩
  · split at h
    · exact Or.inr (hbehind h)
    · exact absurd h (by simp)
  · obtain ⟨u, hu, rfl⟩ := Option.map_eq_some_iff.mp h
    obtain rfl := Option.some.inj ht
    exact Or.inl (mem_of_release hu)

theorem mem_of_evidenceFrom (h : evidenceFrom? e isMember before ts = some found)
    (ht : found.token = some t) : t ∈ before ∨ t ∈ ts := by
  induction ts generalizing before with
  | nil => exact absurd h (by simp [evidenceFrom?])
  | cons u us ih =>
    unfold evidenceFrom? at h
    dsimp only at h
    rcases Option.or_eq_some_iff.mp h with h | ⟨-, h⟩
    · split at h
      · exact (mem_of_evidenceAt h ht).imp_right (List.mem_cons_of_mem u)
      · exact absurd h (by simp)
    · rcases ih h with hmem | hmem
      · rcases List.mem_cons.mp hmem with rfl | hmem
        · exact Or.inr List.mem_cons_self
        · exact Or.inl hmem
      · exact Or.inr (List.mem_cons_of_mem u hmem)

theorem visibleCode_sublist (f : SourceFile) (e : Entity) : visibleCode f e <+ f.code := by
  unfold visibleCode
  split
  · exact Sublist.refl _
  · split
    · exact List.nil_sublist _
    · exact List.filter_sublist

/-- The token that shows that a pointer owns memory is one of the code. -/
theorem mem_code_of_evidence {f : SourceFile} (h : evidence? f e = some found) (ht : found.token = some t) :
    t ∈ f.code := by
  unfold evidence? at h
  split at h
  · obtain rfl := Option.some.inj h
    exact absurd ht (by simp)
  · rcases mem_of_evidenceFrom h ht with hmem | hmem
    · exact absurd hmem (by simp)
    · exact (visibleCode_sublist f e).subset hmem

end OwnershipRule

/-! ## The scopes that the rules look up

A rule looks up scopes by the indices in the entities of its file. Those scopes are there, so what a rule
would do without one is never done. -/

section

variable {f : SourceFile} (h : f.model.WellScoped) {e : Entity} (he : e ∈ f.model.entities)
include h he

/-- The kind of the scope decides, whatever the lookup would do without one. -/
theorem Model.exists_isDataMember_eq :
    ∃ s, f.model.scope? e.scope = some s ∧
      f.model.isDataMember e = (e.kind == .variable_ && (e.qualifierText.isSome || s.kind == .class_)) := by
  obtain ⟨s, hs⟩ := h.exists_scope he
  exact ⟨s, hs, by rw [isDataMember, hs, Option.any_some]⟩

theorem UnscopedEnumRule.exists_leak_eq {b : Nat} (hb : e.bodyScope = some b) :
    ∃ body, f.model.scope? b = some body ∧
      leak? f b =
        let names := ((f.model.entitiesIn b).filter (·.kind == .enumVariant)).map (·.name)
        if names.isEmpty then none else unqualifiedUse? names body none f.code := by
  obtain ⟨body, hbody⟩ := h.exists_bodyScope he hb
  exact ⟨body, hbody, by rw [leak?, hbody]⟩

theorem OwnershipRule.exists_visibleCode_eq :
    ∃ s, f.model.scope? e.scope = some s ∧
      visibleCode f e =
        if f.model.isDataMember e then f.code else f.code.filter fun t => s.start ≤ t.start && t.start < s.stop := by
  obtain ⟨s, hs⟩ := h.exists_scope he
  exact ⟨s, hs, by rw [visibleCode, hs]⟩

end

/-! ## All that is reported -/

section

variable {config : Config} {isOneOfMany : Bool} {path : SourcePath} {text : Text} {v : Violation}

theorem AdjacentTypesRule.standsIn_of_mem_check
    (h : v ∈ check (.ofText config isOneOfMany path text)) : v.StandsIn text := by
  obtain ⟨e, he, hv⟩ := List.mem_flatMap.mp h
  obtain ⟨run, hrun, rfl⟩ := List.mem_map.mp hv
  have hentity := standsIn_of_mem_entities (List.mem_filter.mp he).1
  have hparameters : ∀ p ∈ run.first :: run.others, ∀ t, p.name = some t → t.StandsIn text := by
    intro p hp t ht
    exact standsIn_of_mem_parameters (List.mem_filter.mp he).1
      (Run.mem_ofList (List.mem_filter.mp hrun).1 hp) ht
  rw [List.forall_mem_cons] at hparameters
  refine RuleInfo.standsIn_violation (SourceFile.standsIn_tokenLocation ?_) (by simp) fun l hl => ?_
  · cases hname : run.first.name with
    | none => exact hentity
    | some t => exact hparameters.1 t hname
  · obtain ⟨t, ht, rfl⟩ := List.mem_map.mp hl
    obtain ⟨p, hp, hname⟩ := List.mem_filterMap.mp ht
    exact SourceFile.standsIn_tokenLocation (hparameters.2 p hp t hname)

theorem LongParameterListRule.standsIn_of_mem_check
    (h : v ∈ check (.ofText config isOneOfMany path text)) : v.StandsIn text := by
  obtain ⟨e, he, rfl⟩ := List.mem_map.mp h
  have hentity := standsIn_of_mem_entities (List.mem_filter.mp he).1
  exact RuleInfo.standsIn_violation (SourceFile.standsIn_tokenLocation hentity) (by simp) (by simp)

theorem IncludeGuardRule.standsIn_of_mem_check
    (h : v ∈ check (.ofText config isOneOfMany path text)) : v.StandsIn text := by
  obtain ⟨-, -, rfl⟩ := mem_check_iff.mp h
  refine RuleInfo.standsIn_violation ?_ (fun e he => ?_) (by simp)
  · exact SourceFile.standsIn_location rfl (Nat.le_refl _) (Nat.zero_le _)
  · exact within_of_guardEdit (Option.mem_toList.mp he)

theorem NamingRule.standsIn_of_mem_check
    (h : v ∈ check (.ofText config isOneOfMany path text)) : v.StandsIn text := by
  obtain ⟨e, he, hv⟩ := List.mem_filterMap.mp h
  obtain ⟨-, -, _, _, rfl⟩ := checkEntity_eq_some hv
  refine RuleInfo.standsIn_violation (SourceFile.standsIn_tokenLocation (standsIn_of_mem_entities he))
    (fun edit hedit => ?_) (by simp)
  unfold fix at hedit
  split at hedit
  · exact absurd hedit (by simp)
  · obtain ⟨t, ht, rfl⟩ := List.mem_map.mp hedit
    have htoken := (List.mem_filter.mp (List.mem_filter.mp ht).1).1
    exact Edit.within_of_le _ (Nat.le_of_lt (start_lt_stop htoken)) (stop_le_length htoken)

theorem CastRule.standsIn_of_mem_check
    (h : v ∈ check (.ofText config isOneOfMany path text)) : v.StandsIn text := by
  obtain ⟨front, opener, after, hcode, -, -, hat⟩ := exists_of_mem_checkFrom h
  obtain ⟨enclosed, operand, rest, _, _, henclosed, hafter, -, rfl⟩ := checkAt_eq_some hat
  -- the brackets and the operand stand in order
  have hbehind : opener :: after <+ tokens text := by
    refine (List.sublist_append_right front _).trans ?_
    rw [← hcode]
    exact List.filter_sublist
  have hcast : [opener, enclosed.closer, operand] <+ tokens text := by
    refine Sublist.trans (List.cons_sublist_cons.mpr ?_) hbehind
    rw [(closing_append henclosed).1, hafter]
    refine Sublist.trans ?_ (List.sublist_append_right _ _)
    exact List.cons_sublist_cons.mpr (List.cons_sublist_cons.mpr (List.nil_sublist rest))
  have hcloser : [opener, enclosed.closer] <+ tokens text :=
    (((List.nil_sublist [operand]).cons_cons enclosed.closer).cons_cons opener).trans hcast
  have hoperand : [opener, operand] <+ tokens text :=
    ((List.sublist_cons_self enclosed.closer [operand]).cons_cons opener).trans hcast
  refine RuleInfo.standsIn_violation (SourceFile.standsIn_location rfl (start_le_stop_of_sublist hcloser)
    (stop_le_length (hcloser.subset (by simp)))) (fun e he => ?_) (by simp)
  split at he
  · obtain rfl := List.mem_singleton.mp he
    exact Edit.within_of_le _ (start_le_stop_of_sublist hoperand) (stop_le_length (hoperand.subset (by simp)))
  · exact absurd he (by simp)

theorem OwnershipRule.standsIn_of_mem_check
    (h : v ∈ check (.ofText config isOneOfMany path text)) : v.StandsIn text := by
  obtain ⟨e, he, hv⟩ := List.mem_filterMap.mp h
  obtain ⟨found, _, _, hfound, rfl⟩ := checkEntity_eq_some hv
  refine RuleInfo.standsIn_violation (SourceFile.standsIn_tokenLocation (standsIn_of_mem_entities he))
    (by simp) fun l hl => ?_
  obtain ⟨t, ht, rfl⟩ := Option.map_eq_some_iff.mp (Option.mem_toList.mp hl)
  have hcode := mem_code_of_evidence hfound ht
  exact SourceFile.standsIn_tokenLocation (standsIn_of_mem_tokens (List.mem_filter.mp hcode).1)

theorem UnparsedRule.standsIn_of_mem_check
    (h : v ∈ check (.ofText config isOneOfMany path text)) : v.StandsIn text := by
  obtain ⟨⟨first, last⟩, ha, rfl⟩ := List.mem_map.mp h
  obtain ⟨hle, hstop⟩ := anomaly_bounds ha
  exact RuleInfo.standsIn_violation (SourceFile.standsIn_location rfl hle hstop) (by simp) (by simp)

theorem UnscopedEnumRule.standsIn_of_mem_check
    (h : v ∈ check (.ofText config isOneOfMany path text)) : v.StandsIn text := by
  obtain ⟨e, he, hv⟩ := List.mem_filterMap.mp h
  obtain ⟨-, -, _, keyword, -, hkeyword, _, _, rfl⟩ := checkEntity_eq_some hv
  refine RuleInfo.standsIn_violation (SourceFile.standsIn_tokenLocation (standsIn_of_mem_entities he))
    (fun edit hedit => ?_) (by simp)
  obtain rfl := List.mem_singleton.mp hedit
  rcases entity_cases he with ⟨-, -, hhead⟩ | ⟨directive, -, -, hof⟩
  · have hmem := (List.mem_filter.mp (hhead keyword hkeyword).mem.1).1
    exact Edit.within_of_le _ (Nat.le_refl _) (stop_le_length hmem)
  · rw [hof.keyword] at hkeyword
    exact absurd hkeyword (by simp)

/-- What a rule of the library reports stands in the text. -/
theorem standsIn_of_mem_reports {r : Rule} (hr : r ∈ Rule.builtin)
    (h : v ∈ r.reports (.ofText config isOneOfMany path text)) : v.StandsIn text := by
  simp only [Rule.builtin, List.mem_cons, List.not_mem_nil, or_false] at hr
  rcases hr with rfl | rfl | rfl | rfl | rfl | rfl | rfl | rfl <;> rw [reports_total] at h
  · exact AdjacentTypesRule.standsIn_of_mem_check h
  · exact LongParameterListRule.standsIn_of_mem_check h
  · exact IncludeGuardRule.standsIn_of_mem_check h
  · exact NamingRule.standsIn_of_mem_check h
  · exact CastRule.standsIn_of_mem_check h
  · exact OwnershipRule.standsIn_of_mem_check h
  · exact UnparsedRule.standsIn_of_mem_check h
  · exact UnscopedEnumRule.standsIn_of_mem_check h

/-- A note on a marker stands at its comment. -/
theorem standsIn_note (ruleId message : String) {comment : Token} (h : comment ∈ tokens text) (f : SourceFile) :
    (placeNote f (Suppressions.note comment ruleId message)).StandsIn text := by
  obtain ⟨start, stop, hplace⟩ := SourceFile.standsIn_tokenLocation (f := f) (standsIn_of_mem_tokens h)
  exact ⟨⟨_, rfl, start, stop, hplace⟩, by simp [placeNote, Suppressions.note],
    by simp [placeNote, Suppressions.note]⟩

end

/-- Checking a file by the rules that are enabled: no check fails, the scopes that the rules look up by the
indices in entities are there, and every violation, with what it points to and what it would change, stands
in the text. -/
theorem detection_well_formed (config : Config) (isOneOfMany : Bool) (path : SourcePath) (text : Text) :
    let f := SourceFile.ofText config isOneOfMany path text
    (∀ r ∈ Rule.enabled config, ∃ vs, r.check f = .ok vs) ∧
      (∀ e ∈ f.model.entities, (∃ s, f.model.scope? e.scope = some s) ∧
        ∀ b, e.bodyScope = some b → ∃ s, f.model.scope? b = some s) ∧
      ∀ v ∈ detectEnabled f, v.ruleId ≠ "engine/rule-error" ∧ v.StandsIn text := by
  intro f
  have hbuiltin : ∀ r ∈ Rule.enabled config, r ∈ Rule.builtin := fun r hr => (List.mem_filter.mp hr).1
  refine ⟨fun r hr => ⟨_, check_eq_reports (hbuiltin r hr) f⟩, fun e he => ?_, fun v hv => ?_⟩
  · have hscoped : f.model.WellScoped := scopes_form_tree text
    exact ⟨hscoped.exists_scope he, fun b hb => hscoped.exists_bodyScope he hb⟩
  · rcases List.mem_append.mp hv with hv | hv
    · obtain ⟨r, hr, hv⟩ := List.mem_flatMap.mp hv
      obtain ⟨w, hw, rfl, -⟩ := (mem_detectRule_iff (hbuiltin r hr)).mp hv
      have hid : r.info.id ≠ "engine/rule-error" := by
        have hall : ∀ r ∈ Rule.builtin, r.info.id ≠ "engine/rule-error" := by decide
        exact hall r (hbuiltin r hr)
      rw [ruleId_withSeverity, (isOf_of_mem_reports (hbuiltin r hr) hw).ruleId_eq]
      have hw' := standsIn_of_mem_reports (hbuiltin r hr) hw
      refine ⟨hid, ?_⟩
      cases (f.config.ruleSettings r.info.id).severity with
      | none => exact hw'
      | some severity => exact ⟨hw'.location, hw'.related, hw'.edits⟩
    · obtain ⟨note, hnote, rfl⟩ := List.mem_map.mp hv
      obtain ⟨comment, hcomment, rfl | ⟨key, rfl⟩⟩ := Suppressions.exists_comment_of_mem_notes hnote
      · have hid : "engine/stray-suppression-end" ≠ "engine/rule-error" := by decide
        exact ⟨hid, standsIn_note _ _ hcomment f⟩
      · have hid : "engine/unterminated-suppression" ≠ "engine/rule-error" := by decide
        exact ⟨hid, standsIn_note _ _ hcomment f⟩

end HouseStyle
