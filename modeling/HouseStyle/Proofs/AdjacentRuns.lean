import HouseStyle.Proofs.PlacedReports
import HouseStyle.Proofs.RuleReports
import Mathlib.Data.List.Flatten
import Mathlib.Data.List.Nodup

/-!
# Which runs of parameters reach the report

Each longest run of neighbouring parameters of one type should be reported once. A run is placed at the name of
its first parameter, or at the name of the function if that parameter has none. A report keeps one violation of
a rule for each place, so of the runs of one function that start without a name only the first stays.

- `mem_ofList_iff`: the runs of a parameter list are its longest stretches of one type.
- `namedApart_functions`: functions and parameters are named by tokens of their own.
- `onePerIdentity_of_startsNamed`: runs are placed apart, unless two of one function start without a name.
- `runs_reported_iff`: every run reaches the report of a run of the checker just then.
-/

namespace HouseStyle

open List (Sublist)
open scoped List

namespace AdjacentTypesRule

/-! ## Longest runs -/

namespace Run

variable {ps : List Parameter} {r : Run} {k : Nat}

/-- The parameters of a run are a longest stretch of one type in a list whose first parameter has the number
`k`. -/
def IsMaximalFrom (k : Nat) (ps : List Parameter) (r : Run) : Prop :=
  ∃ front back, ps = front ++ r.first :: r.others ++ back ∧ r.before = k + front.length ∧
    (∀ p ∈ r.others, p.typeText = r.typeText) ∧
    (∀ p, front.getLast? = some p → p.typeText ≠ r.typeText) ∧
    ∀ p, back.head? = some p → p.typeText ≠ r.typeText

/-- A longest stretch of several parameters of one type that is written out. -/
structure IsLong (ps : List Parameter) (r : Run) : Prop where
  maximal : r.IsMaximalFrom 0 ps
  several : 2 ≤ r.length
  written : r.typeText ≠ []

/-- The first run holds the first parameter and those of its type behind it. -/
theorem exists_ofList_takeWhile (k : Nat) (p : Parameter) (ps : List Parameter) :
    ∃ runs, ofList k (p :: ps) = ⟨k, p, ps.takeWhile (·.typeText == p.typeText)⟩ :: runs := by
  induction ps generalizing k p with
  | nil => exact ⟨[], rfl⟩
  | cons q ps ih =>
    obtain ⟨runs, hruns⟩ := ih (k + 1) q
    rw [ofList, hruns, cons]
    split
    · next htype =>
      obtain htype : q.typeText = p.typeText := htype
      exact ⟨runs, by rw [List.takeWhile_cons_of_pos (by simp [htype]), htype]⟩
    · next htype =>
      have hnone : (q :: ps).takeWhile (·.typeText == p.typeText) = [] :=
        List.takeWhile_cons_of_neg fun hq => htype (eq_of_beq hq)
      exact ⟨_, by rw [hnone]⟩

theorem pairwise_before (k : Nat) (ps : List Parameter) :
    (ofList k ps).Pairwise (fun r r' => r.before < r'.before) ∧ ∀ r ∈ ofList k ps, k ≤ r.before := by
  induction ps generalizing k with
  | nil => exact ⟨.nil, by simp [ofList]⟩
  | cons p ps ih =>
    obtain ⟨hpairwise, hle⟩ := ih (k + 1)
    unfold ofList cons
    split
    · simp
    · next r runs heq =>
      rw [heq] at hpairwise hle
      obtain ⟨hhead, htail⟩ := List.pairwise_cons.mp hpairwise
      rw [List.forall_mem_cons] at hle
      split
      · refine ⟨List.pairwise_cons.mpr ⟨fun r' hr' => ?_, htail⟩, List.forall_mem_cons.mpr ⟨Nat.le_refl k, ?_⟩⟩
        · exact hle.2 r' hr'
        · exact fun r' hr' => Nat.le_of_succ_le (hle.2 r' hr')
      · refine ⟨List.pairwise_cons.mpr ⟨?_, hpairwise⟩, List.forall_mem_cons.mpr ⟨Nat.le_refl k, ?_⟩⟩
        · exact List.forall_mem_cons.mpr ⟨hle.1, hle.2⟩
        · exact List.forall_mem_cons.mpr ⟨Nat.le_of_succ_le hle.1, fun r' hr' => Nat.le_of_succ_le (hle.2 r' hr')⟩

/-- A stretch behind the first parameter is a longest one if it is one of what follows and, should it start
there, of another type. -/
theorem isMaximalFrom_cons_iff {p : Parameter} (hbefore : r.before ≠ k) :
    r.IsMaximalFrom k (p :: ps) ↔
      r.IsMaximalFrom (k + 1) ps ∧ (r.before = k + 1 → p.typeText ≠ r.typeText) := by
  constructor
  · rintro ⟨front, back, hps, hr, hsame, hleft, hright⟩
    cases front with
    | nil => exact absurd hr hbefore
    | cons p' front =>
      obtain ⟨rfl, rfl⟩ := List.cons.inj hps
      refine ⟨⟨front, back, rfl, by rw [hr, List.length_cons]; omega, hsame, fun q hq => ?_, hright⟩, fun hk => ?_⟩
      · exact hleft q (by rw [List.getLast?_cons, hq]; rfl)
      · have hnil : front = [] := List.length_eq_zero_iff.mp (by rw [List.length_cons] at hr; omega)
        exact hleft p (by rw [hnil]; rfl)
  · rintro ⟨⟨front, back, rfl, hr, hsame, hleft, hright⟩, hfirst⟩
    refine ⟨p :: front, back, rfl, by rw [hr, List.length_cons]; omega, hsame, fun q hq => ?_, hright⟩
    cases front with
    | nil =>
      obtain rfl := Option.some.inj hq
      exact hfirst hr
    | cons q' front =>
      rw [List.getLast?_cons_cons] at hq
      exact hleft q hq

/-- A longest stretch that starts the list. -/
theorem isMaximalFrom_head_iff {p p' : Parameter} {others : List Parameter} :
    (⟨k, p', others⟩ : Run).IsMaximalFrom k (p :: ps) ↔
      p' = p ∧ others = ps.takeWhile (·.typeText == p.typeText) := by
  constructor
  · rintro ⟨front, back, hps, hr, hsame, -, hright⟩
    obtain rfl : front = [] := List.length_eq_zero_iff.mp (by dsimp only at hr; omega)
    obtain ⟨rfl, rfl⟩ := List.cons.inj hps
    have hall : ∀ q ∈ others, (q.typeText == p.typeText) = true := fun q hq => beq_iff_eq.mpr (hsame q hq)
    refine ⟨rfl, ?_⟩
    show others = (others ++ back).takeWhile (·.typeText == p.typeText)
    rw [List.takeWhile_append_of_pos hall]
    cases back with
    | nil => exact (List.append_nil others).symm
    | cons q back =>
      have hq : ¬ (q.typeText == p.typeText) = true := fun hq => hright q rfl (eq_of_beq hq)
      have hnone : (q :: back).takeWhile (·.typeText == p.typeText) = [] := List.takeWhile_cons_of_neg hq
      rw [hnone, List.append_nil]
  · rintro ⟨rfl, rfl⟩
    refine ⟨[], ps.dropWhile (·.typeText == p'.typeText), ?_, rfl, fun q hq => ?_, by simp, fun q hq => ?_⟩
    · show p' :: ps = p' :: (ps.takeWhile _ ++ _)
      rw [List.takeWhile_append_dropWhile]
    · exact eq_of_beq (List.all_eq_true.mp List.all_takeWhile q hq)
    · have hnot := List.head?_dropWhile_not (fun q : Parameter => q.typeText == p'.typeText) ps
      rw [hq] at hnot
      simpa [typeText] using hnot

/-- The runs of a list are its longest stretches of one type. -/
theorem mem_ofList_iff : r ∈ ofList k ps ↔ r.IsMaximalFrom k ps := by
  induction ps generalizing k r with
  | nil => simp [ofList, IsMaximalFrom]
  | cons p ps ih =>
    obtain ⟨runs, hruns⟩ := exists_ofList_takeWhile k p ps
    have hbefore := (pairwise_before k (p :: ps)).1
    rw [hruns] at hbefore
    by_cases hk : r.before = k
    · -- only the first run starts at the first parameter
      obtain ⟨before, first, others⟩ := r
      obtain rfl := hk
      rw [isMaximalFrom_head_iff, hruns, List.mem_cons, or_iff_left]
      · simp
      · intro hmem
        have hlt := List.rel_of_pairwise_cons hbefore hmem
        exact Nat.lt_irrefl before hlt
    · rw [isMaximalFrom_cons_iff hk, ← ih, ofList]
      unfold cons
      split
      · next hnil =>
        rw [hnil, List.mem_singleton]
        simp only [List.not_mem_nil, false_and, iff_false]
        exact fun heq => hk (by rw [heq])
      · next r₀ rest hrest =>
        have hsorted := (pairwise_before (k + 1) ps).1
        have hstart := (pairwise_before (k + 1) ps).2
        rw [hrest] at hsorted hstart ⊢
        obtain ⟨hhead, -⟩ := List.pairwise_cons.mp hsorted
        have hfirst : r₀.before = k + 1 := by
          cases ps with
          | nil => exact absurd hrest (by simp [ofList])
          | cons q ps =>
            obtain ⟨_, heq⟩ := exists_ofList_takeWhile (k + 1) q ps
            rw [heq] at hrest
            rw [← (List.cons.inj hrest).1]
        split
        · next htype =>
          -- the first of the runs behind is taken into the new one
          rw [List.mem_cons, or_iff_right fun heq => hk (by rw [heq]), List.mem_cons]
          constructor
          · intro hmem
            have hlt := hhead r hmem
            exact ⟨Or.inr hmem, fun heq => by omega⟩
          · rintro ⟨rfl | hmem, hne⟩
            · exact absurd htype.symm (hne hfirst)
            · exact hmem
        · next htype =>
          rw [List.mem_cons, or_iff_right fun heq => hk (by rw [heq])]
          refine ⟨fun hmem => ⟨hmem, fun heq => ?_⟩, And.left⟩
          rcases List.mem_cons.mp hmem with rfl | hmem
          · exact fun h => htype h.symm
          · have hlt := hhead r hmem
            omega

theorem nodup_ofList (k : Nat) (ps : List Parameter) : (ofList k ps).Nodup :=
  List.nodup_iff_pairwise_ne.mpr <| (pairwise_before k ps).1.imp fun {r r'} hlt heq => by
    rw [heq] at hlt
    exact Nat.lt_irrefl _ hlt

/-- Different runs start with different parameters of the list. -/
theorem map_first_sublist (k : Nat) (ps : List Parameter) : (ofList k ps).map (·.first) <+ ps := by
  induction ps generalizing k with
  | nil => exact List.nil_sublist _
  | cons p ps ih =>
    have hih := ih (k + 1)
    unfold ofList cons
    split
    · exact (List.nil_sublist ps).cons_cons p
    · next r runs heq =>
      rw [heq] at hih
      split
      · exact ((List.sublist_cons_self _ _).trans hih).cons_cons p
      · exact hih.cons_cons p

end Run

end AdjacentTypesRule

/-! ## Names of parameters -/

/-- The tokens that name the parameters of a function. -/
def Entity.parameterNames (e : Entity) : List Token := e.parameters.filterMap (·.name)

namespace Extraction

theorem map_token_parameterEntities (index : Nat) (parameters : List Parameter) :
    (parameterEntities index parameters).map (·.token) = parameters.filterMap (·.name) := by
  unfold parameterEntities
  rw [List.map_filterMap]
  congr
  funext p
  cases p.name <;> rfl

/-- The names of parameters are the names of entities that have no parameters themselves. -/
def NamesParameters (es : List Entity) : Prop :=
  es.flatMap (·.parameterNames) <+ (es.filter (·.parameters.isEmpty)).map (·.token)

theorem NamesParameters.append {es fs : List Entity} (hes : NamesParameters es) (hfs : NamesParameters fs) :
    NamesParameters (es ++ fs) := by
  unfold NamesParameters
  rw [List.flatMap_append, List.filter_append, List.map_append]
  exact List.Sublist.append hes hfs

/-- Entities without parameters name none. -/
theorem namesParameters_of_nil {es : List Entity} (h : ∀ e ∈ es, e.parameters = []) : NamesParameters es := by
  have hnone : es.flatMap (·.parameterNames) = [] :=
    List.flatMap_eq_nil_iff.mpr fun e he => by rw [Entity.parameterNames, h e he, List.filterMap_nil]
  unfold NamesParameters
  rw [hnone]
  exact List.nil_sublist _

/-- A function comes with the entities of its parameters. -/
theorem namesParameters_function (x : Extraction) (f : FunctionHead) (hasBody : Bool) (index : Nat) :
    NamesParameters (parameterEntities index (Parameter.readAll (parameterTokens f)) ++
      [functionEntity x f hasBody]) := by
  have hparameters := parameters_parameterEntities index (Parameter.readAll (parameterTokens f))
  have hnone : (parameterEntities index (Parameter.readAll (parameterTokens f))).flatMap (·.parameterNames) = [] :=
    List.flatMap_eq_nil_iff.mpr fun e he => by rw [Entity.parameterNames, hparameters e he, List.filterMap_nil]
  have hall : (parameterEntities index (Parameter.readAll (parameterTokens f))).filter (·.parameters.isEmpty) =
      parameterEntities index (Parameter.readAll (parameterTokens f)) :=
    List.filter_eq_self.mpr fun e he => by rw [hparameters e he]; rfl
  unfold NamesParameters
  rw [List.flatMap_append, hnone, List.nil_append, List.flatMap_singleton, List.filter_append, hall,
    List.map_append, map_token_parameterEntities]
  exact List.sublist_append_left _ _

theorem namesParameters_openNamespaces (x : Extraction) (chained : Bool) (start : Nat) (names : List Token) :
    ∃ es, (x.openNamespaces chained start names).entities.toList = x.entities.toList ++ es ∧
      NamesParameters es := by
  induction names generalizing x chained with
  | nil => exact ⟨[], (List.append_nil _).symm, namesParameters_of_nil (by simp)⟩
  | cons name names ih =>
    obtain ⟨namespaceNames, hcons⟩ := openNamespaces_cons x chained start name names
    obtain ⟨es, hes, hnames⟩ := ih { x with
      scopes := x.scopes.push ⟨.namespace_, some name.text, some x.currentIndex, start, start, chained, false⟩
      opened := x.scopes.size :: x.opened
      entities := x.entities.push
        { kind := .namespace_, name := name.text, token := name, scope := x.currentIndex }
      namespaceNames } true
    rw [hcons, hes, Array.toList_push, List.append_assoc]
    exact ⟨_, rfl, (namesParameters_of_nil (by simp)).append hnames⟩

/-- What is recorded between two states of reading names its parameters. -/
theorem namesParameters_of_takes {code ts : List Token} {x y : Extraction} (h : Takes code ts x y) :
    ∃ es, y.entities.toList = x.entities.toList ++ es ∧ NamesParameters es := by
  have same : ∀ {x : Extraction}, ∃ es, x.entities.toList = x.entities.toList ++ es ∧ NamesParameters es :=
    ⟨[], (List.append_nil _).symm, namesParameters_of_nil (by simp)⟩
  induction h with
  | note => exact same
  | anomaly => exact same
  | @declare x e t _ _ _ _ _ _ hparameters =>
    exact ⟨[e], entities_add x e, namesParameters_of_nil (by simpa using hparameters)⟩
  | @declareType x keyword head _ =>
    exact ⟨_, entities_addType x keyword head none,
      namesParameters_of_nil (parameters_typeEntity x keyword head none)⟩
  | @function x f hasBody _ =>
    exact ⟨_, by rw [entities_addFunction, List.append_assoc], namesParameters_function x f hasBody _⟩
  | @opensType x keyword head inTypedef _ _ =>
    exact ⟨_, entities_openType x inTypedef keyword head,
      namesParameters_of_nil (parameters_typeEntity x keyword head _)⟩
  | opens => exact same
  | opensNamespaces => exact namesParameters_openNamespaces _ _ _ _
  | closes _ hleave =>
    obtain ⟨_, _, -, -, rfl⟩ := leave_eq hleave
    exact same
  | append _ _ ihxy ihyz =>
    obtain ⟨es, hes, hnames⟩ := ihxy
    obtain ⟨fs, hfs, hnames'⟩ := ihyz
    exact ⟨es ++ fs, by rw [hfs, hes, List.append_assoc], hnames.append hnames'⟩
  | within _ _ ih => exact ih

end Extraction

/-- The functions of a file are named by different tokens, and so are their parameters, by tokens that name no
function with parameters. -/
structure NamedApart (text : Text) (es : List Entity) : Prop where
  mem : ∀ e ∈ es, e.token ∈ tokens text
  mem_names : ∀ e ∈ es, ∀ t ∈ e.parameterNames, t ∈ tokens text
  tokens : (es.map (·.token)).Nodup
  names : (es.flatMap (·.parameterNames)).Nodup
  apart : ∀ e ∈ es, e.parameters ≠ [] → ∀ e' ∈ es, e.token ∉ e'.parameterNames

theorem namedApart_functions (text : Text) :
    NamedApart text ((extract (tokens text)).entities.filter (·.isFunction)) := by
  have htakes := Extraction.takes_run (.initial (Extraction.codeEnd (tokens text)))
    (List.suffix_rfl (l := Token.code (tokens text)))
  obtain ⟨declared, hdeclared, hdeclares⟩ := Extraction.declares_of_takes htakes
  obtain ⟨declared', hdeclared', hnames⟩ := Extraction.namesParameters_of_takes htakes
  obtain rfl : declared = declared' := List.append_cancel_left (hdeclared.symm.trans hdeclared')
  obtain ⟨macros, hentities, -, hmacros⟩ := Extraction.ofTokens_eq_readCode (tokens text)
  -- sorting and the macros add no function and take none away
  have hperm : ((extract (tokens text)).entities.filter (·.isFunction)).Perm (declared.filter (·.isFunction)) := by
    rw [extract_eq]
    refine ((List.mergeSort_perm _ _).filter _).trans (.of_eq ?_)
    rw [hentities, Extraction.readCode, hdeclared]
    have hnone : macros.filter (·.isFunction) = [] := List.filter_eq_nil_iff.mpr fun e he => by
      obtain ⟨_, -, -, hmacro⟩ := hmacros e he
      simp [Entity.isFunction, hmacro.kind]
    rw [List.filter_append, hnone, List.append_nil]
    rfl
  obtain ⟨names, hnamesPerm, hnamesCode⟩ := hdeclares.tokens
  have hnodup : (declared.map (·.token)).Nodup :=
    hnamesPerm.nodup_iff.mp ((nodup_tokens text).sublist (hnamesCode.trans List.filter_sublist))
  have htoken : ∀ e ∈ declared, e.token ∈ tokens text := fun e he =>
    (List.mem_filter.mp (hdeclares.token_mem he)).1
  -- a parameter with a name is an entity of its own, without parameters
  have hname : ∀ e ∈ declared, ∀ t ∈ e.parameterNames, ∃ e' ∈ declared, e'.parameters = [] ∧ e'.token = t := by
    intro e he t ht
    obtain ⟨e', he', rfl⟩ := List.mem_map.mp (hnames.subset (List.mem_flatMap.mpr ⟨e, he, ht⟩))
    obtain ⟨he', hempty⟩ := List.mem_filter.mp he'
    exact ⟨e', he', List.isEmpty_iff.mp hempty, rfl⟩
  have hsub : ∀ e ∈ (extract (tokens text)).entities.filter (·.isFunction), e ∈ declared := fun e he =>
    (List.mem_filter.mp (hperm.mem_iff.mp he)).1
  refine ⟨fun e he => htoken e (hsub e he), fun e he t ht => ?_, ?_, ?_, fun e he hparameters e' he' hmem => ?_⟩
  · obtain ⟨e', he', -, rfl⟩ := hname e (hsub e he) t ht
    exact htoken e' he'
  · exact (hperm.map _).nodup_iff.mpr (hnodup.sublist (List.filter_sublist.map _))
  · refine (hperm.flatMap_right _).nodup_iff.mpr ?_
    have hpicked : (declared.filter (·.isFunction)).flatMap (·.parameterNames) <+
        declared.flatMap (·.parameterNames) := List.filter_sublist.flatMap _
    exact hnodup.sublist ((hpicked.trans hnames).trans (List.filter_sublist.map _))
  · -- a name is declared once, so the function would be the parameter
    obtain ⟨e'', he'', hempty, htoken⟩ := hname e' (hsub e' he') e.token hmem
    rw [List.inj_on_of_nodup_map hnodup he'' (hsub e he) htoken] at hempty
    exact hparameters hempty

/-! ## Places of runs -/

namespace AdjacentTypesRule

/-- The runs of a function that are reported. -/
def longRuns (e : Entity) : List Run :=
  (Run.ofList 0 e.parameters).filter fun r => decide (2 ≤ r.length) && !r.typeText.isEmpty

theorem mem_longRuns_iff {e : Entity} {r : Run} : r ∈ longRuns e ↔ r.IsLong e.parameters := by
  unfold longRuns
  rw [List.mem_filter, Run.mem_ofList_iff, Bool.and_eq_true, decide_eq_true_eq, Bool.not_eq_true',
    List.isEmpty_eq_false_iff]
  exact ⟨fun h => ⟨h.1, h.2.1, h.2.2⟩, fun h => ⟨h.maximal, h.several, h.written⟩⟩

/-- The token that a run is reported at. -/
def place (e : Entity) (r : Run) : Token := r.first.name.getD e.token

/-- What is reported of a run of a function, with the severity that the configuration gives the rule. -/
def reported (f : SourceFile) (e : Entity) (r : Run) : Violation :=
  withSeverity (f.config.ruleSettings info.id).severity (violation f e r)

theorem identity_reported (f : SourceFile) (e : Entity) (r : Run) :
    (reported f e r).identity = ⟨info.id, some (some f.path.toString, some ↑(place e r).line,
      some ↑(place e r).column, some ↑(place e r).endLine, some ↑(place e r).endColumn)⟩ := by
  unfold reported
  cases (f.config.ruleSettings info.id).severity <;> rfl

/-- Runs are told apart in a report by their places. -/
theorem identity_reported_eq_iff {f : SourceFile} {text : Text} {e e' : Entity} {r r' : Run}
    (h : place e r ∈ tokens text) (h' : place e' r' ∈ tokens text) :
    (reported f e r).identity = (reported f e' r').identity ↔ place e r = place e' r' := by
  rw [identity_reported, identity_reported]
  constructor
  · intro heq
    simp only [Identity.mk.injEq, Option.some.injEq, Prod.mk.injEq, Int.natCast_inj, true_and] at heq
    exact eq_of_place_eq h h' heq.1 heq.2.1
  · intro heq
    rw [heq]

variable {text : Text} {es : List Entity} {e e' : Entity} {r r' : Run}

theorem mem_names_of_mem_longRuns (h : r ∈ longRuns e) {t : Token} (ht : r.first.name = some t) :
    t ∈ e.parameterNames := by
  have hfirst := (Run.map_first_sublist 0 e.parameters).subset
    (List.mem_map_of_mem (f := (·.first)) (List.mem_filter.mp h).1)
  exact List.mem_filterMap.mpr ⟨r.first, hfirst, ht⟩

theorem parameters_ne_nil (h : r ∈ longRuns e) : e.parameters ≠ [] := by
  intro hnil
  unfold longRuns at h
  rw [hnil] at h
  exact absurd h List.not_mem_nil

theorem place_mem (hes : NamedApart text es) (he : e ∈ es) (h : r ∈ longRuns e) : place e r ∈ tokens text := by
  unfold place
  cases hname : r.first.name with
  | none => exact hes.mem e he
  | some t => exact hes.mem_names e he t (mem_names_of_mem_longRuns h hname)

/-- The place of a run that starts with a name is no place of a function with parameters. -/
theorem token_ne_place (hes : NamedApart text es) (he : e ∈ es) (hparameters : e.parameters ≠ []) (he' : e' ∈ es)
    (h' : r' ∈ longRuns e') {t : Token} (ht : r'.first.name = some t) : e.token ≠ t := fun heq =>
  hes.apart e he hparameters e' he' (heq ▸ mem_names_of_mem_longRuns h' ht)

/-- Runs of different functions have different places. -/
theorem place_ne_of_apart (hes : NamedApart text es) (he : e ∈ es) (he' : e' ∈ es) (h : r ∈ longRuns e)
    (h' : r' ∈ longRuns e') (htokens : e.token ≠ e'.token)
    (hnames : ∀ t ∈ e.parameterNames, t ∉ e'.parameterNames) : place e r ≠ place e' r' := by
  unfold place
  cases hname : r.first.name with
  | none =>
    cases hname' : r'.first.name with
    | none => exact htokens
    | some t' => exact token_ne_place hes he (parameters_ne_nil h) he' h' hname'
  | some t =>
    have hmem := mem_names_of_mem_longRuns h hname
    cases hname' : r'.first.name with
    | none => exact (token_ne_place hes he' (parameters_ne_nil h') he h hname).symm
    | some t' =>
      rintro (rfl : t = t')
      exact hnames t hmem (mem_names_of_mem_longRuns h' hname')

/-- Of the runs of one function those have different places that do not both start without a name. -/
theorem pairwise_place_iff (hes : NamedApart text es) (he : e ∈ es) :
    (longRuns e).Pairwise (fun r r' => place e r ≠ place e r') ↔
      (longRuns e).Pairwise fun r r' => ¬ (r.first.name = none ∧ r'.first.name = none) := by
  have hnodup : e.parameterNames.Nodup := (List.nodup_flatMap.mp hes.names).1 e he
  have hnamed : (longRuns e).Pairwise fun r r' => ∀ t, r.first.name = some t → r'.first.name ≠ some t := by
    have hfirsts : (((longRuns e).map (·.first)).filterMap (·.name)).Nodup :=
      hnodup.sublist (((List.filter_sublist.map _).trans (Run.map_first_sublist 0 e.parameters)).filterMap _)
    rw [List.nodup_iff_pairwise_ne, List.pairwise_filterMap, List.pairwise_map] at hfirsts
    exact hfirsts.imp fun hne t ht ht' => hne t ht t ht' rfl
  constructor
  · refine List.Pairwise.imp fun {r r'} hne hnone => hne ?_
    unfold place
    rw [hnone.1, hnone.2]
  · intro hsome
    refine ((hsome.and hnamed).imp_of_mem fun {r r'} hr hr' hboth => ?_)
    unfold place
    cases hname : r.first.name with
    | none =>
      cases hname' : r'.first.name with
      | none => exact absurd ⟨hname, hname'⟩ hboth.1
      | some t' => exact token_ne_place hes he (parameters_ne_nil hr) he hr' hname'
    | some t =>
      cases hname' : r'.first.name with
      | none => exact (token_ne_place hes he (parameters_ne_nil hr') he hr hname).symm
      | some t' =>
        rintro (rfl : t = t')
        exact hboth.2 t hname hname'

/-- The runs of the functions of a file that are reported. -/
def fileRuns (f : SourceFile) : List (Entity × Run) :=
  (f.model.entities.filter (·.isFunction)).flatMap fun e => (longRuns e).map (e, ·)

theorem map_check (f : SourceFile) :
    (check f).map (withSeverity (f.config.ruleSettings info.id).severity) =
      (fileRuns f).map fun x => reported f x.1 x.2 := by
  unfold check fileRuns
  rw [List.map_flatMap, List.map_flatMap]
  refine List.flatMap_congr fun e _ => ?_
  rw [List.map_map, List.map_map]
  rfl

section File

variable {config : Config} {isOneOfMany : Bool} {path : SourcePath}

theorem mem_fileRuns_iff {f : SourceFile} :
    (e, r) ∈ fileRuns f ↔ e ∈ f.model.entities ∧ e.isFunction = true ∧ r.IsLong e.parameters := by
  unfold fileRuns
  simp only [List.mem_flatMap, List.mem_filter, List.mem_map, Prod.mk.injEq, mem_longRuns_iff]
  constructor
  · rintro ⟨e, ⟨he, hfunction⟩, r, hr, rfl, rfl⟩
    exact ⟨he, hfunction, hr⟩
  · rintro ⟨he, hfunction, hr⟩
    exact ⟨e, ⟨he, hfunction⟩, r, hr, rfl, rfl⟩

theorem nodup_fileRuns : (fileRuns (.ofText config isOneOfMany path text)).Nodup := by
  have hfunctions : ((extract (tokens text)).entities.filter (·.isFunction)).Nodup :=
    (namedApart_functions text).tokens.of_map _
  refine List.nodup_flatMap.mpr ⟨fun e _ => ?_, hfunctions.imp fun {e e'} hne x hx hx' => hne ?_⟩
  · exact ((Run.nodup_ofList 0 e.parameters).filter _).map fun r r' heq => (Prod.mk.inj heq).2
  · obtain ⟨r, -, rfl⟩ := List.mem_map.mp hx
    obtain ⟨r', -, heq⟩ := List.mem_map.mp hx'
    exact (Prod.mk.inj heq).1.symm

/-- No two runs of one function start without a name. -/
def StartsNamed (f : SourceFile) : Prop :=
  ∀ e ∈ f.model.entities, e.isFunction = true → ∀ r r' : Run, r.IsLong e.parameters → r'.IsLong e.parameters →
    r.first.name = none → r'.first.name = none → r = r'

/-- The runs of a file are reported apart if no two of one function start without a name. -/
theorem onePerIdentity_of_startsNamed (h : StartsNamed (.ofText config isOneOfMany path text)) :
    OnePerIdentity ((fileRuns (.ofText config isOneOfMany path text)).map fun x =>
      reported (.ofText config isOneOfMany path text) x.1 x.2) := by
  have hes := namedApart_functions text
  unfold OnePerIdentity fileRuns
  rw [List.pairwise_map, List.pairwise_flatMap]
  constructor
  · intro e he
    obtain ⟨hentity, hfunction⟩ := List.mem_filter.mp he
    have hnamed : (longRuns e).Pairwise fun r r' => ¬ (r.first.name = none ∧ r'.first.name = none) :=
      (List.nodup_iff_pairwise_ne.mp ((Run.nodup_ofList 0 e.parameters).filter _)).imp_of_mem
        fun {r r'} hr hr' hne hnone => hne <| h e hentity hfunction r r' (mem_longRuns_iff.mp hr)
          (mem_longRuns_iff.mp hr') hnone.1 hnone.2
    refine List.pairwise_map.mpr (((pairwise_place_iff hes he).mpr hnamed).imp_of_mem ?_)
    intro r r' hr hr' hne hsame
    exact hne ((identity_reported_eq_iff (place_mem hes he hr) (place_mem hes he hr')).mp hsame)
  · have htokens := List.pairwise_map.mp (List.nodup_iff_pairwise_ne.mp hes.tokens)
    refine (htokens.and (List.nodup_flatMap.mp hes.names).2).imp_of_mem ?_
    intro e e' he he' hapart x hx y hy hsame
    obtain ⟨r, hr, rfl⟩ := List.mem_map.mp hx
    obtain ⟨r', hr', rfl⟩ := List.mem_map.mp hy
    refine place_ne_of_apart hes he he' hr hr' hapart.1 (fun t ht ht' => hapart.2 ht ht') ?_
    exact (identity_reported_eq_iff (place_mem hes he hr) (place_mem hes he' hr')).mp hsame

end File

/-! ## The report of a run -/

/-- Violations are exactly the reports of the longest runs of several parameters of one type, each once. -/
def ReportsEachRun (f : SourceFile) (vs : List Violation) : Prop :=
  ∃ runs : List (Entity × Run), runs.Nodup ∧
    (∀ e r, (e, r) ∈ runs ↔ e ∈ f.model.entities ∧ e.isFunction = true ∧ r.IsLong e.parameters) ∧
    vs.Perm (runs.map fun x => reported f x.1 x.2)

/-- Where each run is reported, and one violation at each place, no two runs of a function start without a
name. -/
theorem startsNamed_of_reportsEachRun {f : SourceFile} {vs : List Violation} (hone : OnePerIdentity vs)
    (h : ReportsEachRun f vs) : StartsNamed f := by
  obtain ⟨runs, -, hruns, hperm⟩ := h
  intro e he hfunction r r' hr hr' hname hname'
  have hpairwise : OnePerIdentity (runs.map fun x => reported f x.1 x.2) := hone.perm hperm Ne.symm
  have hsame : (reported f e r).identity = (reported f e r').identity := by
    rw [identity_reported, identity_reported, place, place, hname, hname']
  by_contra hne
  have hsymm : Std.Symm fun x y : Entity × Run =>
      (reported f x.1 x.2).identity ≠ (reported f y.1 y.2).identity := ⟨fun _ _ => Ne.symm⟩
  exact List.Pairwise.forall (List.pairwise_map.mp hpairwise) ((hruns e r).mpr ⟨he, hfunction, hr⟩)
    ((hruns e r').mpr ⟨he, hfunction, hr'⟩) (fun heq => hne (Prod.mk.inj heq).2) hsame

variable {target : CheckTarget} {w : World} {mode : FixMode} {p : SourcePath} {res : CheckResult} {f : SourceFile}

/-- **Each run of parameters is reported once, just if no two of one function start without a name.** This holds
of the report of any run of the checker on a file that was checked, with the rule enabled and not turned off in
the file. -/
theorem runs_reported_iff (h : target.check w mode = .ok res) (hp : p ∈ res.files)
    (hf : target.source? w res.found p = some f)
    (henabled : info.id ∈ target.config.enabledRuleIds Rule.defaultEnablement)
    (hclear : ∀ line, f.suppressions.isSuppressed info.id line = false) :
    ReportsEachRun f (res.violations.filter (isOfRuleAt info.id p)) ↔ StartsNamed f := by
  have hbuiltin : Rule.total info check ∈ Rule.builtin := by simp [Rule.builtin]
  have henabled' : Rule.total info check ∈ Rule.enabled target.config := by
    rw [Rule.enabled, List.mem_filter, List.contains_iff_mem]
    exact ⟨hbuiltin, henabled⟩
  have hdetect : detectRule f (.total info check) = (fileRuns f).map fun x => reported f x.1 x.2 := by
    unfold detectRule
    rw [check_eq_reports hbuiltin, reports_total]
    dsimp only
    rw [show f.config.ruleSettings (Rule.total info check).info.id = f.config.ruleSettings info.id from rfl,
      map_check, List.filter_eq_self]
    intro v hv
    obtain ⟨x, -, rfl⟩ := List.mem_map.mp hv
    have hid : (reported f x.1 x.2).ruleId = info.id := congrArg Identity.ruleId (identity_reported f x.1 x.2)
    rw [isTurnedOff, hid, hclear, Bool.and_false, Bool.not_false]
  have hreport := CheckTarget.filter_report_perm h hp hf henabled' rfl
  rw [hdetect] at hreport
  obtain ⟨bytes, -, rfl⟩ := Option.map_eq_some_iff.mp hf
  constructor
  · intro hruns
    have hone : OnePerIdentity (res.violations.filter (isOfRuleAt info.id p)) :=
      (firstOfEach_onePerIdentity [] _).perm hreport.symm Ne.symm
    exact startsNamed_of_reportsEachRun hone hruns
  · intro hnamed
    rw [firstOfEach_of_onePerIdentity (onePerIdentity_of_startsNamed hnamed)] at hreport
    exact ⟨_, nodup_fileRuns, fun _ _ => mem_fileRuns_iff, hreport⟩

/-- A run of the checker over one file whose text can be read back. -/
theorem exists_check_onlyFile (text : Text) (hdecode : Utf8.decode (Utf8.encode text) = text) :
    ∃ res, (CheckTarget.onlyFileWith []).check (CheckTarget.onlyFile text) {} = .ok res ∧
      CheckTarget.onlyPath ∈ res.files ∧ OnePerIdentity res.violations ∧
      (CheckTarget.onlyFileWith []).source? (CheckTarget.onlyFile text) res.found CheckTarget.onlyPath =
        some (.ofText {} false CheckTarget.onlyPath text) := by
  obtain ⟨res, hrun, hgives⟩ := CheckTarget.exists_check {} rfl (CheckTarget.files_onlyFileWith [] List.nodup_nil text)
  have hone := (CheckTarget.kept_of_checkBy rfl rfl (CheckTarget.check_eq_checkBy _ _ _ ▸ hrun)).2.1
  refine ⟨res, hrun, ?_, hone, ?_⟩
  · rw [hgives.files]
    exact List.mem_singleton_self _
  · unfold CheckTarget.source?
    rw [(CheckTarget.holds_onlyFile text).file?, Option.map_some, hdecode, hgives.found]
    rfl

/-- A run that starts with a name and one that does not are both reported. -/
theorem runs_reported_named_and_not :
    ∃ res f, (CheckTarget.onlyFileWith []).check
        (CheckTarget.onlyFile (Text.ofString "void f(int a, int b, double, double);")) {} = .ok res ∧
      (CheckTarget.onlyFileWith []).source?
        (CheckTarget.onlyFile (Text.ofString "void f(int a, int b, double, double);")) res.found
          CheckTarget.onlyPath = some f ∧
      StartsNamed f ∧ ReportsEachRun f (res.violations.filter (isOfRuleAt info.id CheckTarget.onlyPath)) := by
  -- the parameters come up before the function, so the text is not in order
  obtain ⟨hdecode, hclosed, hentries, hruns⟩ :
      Utf8.decode (Utf8.encode (Text.ofString "void f(int a, int b, double, double);")) =
          Text.ofString "void f(int a, int b, double, double);" ∧
        (Suppressions.Reading.ofTokens
          (tokens (Text.ofString "void f(int a, int b, double, double);"))).opened = [] ∧
        (Suppressions.Reading.ofTokens
          (tokens (Text.ofString "void f(int a, int b, double, double);"))).asRead.entries = [] ∧
        ∀ e ∈ (Extraction.ofTokens
          (tokens (Text.ofString "void f(int a, int b, double, double);"))).entities.toList,
            ∀ r ∈ longRuns e, ∀ r' ∈ longRuns e, r.first.name = none → r'.first.name = none → r = r' := by
    rw [Text.ofString_ofList]
    decide +kernel
  rw [← Suppressions.ofTokens_eq_asRead hclosed] at hentries
  obtain ⟨res, hrun, hp, -, hf⟩ := exists_check_onlyFile _ hdecode
  have hnamed : StartsNamed (.ofText {} false CheckTarget.onlyPath
      (Text.ofString "void f(int a, int b, double, double);")) := fun e he _ r r' hr hr' =>
    hruns e (mem_entities_extract.mp he) r (mem_longRuns_iff.mpr hr) r' (mem_longRuns_iff.mpr hr')
  refine ⟨res, _, hrun, hf, hnamed, (runs_reported_iff hrun hp hf (by decide) fun line => ?_).mpr hnamed⟩
  show Suppressions.isSuppressed (Suppressions.ofTokens _) info.id line = false
  unfold Suppressions.isSuppressed
  rw [hentries]
  rfl

/-- Of two runs without names only the first is reported. -/
theorem exists_lost_run :
    ∃ (target : CheckTarget) (w : World) (res : CheckResult) (p : SourcePath) (f : SourceFile),
      target.check w {} = .ok res ∧ p ∈ res.files ∧ target.source? w res.found p = some f ∧
        info.id ∈ target.config.enabledRuleIds Rule.defaultEnablement ∧ f.suppressions.entries = [] ∧
        ¬ ReportsEachRun f (res.violations.filter (isOfRuleAt info.id p)) := by
  obtain ⟨hdecode, hentries, e, he, hfunction, r, hr, r', hr', hname, hname', hne⟩ :=
    SourceFile.of_asRead {} false CheckTarget.onlyPath (Text.ofString "void mix(int, int, double, double);")
      (P := fun f => Utf8.decode (Utf8.encode f.text) = f.text ∧ f.suppressions.entries = [] ∧
        ∃ e ∈ f.model.entities, e.isFunction = true ∧ ∃ r ∈ longRuns e, ∃ r' ∈ longRuns e,
          r.first.name = none ∧ r'.first.name = none ∧ r ≠ r')
      (by
        rw [Text.ofString_ofList]
        decide +kernel)
  obtain ⟨res, hrun, hp, hone, hf⟩ := exists_check_onlyFile _ hdecode
  refine ⟨_, _, res, _, _, hrun, hp, hf, by decide, hentries, fun hruns => ?_⟩
  have hnamed := startsNamed_of_reportsEachRun (hone.sublist List.filter_sublist) hruns
  exact hne (hnamed e he hfunction r r' (mem_longRuns_iff.mp hr) (mem_longRuns_iff.mp hr') hname hname')

end AdjacentTypesRule

end HouseStyle
