import HouseStyle.Proofs.CoreExtraction
import HouseStyle.Proofs.DistinctTokens

/-!
# The order of the words in front of a variable

`static const int` may be written `const int static` as well: the words in front of the name of a variable say
the same in any order. The reader takes specifiers off the front of a head first and the words of a type then,
and it does not come back to the specifiers. So the words are understood in every order in which no specifier
stands behind a word of the type, and in no other: there the head is read as no declaration at all.

- `foldl_note_specs`, `isType_words`: in the one order the head of a variable says what its words say.
- `read_misplaced`: in the other order it declares nothing.
- `declaredBy_of_reaches`: what the model of a file holds of one statement.
- `Around.reaches`: reading gets to every place of a core program where a variable may stand.
- `recorded_iff_specifiersFirst`: which orders are understood, at such places and at all others.
-/

namespace HouseStyle

open List (Sublist)
open scoped List

/-- The entities of a model that some tokens declare. -/
def Model.declaredBy (m : Model) (ts : List Token) : List Entity := m.entities.filter fun e => ts.contains e.token

/-- The stretches of a model that were not understood and that one of some tokens stands in. -/
def Model.misunderstood (m : Model) (ts : List Token) : List (Token × Token) :=
  m.anomalies.filter fun a => ts.any fun t => decide (a.1.start ≤ t.start ∧ t.stop ≤ a.2.stop)

namespace Core

open Extraction

/-! ## Words -/

/-- What the words in front of the name of a variable say. -/
structure Specification where
  isStatic : Bool
  isConstexpr : Bool
  isConst : Bool
  type : TypeWord

namespace Specification

/-- The words in the order `static`, `constexpr`, `const` and the type. -/
def words (s : Specification) : List Keyword :=
  (if s.isStatic then [.staticKw] else []) ++ (if s.isConstexpr then [.constexprKw] else []) ++
    (if s.isConst then [.constKw] else []) ++ [s.type.1]

/-- What the variable is in a region. -/
def kind (s : Specification) (region : Region) : EntityKind :=
  if s.isConstexpr = true ∨ s.isConst = true ∧ region = .outer ∨
    s.isConst = true ∧ region = .class_ ∧ s.isStatic = true then .constant else .variable_

/-- The entity of the variable. -/
structure Describes (s : Specification) (region : Region) (e : Entity) : Prop where
  kind : e.kind = s.kind region
  isStatic : e.isStatic = s.isStatic
  isConstexpr : e.isConstexpr = s.isConstexpr
  isConst : e.isConst = s.isConst
  storage : e.storage = if s.isStatic then some .static else none
  name : e.name = e.token.text

/-- A model holds the variable as the one entity that some tokens declare, and has understood all of them. -/
structure Recorded (s : Specification) (region : Region) (decl : List Token) (m : Model) : Prop where
  entity : ∃ e, m.declaredBy decl = [e] ∧ s.Describes region e
  understood : m.misunderstood decl = []

end Specification

/-- The kinds of the tokens of a variable that is initialized with a literal. -/
def variableKinds (words : List Keyword) : List TokenKind :=
  words.map .keyword ++ [.identifier, .punct .eq, .literal, .punct .semicolon]

/-- No specifier stands behind a word of the type. -/
def SpecifiersFirst (words : List Keyword) : Prop :=
  words.Pairwise fun a b => b.isSpecifier = true → a.isSpecifier = true

instance (words : List Keyword) : Decidable (SpecifiersFirst words) :=
  inferInstanceAs (Decidable (List.Pairwise _ words))

theorem not_of_head_dropWhile {p : Keyword → Bool} {ks : List Keyword} {k : Keyword}
    (hk : k ∈ (ks.dropWhile p).head?) : p k = false := by
  have h := List.head?_dropWhile_not p ks
  rw [Option.mem_def.mp hk] at h
  simpa using h

/-- Words fall into specifiers, words of a type, and what begins with a specifier again. There is no such rest
exactly if the specifiers stand first. -/
theorem exists_split (words : List Keyword) :
    ∃ specs type back, words = specs ++ (type ++ back) ∧ (∀ k ∈ specs, k.isSpecifier = true) ∧
      (∀ k ∈ type, k.isSpecifier = false) ∧ (SpecifiersFirst words ↔ back = []) ∧
      ∀ k more, back = k :: more → k.isSpecifier = true ∧ type ≠ [] := by
  obtain ⟨specs, rest, hwords, hspecs, hrest⟩ : ∃ specs rest, words = specs ++ rest ∧
      (∀ k ∈ specs, k.isSpecifier = true) ∧ ∀ k ∈ rest.head?, k.isSpecifier = false :=
    ⟨words.takeWhile Keyword.isSpecifier, words.dropWhile Keyword.isSpecifier,
      List.takeWhile_append_dropWhile.symm, fun k hk => List.mem_takeWhile_imp hk,
      fun k hk => not_of_head_dropWhile hk⟩
  obtain ⟨type, back, rfl, htype, hback⟩ : ∃ type back, rest = type ++ back ∧
      (∀ k ∈ type, k.isSpecifier = false) ∧ ∀ k ∈ back.head?, k.isSpecifier = true :=
    ⟨rest.takeWhile (!·.isSpecifier), rest.dropWhile (!·.isSpecifier),
      List.takeWhile_append_dropWhile.symm, fun k hk => by simpa using List.mem_takeWhile_imp hk,
      fun k hk => by simpa using not_of_head_dropWhile hk⟩
  have hmore : ∀ k more, back = k :: more → k.isSpecifier = true ∧ type ≠ [] := by
    rintro k more rfl
    refine ⟨hback k rfl, ?_⟩
    rintro rfl
    exact absurd ((hback k rfl).symm.trans (hrest k rfl)) (by decide)
  refine ⟨specs, type, back, hwords, hspecs, htype, ?_, hmore⟩
  rw [hwords]
  constructor
  · intro hfirst
    cases back with
    | nil => rfl
    | cons k more =>
      obtain ⟨hk, hne⟩ := hmore k more rfl
      obtain ⟨a, type, rfl⟩ := List.exists_cons_of_ne_nil hne
      have hpair := List.rel_of_pairwise_cons (List.pairwise_append.mp hfirst).2.1
        (List.mem_append_right type List.mem_cons_self) hk
      exact absurd ((htype a List.mem_cons_self).symm.trans hpair) (by decide)
  · rintro rfl
    rw [List.append_nil]
    refine List.pairwise_append.mpr ⟨?_, ?_, fun a ha b _ _ => hspecs a ha⟩
    · exact List.pairwise_of_forall_mem_list fun a ha b _ _ => hspecs a ha
    · exact List.pairwise_of_forall_mem_list fun a _ b hb h => absurd ((htype b hb).symm.trans h) (by decide)

namespace Specification

variable {s : Specification} {words : List Keyword}

theorem mem_words {k : Keyword} : k ∈ s.words ↔ (k = .staticKw ∧ s.isStatic = true) ∨
    (k = .constexprKw ∧ s.isConstexpr = true) ∨ (k = .constKw ∧ s.isConst = true) ∨ k = s.type.1 := by
  unfold words
  cases s.isStatic <;> cases s.isConstexpr <;> cases s.isConst <;> simp

/-- The name of a type is neither a specifier nor `const`. -/
theorem type_facts (s : Specification) :
    s.type.1.isSpecifier = false ∧ s.type.1 ≠ .constKw ∧ s.type.1 ≠ .staticKw ∧ s.type.1 ≠ .constexprKw := by
  have hname := s.type.2
  refine ⟨(isTypeWord_facts (Or.inr hname)).1, ?_, ?_, ?_⟩
  all_goals
    intro h
    rw [h] at hname
    exact absurd hname (by decide)

/-- Words are `static`, `constexpr`, or words of a type. -/
theorem cases_of_mem {k : Keyword} (hk : k ∈ s.words) :
    (k.isSpecifier = true ∧ (k = .staticKw ∨ k = .constexprKw)) ∨
      (k.isSpecifier = false ∧ (k = .constKw ∨ k.isTypeName = true)) := by
  rcases mem_words.mp hk with ⟨rfl, -⟩ | ⟨rfl, -⟩ | ⟨rfl, -⟩ | rfl
  · exact Or.inl ⟨rfl, Or.inl rfl⟩
  · exact Or.inl ⟨rfl, Or.inr rfl⟩
  · exact Or.inr ⟨rfl, Or.inl rfl⟩
  · exact Or.inr ⟨s.type_facts.1, Or.inr s.type.2⟩

/-- In this order the specifiers stand first. -/
theorem specifiersFirst_words (s : Specification) : SpecifiersFirst s.words := by
  have htype := s.type_facts.1
  have hstatic : Keyword.staticKw.isSpecifier = true := rfl
  have hconstexpr : Keyword.constexprKw.isSpecifier = true := rfl
  have hconst : Keyword.constKw.isSpecifier = false := rfl
  unfold words SpecifiersFirst
  cases s.isStatic <;> cases s.isConstexpr <;> cases s.isConst <;> simp [htype, hstatic, hconstexpr, hconst]

end Specification

/-! ## Heads -/

/-- No specifier is a word of a type or begins an operator. -/
theorem isSpecifier_facts {k : Keyword} (h : k.isSpecifier = true) :
    k ≠ .constKw ∧ k ≠ .volatileKw ∧ k.isElaborated = false ∧ k.isTypeName = false ∧ k ≠ .decltypeKw ∧
      k ≠ .operatorKw := by
  unfold Keyword.isSpecifier at h
  split at h
  case h_12 => exact absurd h (by decide)
  all_goals exact ⟨nofun, nofun, rfl, rfl, nofun, nofun⟩

section

variable {us vs : List Token} {t : Token} {k : Keyword}

/-- A specifier ends the words of a type. -/
theorem afterTypeWords_specifier (seen : Bool) (ht : t.kind = .keyword k) (hk : k.isSpecifier = true)
    (rest : List Token) : afterTypeWords? seen (t :: rest) = some (seen, t :: rest) := by
  obtain ⟨hconst, hvolatile, helaborated, hname, hdecltype, -⟩ := isSpecifier_facts hk
  have hword : (t.isCv || t.isElaborated) = false := by
    simp [Token.isCv, Token.isKeyword, Token.isElaborated, ht, hconst, hvolatile, helaborated]
  have hnoDecltype : t.isKeyword .decltypeKw = false := by simp [Token.isKeyword, ht, hdecltype]
  rw [afterTypeWords?, hword, if_neg (by decide), if_neg (by simp [Token.isTypeName, ht, hname])]
  split
  · next h =>
    rw [hnoDecltype] at h
    exact absurd h (by simp)
  · next h =>
    rw [hnoDecltype] at h
    exact absurd h (by simp)
  · rw [if_neg (by simp [Token.isIdentifier, Token.isPunct, ht])]

/-- No name is declared where a specifier stands behind the type. -/
theorem typed_specifier (scope : Scope) (inFunction : Bool) (s : Specifiers) (type : List Token)
    (ht : t.kind = .keyword k) (hk : k.isSpecifier = true) (rest : List Token) :
    Declaration.typed? scope inFunction s type (t :: rest) = none := by
  have hoperator := (isSpecifier_facts hk).2.2.2.2.2
  have hnested : Declaration.startsNested (t :: rest) = false := by
    cases rest with
    | nil => rfl
    | cons u rest => simp [Declaration.startsNested, Token.isPunct, ht]
  unfold Declaration.typed?
  dsimp only
  rw [if_neg (by simp [Token.isKeyword, ht, hoperator]), if_neg (by simp [Token.isPunct, ht]),
    if_neg (by rw [hnested]; decide), if_pos (by simp [Token.isIdentifier, ht])]

/-- A head with a specifier behind a word of its type declares nothing. -/
theorem read_misplaced {specs : List Keyword} (hus : us.map (·.kind) = specs.map .keyword)
    (hspecs : ∀ k ∈ specs, k.isSpecifier = true) (hvs : ∀ v ∈ vs, IsTypeWord v) (hne : vs ≠ [])
    (ht : t.kind = .keyword k) (hk : k.isSpecifier = true) (scope : Scope) (inFunction : Bool)
    (rest : List Token) : Declaration.read? scope inFunction (us ++ (vs ++ t :: rest)) = none := by
  obtain ⟨v, vs, rfl⟩ := List.exists_cons_of_ne_nil hne
  have hv := hvs v List.mem_cons_self
  have hspecifiers : specifiers (us ++ (v :: vs ++ t :: rest)) =
      (specs.foldl Specifiers.note {}, v :: vs ++ t :: rest) := specifiersFrom_words hus hspecs {} hv _
  have hspecial : Declaration.special? scope (specs.foldl Specifiers.note {}) (v :: vs ++ t :: rest) = none :=
    special_type _ hv _
  unfold Declaration.read?
  rw [hspecifiers]
  dsimp only
  rw [hspecial]
  dsimp only
  rw [afterType?, afterTypeWords_words false hvs, afterTypeWords_specifier _ ht hk, Bool.false_or]
  -- the words may name a type already, or they may not have come to it
  cases (v :: vs).any (·.isTypeName) with
  | false => rfl
  | true =>
    have hconst := (isSpecifier_facts hk).1
    have hvolatile := (isSpecifier_facts hk).2.1
    have hstop : (t.isPointerOrReference || t.isPunct .ellipsis || t.isCv) = false := by
      simp [Token.isPointerOrReference, Token.isOneOf, Token.isPunct, Token.isCv, Token.isKeyword, ht, hconst,
        hvolatile]
    dsimp only
    rw [List.dropWhile_cons_of_neg (by rw [hstop]; decide)]
    exact typed_specifier scope inFunction _ _ ht hk rest

end

/-- Words that are `static` or `constexpr` are such words. -/
theorem exists_storage {specs : List Keyword} (h : ∀ k ∈ specs, k = .staticKw ∨ k = .constexprKw) :
    ∃ storage : List StorageWord, specs = storage.map (·.keyword) := by
  induction specs with
  | nil => exact ⟨[], rfl⟩
  | cons k specs ih =>
    rw [List.forall_mem_cons] at h
    obtain ⟨storage, rfl⟩ := ih h.2
    rcases h.1 with rfl | rfl
    · exact ⟨.static :: storage, rfl⟩
    · exact ⟨.constexpr :: storage, rfl⟩

section

variable {s : Specification} {words specs type : List Keyword} {us vs : List Token}
  (hwords : words.Perm s.words) (hsplit : words = specs ++ type) (hspecs : ∀ k ∈ specs, k.isSpecifier = true)
  (htype : ∀ k ∈ type, k.isSpecifier = false)
include hwords hsplit hspecs htype

omit hspecs in
theorem mem_specs_iff {k : Keyword} (hk : k.isSpecifier = true) : k ∈ specs ↔ k ∈ s.words := by
  rw [← hwords.mem_iff, hsplit, List.mem_append, or_iff_left]
  exact fun h => absurd (hk.symm.trans (htype k h)) (by decide)

omit htype in
theorem mem_type_iff {k : Keyword} (hk : k.isSpecifier = false) : k ∈ type ↔ k ∈ s.words := by
  rw [← hwords.mem_iff, hsplit, List.mem_append, or_iff_right]
  exact fun h => absurd (hk.symm.trans (hspecs k h)) (by decide)

/-- What is noted of the specifiers does not depend on their order. -/
theorem foldl_note_specs :
    specs.foldl Specifiers.note {} = { isStatic := s.isStatic, isConstexpr := s.isConstexpr } := by
  obtain ⟨-, -, hstatic, hconstexpr⟩ := s.type_facts
  have hcases : ∀ k ∈ specs, k = .staticKw ∨ k = .constexprKw := by
    intro k hk
    have hin := (mem_specs_iff hwords hsplit htype (hspecs k hk)).mp hk
    rcases Specification.cases_of_mem hin with ⟨-, h⟩ | ⟨h, -⟩
    · exact h
    · exact absurd ((hspecs k hk).symm.trans h) (by decide)
  obtain ⟨storage, hstorage⟩ := exists_storage hcases
  have hmem : ∀ w : StorageWord, w ∈ storage ↔ w.keyword ∈ s.words := by
    intro w
    have hspecifier : w.keyword.isSpecifier = true := by cases w <;> rfl
    rw [← mem_specs_iff hwords hsplit htype hspecifier, hstorage, List.mem_map_of_injective]
    intro a b
    cases a <;> cases b <;> simp [StorageWord.keyword]
  rw [hstorage, ← noted_eq_foldl, noted_eq]
  simp only [hmem, StorageWord.keyword, Specification.mem_words, Bool.false_or, Specifiers.mk.injEq, and_true]
  simp [hstatic.symm, hconstexpr.symm]

/-- The words that are left make up the type. -/
theorem isType_words (hvs : vs.map (·.kind) = type.map .keyword) :
    IsType ⟨s.isConst, s.type, [], 0⟩ vs [] := by
  obtain ⟨hspecifier, hconst, -⟩ := s.type_facts
  refine ⟨fun t ht => ?_, ?_, ?_, by simp, rfl⟩
  · have hmem : t.kind ∈ type.map TokenKind.keyword := hvs ▸ List.mem_map_of_mem ht
    obtain ⟨k, hk, heq⟩ := List.mem_map.mp hmem
    have hin := (mem_type_iff hwords hsplit hspecs (htype k hk)).mp hk
    rcases Specification.cases_of_mem hin with ⟨h, -⟩ | ⟨-, h⟩
    · exact absurd (h.symm.trans (htype k hk)) (by decide)
    · exact ⟨k, heq.symm, h⟩
  · rw [any_of_kinds hvs Keyword.isTypeName fun t k hk => by rw [Token.isTypeName, hk], List.any_eq_true]
    have hin : s.type.1 ∈ type :=
      (mem_type_iff hwords hsplit hspecs hspecifier).mpr (Specification.mem_words.mpr (by simp))
    exact ⟨_, hin, s.type.2⟩
  · rw [any_of_kinds hvs (· == .constKw) fun t k hk => by
      rw [Token.isKeyword, hk, Bool.eq_iff_iff, beq_iff_eq, beq_iff_eq, TokenKind.keyword.injEq]]
    have hin := mem_type_iff hwords hsplit hspecs (k := .constKw) rfl
    rw [Bool.eq_iff_iff, List.any_beq', List.contains_iff_mem, hin, Specification.mem_words]
    simp [hconst.symm]

end

/-! ## What a model holds of a statement -/

/-- Both ends of a stretch that goes from one of some tokens to the same or a later one. -/
theorem ends_of_stretch {text : Text} {ts : List Token} {a : Token × Token}
    (h : a.1 = a.2 ∧ a.1 ∈ ts ∨ [a.1, a.2] <+ ts) (hts : ts <+ tokens text) :
    a.1 ∈ ts ∧ a.2 ∈ ts ∧ a.1.stop ≤ a.2.stop := by
  rcases h with ⟨hsame, hmem⟩ | hsub
  · exact ⟨hmem, hsame ▸ hmem, by rw [hsame]⟩
  · have hsecond := hsub.subset (List.mem_cons_of_mem a.1 List.mem_cons_self)
    have hpos := start_lt_stop (hts.subset hsecond)
    have hle := List.rel_of_pairwise_cons ((tokens_ordered text).sublist (hsub.trans hts)) List.mem_cons_self
    exact ⟨hsub.subset List.mem_cons_self, hsecond, by omega⟩

section

variable {text : Text} {y z : Extraction} {front decl back : List Token}

/-- Tokens of the code that stand in other parts of it are other tokens. -/
theorem not_mem_of_parts (hcode : Token.code (tokens text) = front ++ (decl ++ back)) {t : Token}
    (ht : t ∈ front ∨ t ∈ back) : t ∉ decl := by
  have hnodup := (nodup_tokens text).sublist (List.filter_sublist (p := Token.isCode))
  change (Token.code (tokens text)).Nodup at hnodup
  rw [hcode] at hnodup
  obtain ⟨-, hmore, hfront⟩ := List.nodup_append.mp hnodup
  obtain ⟨-, -, hback⟩ := List.nodup_append.mp hmore
  intro hin
  rcases ht with ht | ht
  · exact hfront t ht t (List.mem_append_left back hin) rfl
  · exact hback t hin t ht rfl

variable (hreach : Reaches (.initial (codeEnd (tokens text))) (Token.code (tokens text)) y (decl ++ back))
  (hread : Reaches y (decl ++ back) z back)
include hreach hread

/-- The parts of the code, and what is read in them. -/
theorem takes_parts : ∃ front, Token.code (tokens text) = front ++ (decl ++ back) ∧
    Takes (Token.code (tokens text)) front (.initial (codeEnd (tokens text))) y ∧
    Takes (Token.code (tokens text)) decl y z ∧
    Takes (Token.code (tokens text)) back z (readCode (tokens text)) := by
  obtain ⟨front, hfront, hbefore⟩ := hreach.takes List.suffix_rfl
  have hsuffix : decl ++ back <:+ Token.code (tokens text) := ⟨front, hfront.symm⟩
  obtain ⟨us, hus, hof⟩ := hread.takes hsuffix
  obtain rfl := List.append_cancel_right hus
  refine ⟨front, hfront, hbefore, hof, ?_⟩
  rw [readCode, (hreach.trans hread).run_eq]
  exact takes_run z ((List.suffix_append _ back).trans hsuffix)

/-- What the tokens of a statement declare in the model is what reading the statement has recorded. -/
theorem declaredBy_of_reaches {es : List Entity} (hes : z.entities.toList = y.entities.toList ++ es) :
    ((extract (tokens text)).declaredBy decl).Perm es := by
  obtain ⟨front, hcode, hbefore, hof, hbehind⟩ := takes_parts hreach hread
  obtain ⟨before, hy, hbefore⟩ := declares_of_takes hbefore
  obtain ⟨es', hz, hof⟩ := declares_of_takes hof
  obtain rfl : es = es' := List.append_cancel_left (hes.symm.trans hz)
  obtain ⟨behind, hend, hbehind⟩ := declares_of_takes hbehind
  have hnone : ∀ {fs : List Entity}, (∀ e ∈ fs, e.token ∉ decl) →
      fs.filter (fun e => decl.contains e.token) = [] := fun {fs} h =>
    List.filter_eq_nil_iff.mpr fun e he hin => h e he (List.contains_iff_mem.mp hin)
  have hentities : ((extract (tokens text)).entities).Perm
      (before ++ es ++ behind ++ ((tokens text).filter (·.isDirective)).filterMap macro?) := by
    rw [extract_eq]
    refine (List.mergeSort_perm _ _).trans (.of_eq ?_)
    rw [(ofTokens_eq _).1, hend, hz, hy]
    rfl
  have hmacros : ∀ e ∈ ((tokens text).filter (·.isDirective)).filterMap macro?, e.token ∉ decl := by
    intro e he hin
    obtain ⟨directive, hdirective, hmacro⟩ := List.mem_filterMap.mp he
    obtain ⟨hmem, hkind⟩ := List.mem_filter.mp hdirective
    have hin' : e.token ∈ Token.code (tokens text) := by
      rw [hcode]
      exact List.mem_append_right front (List.mem_append_left back hin)
    exact start_ne_of_isMacroOf hin' hmem hkind (isMacroOf_of_eq_some hmacro) rfl
  have hall : es.filter (fun e => decl.contains e.token) = es :=
    List.filter_eq_self.mpr fun e he => List.contains_iff_mem.mpr (hof.token_mem he)
  refine (hentities.filter _).trans (.of_eq ?_)
  rw [List.filter_append, List.filter_append, List.filter_append, hall, hnone hmacros,
    hnone fun e he => not_mem_of_parts hcode (Or.inl (hbefore.token_mem he)),
    hnone fun e he => not_mem_of_parts hcode (Or.inr (hbehind.token_mem he)),
    List.nil_append, List.append_nil, List.append_nil]

/-- What was not understood of the tokens of a statement is what reading the statement has noted. -/
theorem misunderstood_of_reaches {as : List (Token × Token)}
    (has : z.anomalies.toList = y.anomalies.toList ++ as) :
    (extract (tokens text)).misunderstood decl = as := by
  obtain ⟨front, hcode, hbefore, hof, hbehind⟩ := takes_parts hreach hread
  obtain ⟨before, hy, hbefore⟩ := anomalies_of_takes hbefore
  obtain ⟨as', hz, hof⟩ := anomalies_of_takes hof
  obtain rfl : as = as' := List.append_cancel_left (has.symm.trans hz)
  obtain ⟨behind, hend, hbehind⟩ := anomalies_of_takes hbehind
  -- the tokens of the statement stand together among those of the file
  have hin : Token.code (tokens text) <+ tokens text := List.filter_sublist
  have hordered := (tokens_ordered text).sublist hin
  rw [hcode] at hin hordered
  obtain ⟨-, hmore, hfront⟩ := List.pairwise_append.mp hordered
  obtain ⟨-, -, hback⟩ := List.pairwise_append.mp hmore
  have hdecl : decl <+ tokens text :=
    ((List.sublist_append_left _ _).trans (List.sublist_append_right _ _)).trans hin
  have hanomalies : (extract (tokens text)).anomalies = before ++ as ++ behind := by
    rw [extract_eq]
    change (ofTokens (tokens text)).anomalies.toList = _
    rw [anomalies_ofTokens, hend, hz, hy]
    rfl
  -- what is noted within the statement begins with one of its tokens
  have hall : ∀ a ∈ as, decl.any (fun t => decide (a.1.start ≤ t.start ∧ t.stop ≤ a.2.stop)) = true := by
    intro a ha
    obtain ⟨hfirst, -, hle⟩ := ends_of_stretch (hof a ha) hdecl
    exact List.any_eq_true.mpr ⟨a.1, hfirst, decide_eq_true ⟨Nat.le_refl _, hle⟩⟩
  -- what is noted before or behind it stands apart from all of them
  have hnone : ∀ a, a ∈ before ∨ a ∈ behind →
      ¬ decl.any (fun t => decide (a.1.start ≤ t.start ∧ t.stop ≤ a.2.stop)) = true := by
    intro a ha
    rw [Bool.not_eq_true, List.any_eq_false]
    intro t ht
    have hpos := start_lt_stop (hdecl.subset ht)
    rw [decide_eq_true_eq]
    rcases ha with ha | ha
    · obtain ⟨-, hlast, -⟩ := ends_of_stretch (hbefore a ha) ((List.sublist_append_left _ _).trans hin)
      have hle := hfront a.2 hlast t (List.mem_append_left back ht)
      omega
    · obtain ⟨hfirst, -, -⟩ := ends_of_stretch (hbehind a ha)
        (((List.sublist_append_right _ _).trans (List.sublist_append_right _ _)).trans hin)
      have hle := hback t ht a.1 hfirst
      omega
  unfold Model.misunderstood
  rw [hanomalies, List.filter_append, List.filter_append,
    List.filter_eq_nil_iff.mpr fun a ha => hnone a (Or.inl ha),
    List.filter_eq_nil_iff.mpr fun a ha => hnone a (Or.inr ha), List.filter_eq_self.mpr hall,
    List.nil_append, List.append_nil]

end

/-! ## Places -/

/-- Symbols of a core program behind which reading stands in a region: whole declarations, and the braces that
have been opened. -/
inductive Around : Region → List Symbol → Prop where
  | file : Around .outer []
  | behind {region : Region} {front : List Symbol} (h : Around region front) (items : Items region) :
    Around region (front ++ items.symbols)
  | namespace_ {front : List Symbol} (h : Around .outer front) (name : Name) :
    Around .outer (front ++ ([.keyword .namespaceKw, .name name .namespace_] ++ [.sign .lbrace]))
  | class_ {region : Region} {front : List Symbol} (h : Around region front) (isStruct : Bool) (name : Name) :
    Around .class_ (front ++ (classSymbols isStruct name ++ [.sign .lbrace]))
  | function {front : List Symbol} (h : Around .outer front) (f : Signature) :
    Around .body (front ++ (f.symbols .outer ++ [.sign .lbrace]))
  | block {front : List Symbol} (h : Around .body front) : Around .body (front ++ ([] ++ [.sign .lbrace]))

/-- A brace that is opened leads from one place to the next. -/
theorem OpensIn.reaches {region : Region} {kind : ScopeKind} {front : List Symbol}
    (h : OpensIn region.Fits kind front) (inner : Region) (hkind : inner.Fits kind) {x : Extraction}
    (hx : Stands region.Fits x) {ts : List Token} (hts : Spells ts (front ++ [.sign .lbrace])) (rest : List Token) :
    ∃ y, Reaches x (ts ++ rest) y rest ∧ Stands inner.Fits y := by
  obtain ⟨us, _, rfl, hus, hlast⟩ := spells_append_iff.mp hts
  obtain ⟨brace, _, rfl, hbrace, -, hnil⟩ := spells_cons_iff.mp hlast
  obtain rfl := spells_nil_iff.mp hnil
  obtain ⟨y, hreach, hopens⟩ := h x hx us hus brace hbrace rest
  refine ⟨y, ?_, hopens.stands hkind⟩
  rwa [List.append_assoc, List.singleton_append]

/-- Reading gets to every such place. -/
theorem Around.reaches {region : Region} {front : List Symbol} (h : Around region front) (fileEnd : Nat)
    {ts : List Token} (hts : Spells ts front) (rest : List Token) :
    ∃ y, Reaches (.initial fileEnd) (ts ++ rest) y rest ∧ Stands region.Fits y := by
  have further : ∀ {region region' : Region} {front back : List Symbol},
      (∀ {ts : List Token}, Spells ts front → ∀ rest,
        ∃ y, Reaches (.initial fileEnd) (ts ++ rest) y rest ∧ Stands region.Fits y) →
      (∀ {y ts}, Stands region.Fits y → Spells ts back → ∀ rest,
        ∃ z, Reaches y (ts ++ rest) z rest ∧ Stands region'.Fits z) →
      ∀ {ts : List Token}, Spells ts (front ++ back) → ∀ rest,
        ∃ y, Reaches (.initial fileEnd) (ts ++ rest) y rest ∧ Stands region'.Fits y := by
    intro region region' front back hfront hback ts hts rest
    obtain ⟨us, vs, rfl, hus, hvs⟩ := spells_append_iff.mp hts
    obtain ⟨y, hy, hstands⟩ := hfront hus (vs ++ rest)
    obtain ⟨z, hz, hstands'⟩ := hback hstands hvs rest
    rw [List.append_assoc]
    exact ⟨z, hy.trans hz, hstands'⟩
  induction h generalizing ts rest with
  | file =>
    obtain rfl := spells_nil_iff.mp hts
    exact ⟨_, .refl, _, rfl, Or.inl rfl⟩
  | behind _ items ih =>
    refine further ih (fun hy hvs rest => ?_) hts rest
    obtain ⟨z, hz, hreads⟩ := reads_items items rest _ hy _ hvs
    exact ⟨z, hz, hreads.stands hy⟩
  | namespace_ _ name ih =>
    refine further ih (fun hy hvs rest => ?_) hts rest
    exact (opens_namespace .outer name).reaches .outer (Or.inr rfl) hy hvs rest
  | class_ _ isStruct name ih =>
    refine further ih (fun hy hvs rest => ?_) hts rest
    exact (opens_class _ isStruct name).reaches .class_ rfl hy hvs rest
  | function _ f ih =>
    refine further ih (fun hy hvs rest => ?_) hts rest
    exact (opens_function f).reaches .body (Or.inl rfl) hy hvs rest
  | block _ ih =>
    refine further ih (fun hy hvs rest => ?_) hts rest
    exact (opens_block _).reaches .body (Or.inr rfl) hy hvs rest

/-! ## Variables -/

/-- The tokens of a variable, by their kinds. -/
theorem tokens_of_variableKinds {decl : List Token} {words : List Keyword}
    (h : decl.map (·.kind) = variableKinds words) :
    ∃ ws name sign literal semicolon, decl = ws ++ [name, sign, literal] ++ [semicolon] ∧
      ws.map (·.kind) = words.map .keyword ∧ name.kind = .identifier ∧
      IsInitializer [sign, literal] ∧ semicolon.kind = .punct .semicolon := by
  unfold variableKinds at h
  obtain ⟨ws, more, rfl, hws, hmore⟩ := List.map_eq_append_iff.mp h
  obtain ⟨name, _, rfl, hname, hmore⟩ := List.map_eq_cons_iff.mp hmore
  obtain ⟨sign, _, rfl, hsign, hmore⟩ := List.map_eq_cons_iff.mp hmore
  obtain ⟨literal, _, rfl, hliteral, hmore⟩ := List.map_eq_cons_iff.mp hmore
  obtain ⟨semicolon, _, rfl, hsemicolon, hmore⟩ := List.map_eq_cons_iff.mp hmore
  obtain rfl := List.map_eq_nil_iff.mp hmore
  exact ⟨ws, name, sign, literal, semicolon, by simp, hws, hname, Or.inr ⟨sign, literal, rfl, hsign, hliteral⟩,
    hsemicolon⟩

/-- The words of a variable begin its statement. -/
theorem begins_words {s : Specification} {words : List Keyword} (hwords : words.Perm s.words) {ws : List Token}
    (hws : ws.map (·.kind) = words.map .keyword) (tail : List Token) :
    ∃ t more k, ws ++ tail = t :: more ∧ t.kind = .keyword k ∧ Begins k := by
  cases words with
  | nil => exact absurd (hwords.mem_iff.mpr (Specification.mem_words.mpr (by simp))) (List.not_mem_nil (a := s.type.1))
  | cons k words =>
    obtain ⟨t, more, rfl, ht, -⟩ := List.map_eq_cons_iff.mp hws
    refine ⟨t, more ++ tail, k, rfl, ht, ?_⟩
    rcases Specification.cases_of_mem (hwords.mem_iff.mp List.mem_cons_self) with ⟨-, h | h⟩ | ⟨-, h⟩
    · exact Or.inl h
    · exact Or.inr (Or.inl h)
    · exact Or.inr (Or.inr h)

/-- The head of a variable ends at its semicolon, in whatever order its words are. -/
theorem head_words {ws : List Token} {words : List Keyword} (hws : ws.map (·.kind) = words.map .keyword)
    {name sign literal semicolon : Token} (hname : name.kind = .identifier)
    (htail : IsInitializer [sign, literal]) (hsemicolon : semicolon.kind = .punct .semicolon)
    (rest : List Token) : Head.read (ws ++ [name, sign, literal] ++ semicolon :: rest) =
      ⟨ws ++ [name, sign, literal], .semicolon, rest⟩ := by
  have hflat : ∀ t ∈ ws ++ [name], Flat t :=
    List.forall_mem_append.mpr ⟨flat_of_kinds hws, by simpa using flat_of_identifier hname⟩
  simpa using head_initializer hflat htail hsemicolon rest

/-- A region is inside a function just if its scopes are. -/
theorem Region.Fits.isLocal_iff {region : Region} {kind : ScopeKind} (h : region.Fits kind) :
    kind.isLocal = true ↔ region = .body := by
  cases region with
  | outer => rcases h with rfl | rfl <;> simp [ScopeKind.isLocal]
  | class_ => obtain rfl := h; simp [ScopeKind.isLocal]
  | body => rcases h with rfl | rfl <;> simp [ScopeKind.isLocal]

/-- A statement without a declaration is noted, outside of functions. -/
theorem declaration_none {x : Extraction} {head ts rest : List Token}
    (hhead : Head.read ts = ⟨head, .semicolon, rest⟩)
    (hd : Declaration.read? x.current x.inFunction head = none) :
    x.declarationOrExpression ts = (if x.inFunction then x else x.noteAnomaly head, rest) := by
  unfold declarationOrExpression
  rw [hhead]
  dsimp only
  rw [hd]

section

variable {region : Region} {x : Extraction} {s : Specification} {words : List Keyword} {decl : List Token}
  (hwords : words.Perm s.words) (hkinds : decl.map (·.kind) = variableKinds words) (hx : Stands region.Fits x)
include hwords hkinds hx

/-- A variable is recorded if its specifiers stand first. -/
theorem reaches_specifiersFirst (hfirst : SpecifiersFirst words) (back : List Token) :
    ∃ e, Reaches x (decl ++ back) (x.add e) back ∧ s.Describes region e := by
  obtain ⟨ws, name, sign, literal, semicolon, rfl, hws, hname, htail, hsemicolon⟩ := tokens_of_variableKinds hkinds
  obtain ⟨specs, type, _, rfl, hspecs, htype, hiff, -⟩ := exists_split words
  obtain rfl := hiff.mp hfirst
  rw [List.append_nil] at *
  have hhead := head_words hws hname htail hsemicolon back
  have hbegins := begins_words hwords hws [name, sign, literal]
  obtain ⟨us, vs, rfl, hus, hvs⟩ := List.map_eq_append_iff.mp (hws.trans List.map_append)
  have hisType := isType_words hwords rfl hspecs htype hvs
  have hread := (read_type hus hspecs hisType hname x.current x.inFunction [sign, literal]).trans
    (typed_variable x.current x.inFunction _ _ hname htail)
  rw [foldl_note_specs hwords rfl hspecs htype, readAll_name hname htail, List.append_nil,
    ← List.append_assoc] at hread
  refine ⟨x.variableEntity { isStatic := s.isStatic, isConstexpr := s.isConstexpr } vs []
    ⟨[], name, [], .high, false, Declarator.withoutSign [sign, literal]⟩, ?_, ?_⟩
  · rw [List.append_assoc, List.singleton_append]
    exact reaches_declaration hx hbegins (declaration_semicolon hhead hread)
  · have hconst : isConstObject (vs ++ []) = s.isConst := by
      rw [isConstObject_type hisType]
      simp [PlainType.isConstant]
    refine ⟨?_, rfl, rfl, hconst, rfl, rfl⟩
    show variableKind x.current.kind _ _ (isConstObject (vs ++ [])) = s.kind region
    rw [hconst, variableKind_of_fits hx.current _ rfl rfl]
    rfl

/-- No variable is recorded if a specifier stands behind a word of the type. -/
theorem reaches_misplaced (hnot : ¬ SpecifiersFirst words) (back : List Token) :
    ∃ first last, Reaches x (decl ++ back) (if region = .body then x else
      { x with anomalies := x.anomalies.push (first, last) }) back := by
  obtain ⟨ws, name, sign, literal, semicolon, rfl, hws, hname, htail, hsemicolon⟩ := tokens_of_variableKinds hkinds
  obtain ⟨specs, type, rest, rfl, hspecs, htype, hiff, hrest⟩ := exists_split words
  cases rest with
  | nil => exact absurd (hiff.mpr rfl) hnot
  | cons k rest =>
    obtain ⟨hk, hne⟩ := hrest k rest rfl
    have hhead := head_words hws hname htail hsemicolon back
    have hbegins := begins_words hwords hws [name, sign, literal]
    -- the specifiers and the words of the type in front of the first misplaced specifier
    obtain ⟨us, _, rfl, hus, hmore⟩ := List.map_eq_append_iff.mp (hws.trans List.map_append)
    obtain ⟨vs, _, rfl, hvs, hmore⟩ := List.map_eq_append_iff.mp (hmore.trans List.map_append)
    obtain ⟨t, ts, rfl, ht, -⟩ := List.map_eq_cons_iff.mp hmore
    have htypeWords : ∀ v ∈ vs, IsTypeWord v := by
      intro v hv
      have hmem : v.kind ∈ type.map TokenKind.keyword := hvs ▸ List.mem_map_of_mem hv
      obtain ⟨k', hk', heq⟩ := List.mem_map.mp hmem
      have hin := hwords.mem_iff.mp (List.mem_append_right specs (List.mem_append_left (k :: rest) hk'))
      rcases Specification.cases_of_mem hin with ⟨h, -⟩ | ⟨-, h⟩
      · exact absurd (h.symm.trans (htype k' hk')) (by decide)
      · exact ⟨k', heq.symm, h⟩
    have hvsNe : vs ≠ [] := by
      rintro rfl
      exact hne (List.map_eq_nil_iff.mp hvs.symm)
    -- the head is read as one without a name behind its type
    have hread := read_misplaced hus hspecs htypeWords hvsNe ht hk x.current x.inFunction
      (ts ++ [name, sign, literal])
    have hsplit : us ++ (vs ++ t :: (ts ++ [name, sign, literal])) =
        us ++ (vs ++ t :: ts) ++ [name, sign, literal] := by simp
    rw [hsplit] at hread
    have hreach := reaches_declaration hx hbegins (declaration_none hhead hread)
    obtain ⟨first, more, _, hcons, -⟩ := hbegins
    refine ⟨first, literal, ?_⟩
    rw [List.append_assoc, List.singleton_append]
    have hlocal : x.inFunction = true ↔ region = .body := hx.current.isLocal_iff
    by_cases hbody : region = .body
    · rw [if_pos (hlocal.mpr hbody)] at hreach
      rwa [if_pos hbody]
    · -- outside of functions what is not understood is noted
      have hnote : x.noteAnomaly (us ++ (vs ++ t :: ts) ++ [name, sign, literal]) =
          { x with anomalies := x.anomalies.push (first, literal) } := by
        have hlast : (us ++ (vs ++ t :: ts) ++ [name, sign, literal]).getLast? = some literal := by
          rw [List.getLast?_append]
          rfl
        unfold noteAnomaly
        rw [hlast, hcons]
        rfl
      rw [if_neg (mt hlocal.mp hbody), hnote] at hreach
      rwa [if_neg hbody]

end

/-- Which orders of the words in front of a variable are understood. Wherever in a file, a namespace, a class or
a function a statement declares a variable with a literal, and whatever else is in the file: what the words say is
recorded, as the one entity that is declared there, just if no specifier stands behind a word of the type, as none
does in the order `static`, `constexpr`, `const` and the type. Otherwise the variable is not recorded at all, and
outside of functions the statement counts as not understood. -/
theorem recorded_iff_specifiersFirst {text : Text} {y : Extraction} {decl back : List Token} {region : Region}
    {s : Specification} {words : List Keyword} (hwords : words.Perm s.words)
    (hkinds : decl.map (·.kind) = variableKinds words)
    (hreach : Reaches (.initial (codeEnd (tokens text))) (Token.code (tokens text)) y (decl ++ back))
    (hregion : Stands region.Fits y) :
    (s.Recorded region decl (extract (tokens text)) ↔ SpecifiersFirst words) ∧ SpecifiersFirst s.words ∧
      (¬ SpecifiersFirst words → (extract (tokens text)).declaredBy decl = [] ∧
        ((extract (tokens text)).misunderstood decl = [] ↔ region = .body)) := by
  by_cases hfirst : SpecifiersFirst words
  · obtain ⟨e, hread, hdescribes⟩ := reaches_specifiersFirst hwords hkinds hregion hfirst back
    have hentity := declaredBy_of_reaches hreach hread (entities_add y e)
    have hunderstood : (extract (tokens text)).misunderstood decl = [] :=
      misunderstood_of_reaches hreach hread (List.append_nil _).symm
    exact ⟨iff_of_true ⟨⟨e, hentity.eq_singleton, hdescribes⟩, hunderstood⟩ hfirst, s.specifiersFirst_words,
      fun hnot => absurd hfirst hnot⟩
  · obtain ⟨first, last, hread⟩ := reaches_misplaced hwords hkinds hregion hfirst back
    have hnone : (extract (tokens text)).declaredBy decl = [] := by
      refine (declaredBy_of_reaches hreach hread ?_).eq_nil
      split <;> exact (List.append_nil _).symm
    refine ⟨iff_of_false (fun hrecorded => ?_) hfirst, s.specifiersFirst_words, fun _ => ⟨hnone, ?_⟩⟩
    · obtain ⟨e, he, -⟩ := hrecorded.entity
      exact absurd (hnone.symm.trans he) (by simp)
    · by_cases hbody : region = .body
      · rw [if_pos hbody] at hread
        exact iff_of_true (misunderstood_of_reaches hreach hread (List.append_nil _).symm) hbody
      · rw [if_neg hbody] at hread
        rw [misunderstood_of_reaches hreach hread Array.toList_push]
        exact iff_of_false (by simp) hbody

/-- In a class the words `constexpr` and `static` may change places. -/
theorem recorded_in_class :
    let text := Text.ofString "class A \x7b constexpr static int N = 5; \x7d;"
    let decl := ((Token.code (tokens text)).drop 3).take 7
    let s : Specification := ⟨true, true, false, ⟨.intKw, rfl⟩⟩
    [Keyword.constexprKw, .staticKw, .intKw].Perm s.words ∧
      decl.map (·.kind) = variableKinds [.constexprKw, .staticKw, .intKw] ∧
      SpecifiersFirst [.constexprKw, .staticKw, .intKw] ∧ s.Recorded .class_ decl (extract (tokens text)) := by
  intro text decl s
  have hwords : [Keyword.constexprKw, .staticKw, .intKw].Perm s.words := by decide
  obtain ⟨hkinds, hlexemes⟩ : decl.map (·.kind) = variableKinds [.constexprKw, .staticKw, .intKw] ∧
      ((Token.code (tokens text)).take 3).map Token.lexeme =
        [(.keyword .classKw, Keyword.classKw.text), (.identifier, Text.ofString "A"),
          (.punct .lbrace, Punct.lbrace.text)] := by
    simp only [decl, text]
    rw [Text.ofString_ofList]
    decide +kernel
  have hfirst : SpecifiersFirst [.constexprKw, .staticKw, .intKw] := by decide
  have hname : Lexeme.IsName (Text.ofString "A") :=
    ⟨⟨.scalar 'A', [], rfl, by decide, by decide⟩, by decide, by decide⟩
  have haround : Around .class_ [.keyword .classKw, .name ⟨_, hname⟩ .class_, .sign .lbrace] :=
    .class_ .file false ⟨_, hname⟩
  have hfront : Spells ((Token.code (tokens text)).take 3)
      [.keyword .classKw, .name ⟨_, hname⟩ .class_, .sign .lbrace] := hlexemes
  have hcode : Token.code (tokens text) =
      (Token.code (tokens text)).take 3 ++ (decl ++ (Token.code (tokens text)).drop 10) := by
    have hbehind : decl ++ ((Token.code (tokens text)).drop 3).drop 7 = (Token.code (tokens text)).drop 3 :=
      List.take_append_drop 7 _
    rw [List.drop_drop] at hbehind
    rw [hbehind, List.take_append_drop]
  obtain ⟨y, hreach, hstands⟩ := haround.reaches (codeEnd (tokens text)) hfront
    (decl ++ (Token.code (tokens text)).drop 10)
  rw [← hcode] at hreach
  exact ⟨hwords, hkinds, hfirst, (recorded_iff_specifiersFirst hwords hkinds hreach hstands).1.mpr hfirst⟩

/-- A type in front of `constexpr`: the head declares nothing, and is not understood. -/
theorem exists_lost_variable :
    [Keyword.intKw, .constexprKw].Perm (Specification.words ⟨false, true, false, ⟨.intKw, rfl⟩⟩) ∧
      (Token.code (tokens (Text.ofString "int constexpr N = 5;"))).map (·.kind) =
        variableKinds [.intKw, .constexprKw] ∧
      (extract (tokens (Text.ofString "int constexpr N = 5;"))).entities = [] ∧
      (extract (tokens (Text.ofString "int constexpr N = 5;"))).anomalies ≠ [] := by
  rw [Text.ofString_ofList]
  decide +kernel

end Core

end HouseStyle
