import HouseStyle.Proofs.CoreGrammar
import HouseStyle.Proofs.Recording
import Mathlib.Data.List.TakeWhile

/-!
# What the heads of core declarations declare

The tokens that spell a variable or a function are read by the readers of heads, types, declarators and
parameters, each of which finds what the grammar has put there.

- `read_variable`: the head of a variable declares that variable, and tells all that its kind depends on.
- `read_signature`: the head of a function declares the function, with its parameters, wherever a function
  may stand. Its brackets do not hold the arguments of an initializer, since a part of them that starts with
  the words of a type is no argument.

The readers look at kinds of tokens only, so a run of tokens is described by what their kinds may be.
-/

namespace HouseStyle.Core

/-! ## Runs of tokens -/

/-- A token that is no bracket and ends nothing: a word, a number, a comma or a star. -/
def Flat (t : Token) : Prop := t.isAnyPunct = false ∨ t.kind = .punct .comma ∨ t.kind = .punct .star

/-- A token of one parameter. -/
def Inner (t : Token) : Prop := t.isAnyPunct = false ∨ t.kind = .punct .star

theorem Inner.flat {t : Token} (h : Inner t) : Flat t := h.imp_right Or.inr

theorem step_flat {seen : Head.Seen} {last : Option Token} {depth : Nat} {t : Token} (ht : Flat t) :
    Head.step seen last depth t = .keep seen depth := by
  unfold Head.step
  rcases ht with ht | ht | ht
  · unfold Token.isAnyPunct at ht
    split
    all_goals first | rfl | simp [*] at ht
  all_goals
    rw [ht]
    dsimp only
    split <;> rfl

/-- Flat tokens belong to the head that they stand in. -/
theorem readFrom_flat (seen : Head.Seen) (last : Option Token) (depth : Nat) {front : List Token}
    (hfront : ∀ t ∈ front, Flat t) (rest : List Token) :
    ∃ last', Head.readFrom seen last depth (front ++ rest) =
      (Head.readFrom seen last' depth rest).prepend front := by
  induction front generalizing last with
  | nil => exact ⟨last, rfl⟩
  | cons t front ih =>
    rw [List.forall_mem_cons] at hfront
    obtain ⟨last', h⟩ := ih (some t) hfront.2
    refine ⟨last', ?_⟩
    rw [List.cons_append, Head.readFrom, step_flat hfront.1]
    dsimp only
    rw [h]
    rfl

/-- Flat tokens are inside the brackets that they stand in. -/
theorem enclosed_flat {p : Punct} {closer : Token} {inside : List Token} (hinside : ∀ t ∈ inside, Flat t)
    (hcloser : closer.kind = .punct p) (hp : p.opens = false) (hcloses : p.closes = true) (rest : List Token) :
    enclosed? p 0 (inside ++ closer :: rest) = some ⟨inside, closer, rest⟩ := by
  induction inside with
  | nil =>
    rw [List.nil_append, enclosed?, hcloser]
    simp [hp, hcloses]
  | cons t inside ih =>
    rw [List.forall_mem_cons] at hinside
    have hstep : enclosed? p 0 (t :: (inside ++ closer :: rest)) =
        (enclosed? p 0 (inside ++ closer :: rest)).map (.cons t) := by
      rw [enclosed?]
      rcases hinside.1 with ht | ht | ht
      · unfold Token.isAnyPunct at ht
        split
        · simp [*] at ht
        · rfl
      all_goals
        rw [ht]
        rfl
    rw [List.cons_append, hstep, ih hinside.2]
    rfl

/-- The tokens of one parameter stay together. -/
theorem commaParts_inner {part : List Token} (hpart : ∀ t ∈ part, Inner t) (rest : List Token) :
    commaParts (part ++ rest) = (part ++ (commaParts rest).1, (commaParts rest).2) := by
  induction part with
  | nil => rfl
  | cons t part ih =>
    rw [List.forall_mem_cons] at hpart
    have hstep : commaParts (t :: (part ++ rest)) =
        (t :: (commaParts (part ++ rest)).1, (commaParts (part ++ rest)).2) := by
      unfold commaParts
      rw [partsFrom]
      rcases hpart.1 with ht | ht
      · unfold Token.isAnyPunct at ht
        dsimp only
        split
        · simp [*] at ht
        · rfl
      · rw [ht]
        rfl
    rw [List.cons_append, hstep, ih hpart.2]
    rfl

theorem commaParts_comma {comma : Token} (hcomma : comma.kind = .punct .comma) (rest : List Token) :
    commaParts (comma :: rest) = ([], (commaParts rest).1 :: (commaParts rest).2) := by
  unfold commaParts
  rw [partsFrom, hcomma]
  rfl

/-! ## Types -/

/-- A word of a type. -/
def IsTypeWord (t : Token) : Prop := ∃ k, t.kind = .keyword k ∧ (k = .constKw ∨ k.isTypeName = true)

/-- The tokens of a type: its words, of which one names it, and its stars. -/
structure IsType (type : PlainType) (words stars : List Token) : Prop where
  isTypeWord : ∀ t ∈ words, IsTypeWord t
  named : words.any (·.isTypeName) = true
  isConst : words.any (·.isKeyword .constKw) = type.isConst
  isStar : ∀ t ∈ stars, t.kind = .punct .star
  length_stars : stars.length = type.stars

theorem isConst_words (type : PlainType) : type.words.any (· == .constKw) = type.isConst := by
  have hname : ∀ k : TypeWord, (k.1 == .constKw) = false := by
    rintro ⟨k, hk⟩
    refine beq_eq_false_iff_ne.mpr ?_
    rintro rfl
    exact absurd hk (by decide)
  have hmore : (type.more.map (·.1)).any (· == .constKw) = false := by
    rw [List.any_map, List.any_eq_false]
    intro k _
    simp [hname k]
  unfold PlainType.words
  rw [List.any_append, List.any_cons, hname, hmore]
  cases type.isConst <;> rfl

theorem isTypeWord_words (type : PlainType) : ∀ k ∈ type.words, k = .constKw ∨ k.isTypeName = true := by
  unfold PlainType.words
  intro k hk
  rcases List.mem_append.mp hk with hk | hk
  · cases h : type.isConst with
    | true =>
      rw [h, if_pos rfl] at hk
      exact Or.inl (List.mem_singleton.mp hk)
    | false =>
      rw [h, if_neg (by decide)] at hk
      exact absurd hk (by simp)
  · rcases List.mem_cons.mp hk with rfl | hk
    · exact Or.inr type.first.2
    · obtain ⟨w, -, rfl⟩ := List.mem_map.mp hk
      exact Or.inr w.2

/-- Tokens of given keywords can be told by those. -/
theorem any_of_kinds {ts : List Token} {ks : List Keyword} (h : ts.map (·.kind) = ks.map .keyword)
    {test : Token → Bool} (test' : Keyword → Bool) (htest : ∀ t k, t.kind = .keyword k → test t = test' k) :
    ts.any test = ks.any test' := by
  induction ts generalizing ks with
  | nil =>
    obtain rfl := List.map_eq_nil_iff.mp h.symm
    rfl
  | cons t ts ih =>
    obtain ⟨k, ks, rfl, hk, hks⟩ := List.map_eq_cons_iff.mp h.symm
    rw [List.any_cons, List.any_cons, htest t k hk.symm, ih hks.symm]

/-- What spells a type. -/
theorem isType_of_spells {type : PlainType} {ts : List Token} (h : Spells ts type.symbols) :
    ∃ words stars, ts = words ++ stars ∧ IsType type words stars := by
  obtain ⟨words, stars, rfl, hwords, hstars⟩ := spells_append_iff.mp h
  have hkinds : words.map (·.kind) = type.words.map .keyword := by
    rw [hwords.kinds, List.map_map]
    rfl
  refine ⟨words, stars, rfl, ?_, ?_, ?_, ?_, ?_⟩
  · intro t ht
    have hmem : t.kind ∈ type.words.map TokenKind.keyword := hkinds ▸ List.mem_map_of_mem ht
    obtain ⟨k, hk, heq⟩ := List.mem_map.mp hmem
    exact ⟨k, heq.symm, isTypeWord_words type k hk⟩
  · rw [any_of_kinds hkinds Keyword.isTypeName fun t k hk => by rw [Token.isTypeName, hk]]
    unfold PlainType.words
    rw [List.any_append, List.any_cons, type.first.2, Bool.true_or, Bool.or_true]
  · rw [any_of_kinds hkinds (· == .constKw) fun t k hk => by
      rw [Token.isKeyword, hk, Bool.eq_iff_iff, beq_iff_eq, beq_iff_eq, TokenKind.keyword.injEq]]
    exact isConst_words type
  · intro t ht
    have hmem : t.kind ∈ (List.replicate type.stars (Symbol.sign .star)).map Symbol.kind :=
      hstars.kinds ▸ List.mem_map_of_mem ht
    obtain ⟨s, hs, heq⟩ := List.mem_map.mp hmem
    rw [← heq, List.eq_of_mem_replicate hs]
    rfl
  · rw [hstars.length_eq, List.length_replicate]

namespace IsType

variable {type : PlainType} {words stars : List Token}

theorem inner (h : IsType type words stars) : ∀ t ∈ words ++ stars, Inner t := by
  intro t ht
  rcases List.mem_append.mp ht with ht | ht
  · obtain ⟨k, hk, -⟩ := h.isTypeWord t ht
    exact Or.inl (by rw [Token.isAnyPunct, hk])
  · exact Or.inr (h.isStar t ht)

/-- A type starts with one of its words. -/
theorem exists_cons (h : IsType type words stars) : ∃ t more, words = t :: more ∧ IsTypeWord t := by
  cases words with
  | nil => exact absurd h.named (by decide)
  | cons t more => exact ⟨t, more, rfl, h.isTypeWord t List.mem_cons_self⟩

end IsType

/-- A word that names a type is nothing else that may stand in front of one. -/
theorem not_cv_of_isTypeName {t : Token} {k : Keyword} (hk : t.kind = .keyword k)
    (hname : k.isTypeName = true) :
    t.isCv = false ∧ t.isElaborated = false ∧ t.isTypeName = true := by
  unfold Token.isCv Token.isKeyword Token.isElaborated Token.isTypeName
  rw [hk]
  unfold Keyword.isTypeName at hname ⊢
  split at hname
  case h_16 => exact absurd hname (by decide)
  all_goals exact ⟨rfl, rfl, rfl⟩

/-- The words of a type are passed over as such. -/
theorem afterTypeWords_words (seen : Bool) {words : List Token} (hwords : ∀ t ∈ words, IsTypeWord t)
    (rest : List Token) :
    afterTypeWords? seen (words ++ rest) = afterTypeWords? (seen || words.any (·.isTypeName)) rest := by
  induction words generalizing seen with
  | nil => rw [List.nil_append, List.any_nil, Bool.or_false]
  | cons t words ih =>
    rw [List.forall_mem_cons] at hwords
    obtain ⟨⟨k, hk, hword⟩, hwords⟩ := hwords
    rw [List.cons_append, afterTypeWords?, List.any_cons]
    rcases hword with rfl | hname
    · rw [if_pos (by simp [Token.isCv, Token.isKeyword, hk]), ih seen hwords]
      simp [Token.isTypeName, hk, Keyword.isTypeName]
    · obtain ⟨hcv, helaborated, hname⟩ := not_cv_of_isTypeName hk hname
      rw [hcv, helaborated, hname, if_neg (by decide), if_pos rfl, ih true hwords]
      simp

/-- Once a type has been named, a star or a name ends its words. -/
theorem afterTypeWords_end {t : Token} (ht : t.kind = .punct .star ∨ t.kind = .identifier)
    (rest : List Token) :
    afterTypeWords? true (t :: rest) = some (true, t :: rest) := by
  have hno : t.isCv = false ∧ t.isElaborated = false ∧ t.isTypeName = false ∧
      t.isKeyword .decltypeKw = false := by
    unfold Token.isCv Token.isKeyword Token.isElaborated Token.isTypeName
    rcases ht with ht | ht
    all_goals
      rw [ht]
      exact ⟨rfl, rfl, rfl, rfl⟩
  obtain ⟨hcv, helaborated, hname, hdecltype⟩ := hno
  rw [afterTypeWords?, hcv, helaborated, hname, if_neg (by decide), if_neg (by decide)]
  split
  · next h =>
    rw [hdecltype] at h
    exact absurd h (by simp)
  · next h =>
    rw [hdecltype] at h
    exact absurd h (by simp)
  · rw [if_neg (by simp)]

/-- A type ends where the name behind it stands. -/
theorem afterType_name {type : PlainType} {words stars : List Token} (h : IsType type words stars)
    {name : Token} (hname : name.kind = .identifier) (rest : List Token) :
    afterType? (words ++ stars ++ name :: rest) = some (name :: rest) := by
  have hstars : ∀ t ∈ stars, (t.isPointerOrReference || t.isPunct .ellipsis || t.isCv) = true := by
    intro t ht
    simp [Token.isPointerOrReference, Token.isOneOf, h.isStar t ht]
  have hstop : (name.isPointerOrReference || name.isPunct .ellipsis || name.isCv) = false := by
    simp [Token.isPointerOrReference, Token.isOneOf, Token.isPunct, Token.isCv, Token.isKeyword, hname]
  have hwords : afterTypeWords? false (words ++ (stars ++ name :: rest)) =
      some (true, stars ++ name :: rest) := by
    rw [afterTypeWords_words false h.isTypeWord, h.named, Bool.false_or]
    cases hstar : stars with
    | nil => exact afterTypeWords_end (Or.inr hname) rest
    | cons t more => exact afterTypeWords_end (Or.inl (h.isStar t (hstar ▸ List.mem_cons_self))) _
  rw [afterType?, List.append_assoc, hwords]
  dsimp only
  rw [List.dropWhile_append_of_pos hstars, List.dropWhile_cons_of_neg (by rw [hstop]; decide)]

/-- Behind a star there is no `const` in a plain type. -/
theorem isConstObject_type {type : PlainType} {words stars : List Token} (h : IsType type words stars) :
    isConstObject (words ++ stars) = type.isConstant := by
  have hword : ∀ t ∈ words, t.isPointerOrReference = false := by
    intro t ht
    obtain ⟨k, hk, -⟩ := h.isTypeWord t ht
    simp [Token.isPointerOrReference, Token.isOneOf, hk]
  unfold PlainType.isConstant
  rw [← h.length_stars, ← h.isConst]
  rcases List.eq_nil_or_concat stars with rfl | ⟨front, last, rfl⟩
  · have hdrop : (words ++ []).reverse.dropWhile (fun t : Token => !t.isPointerOrReference) = [] := by
      rw [List.append_nil, List.dropWhile_eq_nil_iff]
      intro t ht
      rw [hword t (List.mem_reverse.mp ht)]
      rfl
    unfold isConstObject
    dsimp only
    rw [hdrop]
    simp
  · have hlast : last.isPointerOrReference = true := by
      simp [Token.isPointerOrReference, Token.isOneOf, h.isStar last (by simp)]
    unfold isConstObject
    simp [List.concat_eq_append, hlast]

/-! ## What stands in front of a type -/

/-- No word of a type specifies a declaration or begins an expression. -/
theorem isTypeWord_facts {k : Keyword} (h : k = .constKw ∨ k.isTypeName = true) :
    k.isSpecifier = false ∧ k ≠ .alignasKw ∧ k ≠ .operatorKw ∧ k.beginsExpression = false := by
  rcases h with rfl | h
  · exact ⟨rfl, nofun, nofun, rfl⟩
  · unfold Keyword.isTypeName at h
    split at h
    case h_16 => exact absurd h (by decide)
    all_goals exact ⟨rfl, nofun, nofun, rfl⟩

/-- The specifiers that some words in front of a type are. -/
def noted (storage : List StorageWord) (s : Specifiers) : Specifiers :=
  storage.foldl (fun s w => s.note w.keyword) s

theorem noted_eq_foldl (storage : List StorageWord) (s : Specifiers) :
    noted storage s = (storage.map (·.keyword)).foldl Specifiers.note s :=
  List.foldl_map.symm

theorem noted_eq (storage : List StorageWord) (s : Specifiers) :
    noted storage s = { s with
      isStatic := s.isStatic || decide (.static ∈ storage)
      isConstexpr := s.isConstexpr || decide (.constexpr ∈ storage) } := by
  induction storage generalizing s with
  | nil => simp [noted]
  | cons w storage ih =>
    refine (ih _).trans ?_
    cases w <;> simp [StorageWord.keyword, Specifiers.note]

/-- Specifiers end where the type begins. -/
theorem specifiersFrom_type (s : Specifiers) {t : Token} (ht : IsTypeWord t) (rest : List Token) :
    specifiersFrom s (t :: rest) = (s, t :: rest) := by
  obtain ⟨k, hk, hword⟩ := ht
  obtain ⟨hspecifier, halignas, -, -⟩ := isTypeWord_facts hword
  have hnone : t.specifier? = none := by
    rw [Token.specifier?, hk]
    dsimp only
    rw [hspecifier]
    rfl
  have hattribute : afterAttribute? (t :: rest) = none := by
    cases rest with
    | nil => rfl
    | cons u rest =>
      simp [afterAttribute?, Token.isPunct, Token.isKeyword, Token.isWord, attributeWords, hk, halignas]
  rw [specifiersFrom, hnone]
  dsimp only
  split
  · next h =>
    rw [hattribute] at h
    exact absurd h (by simp)
  · rfl

/-- The words in front of a type are read as specifiers. -/
theorem specifiersFrom_words {front : List Token} {specs : List Keyword}
    (hfront : front.map (·.kind) = specs.map .keyword) (hspecs : ∀ k ∈ specs, k.isSpecifier = true)
    (s : Specifiers) {t : Token} (ht : IsTypeWord t) (rest : List Token) :
    specifiersFrom s (front ++ t :: rest) = (specs.foldl Specifiers.note s, t :: rest) := by
  induction specs generalizing front s with
  | nil =>
    obtain rfl := List.map_eq_nil_iff.mp hfront
    exact specifiersFrom_type s ht rest
  | cons k specs ih =>
    obtain ⟨u, front, rfl, hu, hfront⟩ := List.map_eq_cons_iff.mp hfront
    rw [List.forall_mem_cons] at hspecs
    have hspecifier : u.specifier? = some k := by
      rw [Token.specifier?, hu]
      dsimp only
      rw [if_pos hspecs.1]
    rw [List.cons_append, specifiersFrom, hspecifier]
    exact ih hfront hspecs.2 _

/-- Nothing without a type starts with a word of a type. -/
theorem special_type {scope : Scope} (s : Specifiers) {t : Token} (ht : IsTypeWord t) (rest : List Token) :
    Declaration.special? scope s (t :: rest) = none := by
  obtain ⟨k, hk, hword⟩ := ht
  obtain ⟨-, -, hoperator, -⟩ := isTypeWord_facts hword
  have hname : qualifiedName? (t :: rest) = none := by
    have hsegments : segments? (t :: rest) = some ([], t :: rest) := by
      unfold segments?
      dsimp only
      rw [if_neg (by simp [Token.isPunct, hk]), if_neg (by simp [Token.isIdentifier, hk])]
    rw [qualifiedName?, afterGlobal, if_neg (by simp [Token.isPunct, hk]), hsegments]
    rfl
  unfold Declaration.special?
  dsimp only
  rw [if_neg (by simpa [Token.isKeyword, hk] using hoperator), hname]

/-! ## Names -/

/-- What may stand behind a name without being part of it. -/
def EndsName (rest : List Token) : Prop :=
  ∀ t ∈ rest.head?, t.isPunct .less = false ∧ t.isPunct .scope = false

theorem qualifiedName_name {name : Token} (hname : name.kind = .identifier) {rest : List Token}
    (hrest : EndsName rest) : qualifiedName? (name :: rest) = some ⟨[name.text], name, rest⟩ := by
  have hargs : afterArguments? rest = some rest := by
    cases rest with
    | nil => rfl
    | cons t rest =>
      rw [afterArguments?, if_neg (by rw [(hrest t rfl).1]; decide)]
  have hscope : afterScope? rest = none := by
    rcases rest with _ | ⟨c, _ | ⟨n, rest⟩⟩
    · rfl
    · rfl
    · rw [afterScope?, if_neg (by rw [(hrest c rfl).2]; decide)]
  have hsegments : segments? (name :: rest) = some ([(name.text, name)], rest) := by
    unfold segments?
    dsimp only
    rw [if_neg (by simp [Token.isPunct, hname]), if_pos (by simp [Token.isIdentifier, hname])]
    split
    · next h =>
      rw [hargs] at h
      exact absurd h (by simp)
    · next after h =>
      obtain rfl := Option.some.inj (hargs.symm.trans h)
      split
      · next h =>
        rw [hscope] at h
        exact absurd h (by simp)
      · rfl
  rw [qualifiedName?, afterGlobal, if_neg (by simp [Token.isPunct, hname]), hsegments]
  rfl

/-! ## Variables -/

/-- What may stand between the name of a variable and its semicolon. -/
def IsInitializer (tail : List Token) : Prop :=
  tail = [] ∨ ∃ sign number, tail = [sign, number] ∧ sign.kind = .punct .eq ∧ number.kind = .literal

theorem IsInitializer.endsName {tail : List Token} (h : IsInitializer tail) : EndsName tail := by
  intro t ht
  rcases h with rfl | ⟨sign, number, rfl, hsign, -⟩
  · exact absurd ht (by simp)
  · obtain rfl := Option.mem_some.mp ht
    simp [Token.isPunct, hsign]

theorem readAll_name {name : Token} (hname : name.kind = .identifier) {tail : List Token}
    (htail : IsInitializer tail) :
    Declarator.readAll (name :: tail) = [{
      operators := [], name, qualifier := [], confidence := .high, isArray := false
      initializer := Declarator.withoutSign tail }] := by
  have hoperator : (name.isPointerOrReference || name.isCv) = false := by
    simp [Token.isPointerOrReference, Token.isOneOf, Token.isCv, Token.isKeyword, hname]
  have hfound : Declarator.name? (name :: tail) = some (name, [], .high, tail) := by
    rw [Declarator.name?, if_neg (by simp [Token.isPunct, hname]), if_pos (by simp [Token.isIdentifier, hname]),
      qualifiedName_name hname htail.endsName]
    rfl
  have hbounds : Declarator.afterBounds tail = tail := by
    rcases htail with rfl | ⟨sign, number, rfl, hsign, -⟩
    · rw [Declarator.afterBounds]
    · rw [Declarator.afterBounds, if_neg (by simp [Token.isPunct, hsign])]
  have hcomma : Declarator.upToComma 0 tail = (tail, []) := by
    rcases htail with rfl | ⟨sign, number, rfl, hsign, hnumber⟩
    · rfl
    · simp [Declarator.upToComma, Token.isPunct, Token.isOneOf, hsign, hnumber]
  have hinitializer : (tail.head?.any fun t => !t.isAnyPunct) = false ∧
      (tail.head?.any fun t => t.isPunct .lbracket) = false := by
    rcases htail with rfl | ⟨sign, number, rfl, hsign, -⟩
    · exact ⟨rfl, rfl⟩
    · simp [Token.isAnyPunct, Token.isPunct, hsign]
  unfold Declarator.readAll
  dsimp only
  rw [List.takeWhile_cons_of_neg (by rw [hoperator]; decide)]
  split
  · next h =>
    rw [List.dropWhile_cons_of_neg (by rw [hoperator]; decide), hfound] at h
    exact absurd h (by simp)
  · next found qualifier confidence afterName h =>
    rw [List.dropWhile_cons_of_neg (by rw [hoperator]; decide), hfound] at h
    obtain ⟨rfl, rfl, rfl, rfl⟩ : name = found ∧ [] = qualifier ∧ .high = confidence ∧ tail = afterName := by
      simpa only [Option.some.injEq, Prod.mk.injEq] using h
    rw [hbounds, hcomma, hinitializer.1, hinitializer.2, if_neg (by decide)]

/-- A head that starts with the words in front of a type, and then a type and a name. -/
theorem read_type {front : List Token} {specs : List Keyword}
    (hfront : front.map (·.kind) = specs.map .keyword) (hspecs : ∀ k ∈ specs, k.isSpecifier = true)
    {type : PlainType} {words stars : List Token} (htype : IsType type words stars) {name : Token}
    (hname : name.kind = .identifier) (scope : Scope) (inFunction : Bool) (rest : List Token) :
    Declaration.read? scope inFunction (front ++ (words ++ stars ++ name :: rest)) =
      Declaration.typed? scope inFunction (specs.foldl Specifiers.note {}) (words ++ stars) (name :: rest) := by
  obtain ⟨t, more, rfl, ht⟩ := htype.exists_cons
  have hspecifiers : specifiers (front ++ (t :: more ++ stars ++ name :: rest)) =
      (specs.foldl Specifiers.note {}, t :: more ++ stars ++ name :: rest) :=
    specifiersFrom_words hfront hspecs {} ht _
  unfold Declaration.read?
  rw [hspecifiers]
  dsimp only
  have hspecial : Declaration.special? scope (specs.foldl Specifiers.note {})
      (t :: more ++ stars ++ name :: rest) = none := special_type _ ht _
  rw [hspecial, afterType_name htype hname]
  dsimp only
  rw [tokensBefore_append]

theorem typed_variable (scope : Scope) (inFunction : Bool) (s : Specifiers) (type : List Token) {name : Token}
    (hname : name.kind = .identifier) {tail : List Token} (htail : IsInitializer tail) :
    Declaration.typed? scope inFunction s type (name :: tail) =
      some (.variables s type (Declarator.readAll (name :: tail))) := by
  have hnested : Declaration.startsNested (name :: tail) = false := by
    cases tail with
    | nil => rfl
    | cons u tail => simp [Declaration.startsNested, Token.isPunct, hname]
  have hvariables : Declaration.variables? s type (name :: tail) =
      some (.variables s type (Declarator.readAll (name :: tail))) := by
    unfold Declaration.variables?
    rw [readAll_name hname htail]
    rfl
  unfold Declaration.typed?
  dsimp only
  rw [if_neg (by simp [Token.isKeyword, hname]), if_neg (by simp [Token.isPunct, hname]),
    if_neg (by rw [hnested]; decide), if_neg (by simp [Token.isIdentifier, hname]),
    qualifiedName_name hname htail.endsName]
  rcases htail with rfl | ⟨sign, number, rfl, hsign, -⟩
  · exact hvariables
  · dsimp only
    rw [if_neg (by simp [Token.isPunct, hsign])]
    exact hvariables

/-- What spells a variable: the words in front of its type, the type, the name and what follows it. -/
theorem spells_variable {v : VariableDecl} {region : Region} {head : List Token}
    (h : Spells head (v.symbols region)) :
    ∃ front words stars name tail, head = front ++ (words ++ stars ++ name :: tail) ∧
      Spells front (v.storage.map (.keyword ·.keyword)) ∧ IsType v.type words stars ∧
      name.kind = .identifier ∧ name.text = v.name.1 ∧ IsInitializer tail ∧
      declared (v.symbols region) head = [(v.kind region, v.name.1, name)] := by
  obtain ⟨_, named, rfl, hfront, hnamed⟩ := spells_append_iff.mp h
  obtain ⟨front, type, rfl, hstorage, htype⟩ := spells_append_iff.mp hfront
  obtain ⟨name, tail, rfl, hname, htext, htail⟩ := spells_cons_iff.mp hnamed
  have hinitializer : IsInitializer tail ∧ declared v.initializerSymbols tail = [] := by
    unfold VariableDecl.initializerSymbols at htail ⊢
    cases hi : v.initializer with
    | none =>
      rw [hi] at htail
      exact ⟨Or.inl (spells_nil_iff.mp htail), rfl⟩
    | some n =>
      rw [hi] at htail
      obtain ⟨sign, _, rfl, hsign, -, hnumber⟩ := spells_cons_iff.mp htail
      obtain ⟨number, _, rfl, hliteral, -, hnil⟩ := spells_cons_iff.mp hnumber
      obtain rfl := spells_nil_iff.mp hnil
      exact ⟨Or.inr ⟨sign, number, rfl, hsign, hliteral⟩, rfl⟩
  have hfrontDeclared : declared (v.storage.map (.keyword ·.keyword)) front = [] := by
    refine declared_eq_nil (fun s hs => ?_) front
    obtain ⟨w, -, rfl⟩ := List.mem_map.mp hs
    exact nofun
  have hdeclared : declared (v.symbols region) (front ++ type ++ name :: tail) =
      [(v.kind region, v.name.1, name)] := by
    rw [VariableDecl.symbols, declared_append (spells_append_iff.mpr ⟨front, type, rfl, hstorage, htype⟩),
      declared_append hstorage, hfrontDeclared, declared_type, declared_name, hinitializer.2]
    rfl
  obtain ⟨words, stars, rfl, hisType⟩ := isType_of_spells htype
  rw [List.append_assoc front] at hdeclared ⊢
  exact ⟨front, words, stars, name, tail, rfl, hstorage, hisType, hname, htext, hinitializer.1, hdeclared⟩

/-- The words in front of the type of a variable are keywords that specify its declaration. -/
theorem kinds_storage {storage : List StorageWord} {front : List Token}
    (hfront : Spells front (storage.map (.keyword ·.keyword))) :
    front.map (·.kind) = (storage.map (·.keyword)).map .keyword := by
  rw [hfront.kinds, List.map_map, List.map_map]
  rfl

theorem isSpecifier_storage (storage : List StorageWord) :
    ∀ k ∈ storage.map (·.keyword), k.isSpecifier = true := by
  intro k hk
  obtain ⟨w, -, rfl⟩ := List.mem_map.mp hk
  cases w <;> rfl

/-- The head of a variable declares that variable. -/
theorem read_variable {v : VariableDecl} {region : Region} {head : List Token}
    (h : Spells head (v.symbols region)) (scope : Scope) (inFunction : Bool) :
    ∃ type d, Declaration.read? scope inFunction head = some (.variables (noted v.storage {}) type [d]) ∧
      isConstObject (type ++ d.operators) = v.type.isConstant ∧ d.qualifier = [] ∧ d.confidence = .high ∧
      d.name.text = v.name.1 ∧ declared (v.symbols region) head = [(v.kind region, v.name.1, d.name)] := by
  obtain ⟨front, words, stars, name, tail, rfl, hfront, htype, hname, htext, htail, hdeclared⟩ :=
    spells_variable h
  have hread := (read_type (kinds_storage hfront) (isSpecifier_storage v.storage) htype hname scope inFunction
    tail).trans (typed_variable scope inFunction _ _ hname htail)
  rw [readAll_name hname htail, ← noted_eq_foldl] at hread
  refine ⟨_, _, hread, ?_, rfl, rfl, htext, hdeclared⟩
  rw [List.append_nil]
  exact isConstObject_type htype

theorem readFrom_semicolon (seen : Head.Seen) (last : Option Token) {semicolon : Token}
    (hsemicolon : semicolon.kind = .punct .semicolon) (rest : List Token) :
    Head.readFrom seen last 0 (semicolon :: rest) = ⟨[], .semicolon, rest⟩ := by
  have hstep : Head.step seen last 0 semicolon = .finish .semicolon := by
    rw [Head.step, hsemicolon]
    rfl
  rw [Head.readFrom, hstep]

theorem flat_of_identifier {t : Token} (h : t.kind = .identifier) : Flat t :=
  Or.inl (by rw [Token.isAnyPunct, h])

theorem flat_of_keyword {t : Token} {k : Keyword} (h : t.kind = .keyword k) : Flat t :=
  Or.inl (by rw [Token.isAnyPunct, h])

/-- Keywords are flat. -/
theorem flat_of_kinds {front : List Token} {ks : List Keyword} (h : front.map (·.kind) = ks.map .keyword) :
    ∀ t ∈ front, Flat t := by
  intro t ht
  have hmem : t.kind ∈ ks.map TokenKind.keyword := h ▸ List.mem_map_of_mem ht
  obtain ⟨k, -, heq⟩ := List.mem_map.mp hmem
  exact flat_of_keyword heq.symm

/-- A head that is flat up to the initializer of a variable ends at its semicolon. -/
theorem head_initializer {front tail : List Token} (hfront : ∀ t ∈ front, Flat t) (htail : IsInitializer tail)
    {semicolon : Token} (hsemicolon : semicolon.kind = .punct .semicolon) (rest : List Token) :
    Head.read (front ++ tail ++ semicolon :: rest) = ⟨front ++ tail, .semicolon, rest⟩ := by
  obtain ⟨last, hread⟩ := readFrom_flat {} none 0 hfront (tail ++ semicolon :: rest)
  rw [Head.read, List.append_assoc, hread]
  -- a sign is remembered, but that matters to braces only, of which none stands in front of the semicolon
  rcases htail with rfl | ⟨sign, number, rfl, hsign, hnumber⟩
  · rw [List.nil_append, readFrom_semicolon _ _ hsemicolon]
    simp [Head.prepend]
  · have hstep : Head.step {} last 0 sign = .keep { equals := !(last.any (·.isKeyword .operatorKw)) } 0 := by
      rw [Head.step, hsign]
      rfl
    have hnumberFlat : ∀ t ∈ [number], Flat t := by simp [Flat, Token.isAnyPunct, hnumber]
    obtain ⟨last', hnumberRead⟩ :=
      readFrom_flat { equals := !(last.any (·.isKeyword .operatorKw)) } (some sign) 0 hnumberFlat (semicolon :: rest)
    rw [List.cons_append, Head.readFrom, hstep]
    dsimp only
    rw [hnumberRead, readFrom_semicolon _ _ hsemicolon]
    simp [Head.prepend]

/-- The head of a variable ends at its semicolon. -/
theorem head_variable {v : VariableDecl} {region : Region} {head : List Token}
    (h : Spells head (v.symbols region)) {semicolon : Token} (hsemicolon : semicolon.kind = .punct .semicolon)
    (rest : List Token) : Head.read (head ++ semicolon :: rest) = ⟨head, .semicolon, rest⟩ := by
  obtain ⟨front, words, stars, name, tail, rfl, hfront, htype, hname, -, htail, -⟩ := spells_variable h
  have hflat : ∀ t ∈ front ++ (words ++ stars ++ [name]), Flat t := by
    intro t ht
    rcases List.mem_append.mp ht with ht | ht
    · exact flat_of_kinds (kinds_storage hfront) t ht
    · rcases List.mem_append.mp ht with ht | ht
      · exact (htype.inner t ht).flat
      · exact List.mem_singleton.mp ht ▸ flat_of_identifier hname
  have hsplit : front ++ (words ++ stars ++ name :: tail) = front ++ (words ++ stars ++ [name]) ++ tail := by simp
  rw [hsplit]
  exact head_initializer hflat htail hsemicolon rest

/-! ## Parameters -/

/-- What spells a parameter. -/
theorem spells_parameter {p : ParameterDecl} {part : List Token} (h : Spells part p.symbols) :
    ∃ words stars name, part = words ++ stars ++ [name] ∧ IsType p.type words stars ∧
      name.kind = .identifier ∧ name.text = p.name.1 ∧
      declared p.symbols part = [(.parameter, p.name.1, name)] := by
  obtain ⟨type, named, rfl, htype, hnamed⟩ := spells_append_iff.mp h
  obtain ⟨name, _, rfl, hname, htext, hnil⟩ := spells_cons_iff.mp hnamed
  obtain rfl := spells_nil_iff.mp hnil
  have hdeclared : declared p.symbols (type ++ [name]) = [(.parameter, p.name.1, name)] := by
    rw [ParameterDecl.symbols, declared_append htype, declared_type, declared_name, declared_nil]
    rfl
  obtain ⟨words, stars, rfl, hisType⟩ := isType_of_spells htype
  exact ⟨words, stars, name, rfl, hisType, hname, htext, hdeclared⟩

/-- What the parameters of a function declare. -/
def parameterMarks (parameters : List Parameter) : List Mark :=
  parameters.filterMap fun p => p.name.map fun t => (.parameter, t.text, t)

/-- A part of a parameter list, which starts with the words of a type. -/
structure IsPart (p : ParameterDecl) (part : List Token) : Prop where
  inner : ∀ t ∈ part, Inner t
  read : ∃ q name, Parameter.ofPart? part = some q ∧ q.name = some name ∧
    declared p.symbols part = [(.parameter, name.text, name)]
  isArgument : Declaration.isArgument part = false
  ne_void : part.all (·.isKeyword .voidKw) = false

theorem afterSpecifiers_type {type : PlainType} {words stars : List Token} (h : IsType type words stars)
    (rest : List Token) : afterSpecifiers (words ++ stars ++ rest) = words ++ stars ++ rest := by
  obtain ⟨t, more, rfl, ht⟩ := h.exists_cons
  exact congrArg Prod.snd (specifiersFrom_type {} ht (more ++ stars ++ rest))

theorem Inner.isPunct_eq {t : Token} (h : Inner t) : t.isPunct .eq = false := by
  unfold Token.isPunct
  rcases h with h | h
  · unfold Token.isAnyPunct at h
    split at h
    · exact absurd h (by decide)
    · next hkind => exact beq_eq_false_iff_ne.mpr (hkind .eq)
  · rw [h]
    rfl

/-- A part that is a type and a name declares that name. -/
theorem ofPart_parameter {type : PlainType} {words stars : List Token} (htype : IsType type words stars)
    {name : Token} (hname : name.kind = .identifier) :
    ∃ text isConst, Parameter.ofPart? (words ++ stars ++ [name]) = some ⟨text, some name, isConst, .high⟩ := by
  have htake : (words ++ stars ++ [name]).takeWhile (fun u => !u.isPunct .eq) = words ++ stars ++ [name] := by
    refine List.takeWhile_eq_self_iff.mpr fun u hu => ?_
    rcases List.mem_append.mp hu with hu | hu
    · rw [(htype.inner u hu).isPunct_eq]
      rfl
    · rw [List.mem_singleton.mp hu]
      simp [Token.isPunct, hname]
  have hempty : (words ++ stars ++ [name]).isEmpty = false := by simp
  have hellipsis : (words ++ stars ++ [name]).all (·.isPunct .ellipsis) = false := by
    rw [List.all_append]
    simp [Token.isPunct, hname]
  unfold Parameter.ofPart?
  dsimp only
  rw [htake, hempty, if_neg (by decide), hellipsis, Bool.and_false, if_neg (by decide),
    afterSpecifiers_type htype, afterType_name htype hname]
  dsimp only
  rw [if_pos (by simp [Token.isIdentifier, hname])]
  exact ⟨_, _, rfl⟩

/-- A part that starts with the words of a type is no argument. -/
theorem isArgument_parameter {type : PlainType} {words stars : List Token} (htype : IsType type words stars)
    {name : Token} (hname : name.kind = .identifier) :
    Declaration.isArgument (words ++ stars ++ [name]) = false := by
  have hspecifiers := afterSpecifiers_type htype [name]
  have hafter := afterType_name htype hname []
  obtain ⟨t, more, rfl, k, hk, hword⟩ := htype.exists_cons
  unfold Declaration.isArgument
  rw [List.cons_append, List.cons_append] at *
  dsimp only
  rw [hk]
  dsimp only
  rw [(isTypeWord_facts hword).2.2.2, Bool.false_or, hspecifiers, hafter]
  rfl

theorem isPart_of_spells {p : ParameterDecl} {part : List Token} (h : Spells part p.symbols) :
    IsPart p part := by
  obtain ⟨words, stars, name, rfl, htype, hname, htext, hdeclared⟩ := spells_parameter h
  refine ⟨fun t ht => ?_, ?_, isArgument_parameter htype hname, ?_⟩
  · rcases List.mem_append.mp ht with ht | ht
    · exact htype.inner t ht
    · rw [List.mem_singleton.mp ht]
      exact Or.inl (by rw [Token.isAnyPunct, hname])
  · obtain ⟨text, isConst, hread⟩ := ofPart_parameter htype hname
    exact ⟨_, name, hread, rfl, htext ▸ hdeclared⟩
  · rw [List.all_append]
    simp [Token.isKeyword, hname]

/-- The parts of a parameter list behind the first one. -/
theorem parts_of_spells {ps : List ParameterDecl} {more : List Token}
    (h : Spells more (ps.flatMap fun p => .sign .comma :: p.symbols)) :
    ∃ parts, commaParts more = ([], parts) ∧ (∀ t ∈ more, Flat t) ∧
      (∀ part ∈ parts, Declaration.isArgument part = false) ∧
      parameterMarks (parts.filterMap Parameter.ofPart?) =
        declared (ps.flatMap fun p => .sign .comma :: p.symbols) more := by
  induction ps generalizing more with
  | nil =>
    obtain rfl := spells_nil_iff.mp h
    exact ⟨[], rfl, by simp, by simp, rfl⟩
  | cons p ps ih =>
    rw [List.flatMap_cons] at h
    obtain ⟨_, others, rfl, hfirst, hothers⟩ := spells_append_iff.mp h
    obtain ⟨comma, part, rfl, hcomma, -, hpart⟩ := spells_cons_iff.mp hfirst
    obtain ⟨parts, hparts, hflat, harguments, hmarks⟩ := ih hothers
    have hisPart := isPart_of_spells hpart
    obtain ⟨q, name, hread, hname, hdeclared⟩ := hisPart.read
    refine ⟨part :: parts, ?_, ?_, ?_, ?_⟩
    · rw [List.cons_append, commaParts_comma hcomma, commaParts_inner hisPart.inner, hparts, List.append_nil]
    · intro t ht
      rw [List.cons_append, List.mem_cons, List.mem_append] at ht
      rcases ht with rfl | ht | ht
      · exact Or.inr (Or.inl hcomma)
      · exact (hisPart.inner t ht).flat
      · exact hflat t ht
    · exact List.forall_mem_cons.mpr ⟨hisPart.isArgument, harguments⟩
    · rw [List.flatMap_cons, declared_append hfirst, declared_sign, hdeclared, ← hmarks,
        List.filterMap_cons_some hread, parameterMarks, List.filterMap_cons_some (by rw [hname]; rfl)]
      rfl

/-- The parameters of a function, which are no arguments. -/
theorem parameters_of_spells {f : Signature} {inside : List Token} (h : Spells inside f.parameterSymbols) :
    (∀ t ∈ inside, Flat t) ∧ (inside.isEmpty || !(allCommaParts inside).any Declaration.isArgument) = true ∧
      parameterMarks (Parameter.readAll inside) = declared f.parameterSymbols inside := by
  unfold Signature.parameterSymbols at h ⊢
  cases hparameters : f.parameters with
  | nil =>
    rw [hparameters] at h
    obtain rfl := spells_nil_iff.mp h
    exact ⟨by simp, rfl, rfl⟩
  | cons p ps =>
    rw [hparameters] at h
    obtain ⟨part, more, rfl, hpart, hmore⟩ := spells_append_iff.mp h
    have hisPart := isPart_of_spells hpart
    obtain ⟨q, name, hread, hname, hdeclared⟩ := hisPart.read
    obtain ⟨parts, hparts, hflat, harguments, hmarks⟩ := parts_of_spells hmore
    have hall : allCommaParts (part ++ more) = part :: parts := by
      unfold allCommaParts
      rw [commaParts_inner hisPart.inner, hparts, List.append_nil]
    refine ⟨?_, ?_, ?_⟩
    · intro t ht
      rcases List.mem_append.mp ht with ht | ht
      · exact (hisPart.inner t ht).flat
      · exact hflat t ht
    · rw [hall, List.any_cons, hisPart.isArgument, List.any_eq_false.mpr fun part hpart => by
        rw [harguments part hpart]; decide]
      simp
    · unfold Parameter.readAll
      rw [List.all_append, hisPart.ne_void, Bool.false_and, Bool.and_false, if_neg (by decide), hall]
      dsimp only
      rw [declared_append hpart, hdeclared, ← hmarks, List.filterMap_cons_some hread, parameterMarks,
        List.filterMap_cons_some (by rw [hname]; rfl)]
      rfl

/-! ## Functions -/

/-- What spells a function: its type, its name and its parameters in brackets. -/
theorem spells_signature {f : Signature} {region : Region} {head : List Token}
    (h : Spells head (f.symbols region)) :
    ∃ words stars name opener inside closer,
      head = words ++ stars ++ name :: opener :: (inside ++ [closer]) ∧ IsType f.type words stars ∧
        name.kind = .identifier ∧ name.text = f.name.1 ∧ opener.kind = .punct .lparen ∧
        closer.kind = .punct .rparen ∧ Spells inside f.parameterSymbols ∧
        declared (f.symbols region) head =
          (Signature.kind region, f.name.1, name) ::
            declared f.parameterSymbols inside := by
  rw [Signature.symbols] at h
  obtain ⟨type, named, rfl, htype, hnamed⟩ := spells_append_iff.mp h
  obtain ⟨name, _, rfl, hname, htext, hopened⟩ := spells_cons_iff.mp hnamed
  obtain ⟨opener, _, rfl, hopener, -, hclosed⟩ := spells_cons_iff.mp hopened
  obtain ⟨inside, _, rfl, hinside, hlast⟩ := spells_append_iff.mp hclosed
  obtain ⟨closer, _, rfl, hcloser, -, hnil⟩ := spells_cons_iff.mp hlast
  obtain rfl := spells_nil_iff.mp hnil
  have hdeclared : declared (f.symbols region) (type ++ name :: opener :: (inside ++ [closer])) =
      (Signature.kind region, f.name.1, name) ::
        declared f.parameterSymbols inside := by
    rw [Signature.symbols, declared_append htype, declared_type, declared_name, declared_sign,
      declared_append hinside, declared_sign, declared_nil, List.append_nil]
    rfl
  obtain ⟨words, stars, rfl, hisType⟩ := isType_of_spells htype
  exact ⟨words, stars, name, opener, inside, closer, rfl, hisType, hname, htext, hopener, hcloser, hinside,
    hdeclared⟩

/-- A bracket behind a name opens a parameter list, outside of functions. -/
theorem not_directInitializer {f : Signature} {inside : List Token} (h : Spells inside f.parameterSymbols)
    {closer : Token} (hcloser : closer.kind = .punct .rparen) (scope : Scope) :
    Declaration.isDirectInitializer scope false (inside ++ [closer]) = false := by
  obtain ⟨hflat, harguments, -⟩ := parameters_of_spells h
  unfold Declaration.isDirectInitializer
  split
  · rfl
  · rw [if_neg (by decide), parenthesised?, enclosed_flat hflat hcloser rfl rfl]
    dsimp only
    rw [Bool.or_eq_true, Bool.not_eq_true'] at harguments
    -- nothing in the brackets, or no part in them that could be an argument
    rcases harguments with h | h
    · rw [h]
      rfl
    · rw [h, Bool.and_false]

/-- The head of a function declares that function and its parameters. -/
theorem read_signature {f : Signature} {region : Region} {head : List Token}
    (h : Spells head (f.symbols region)) (scope : Scope) :
    ∃ fh : FunctionHead, Declaration.read? scope false head = some (.function fh) ∧ fh.display = f.name.1 ∧
      fh.qualifier = [] ∧
      declared (f.symbols region) head =
        (Signature.kind region, f.name.1, fh.name) ::
          parameterMarks (Parameter.readAll (Extraction.parameterTokens fh)) := by
  obtain ⟨words, stars, name, opener, inside, closer, rfl, htype, hname, htext, hopener, hcloser, hinside,
    hdeclared⟩ := spells_signature h
  have hends : EndsName (opener :: (inside ++ [closer])) := by
    intro t ht
    obtain rfl := Option.mem_some.mp ht
    simp [Token.isPunct, hopener]
  have hnested : Declaration.startsNested (name :: opener :: (inside ++ [closer])) = false := by
    simp [Declaration.startsNested, Token.isPunct, hname]
  have htyped : Declaration.typed? scope false {} (words ++ stars) (name :: opener :: (inside ++ [closer])) =
      some (.function {
        name, display := name.text, qualifier := [], type := words ++ stars, isSpecial := false
        specifiers := {}, opener, afterOpener := inside ++ [closer] }) := by
    unfold Declaration.typed?
    dsimp only
    rw [if_neg (by simp [Token.isKeyword, hname]), if_neg (by simp [Token.isPunct, hname]),
      if_neg (by rw [hnested]; decide), if_neg (by simp [Token.isIdentifier, hname]),
      qualifiedName_name hname hends]
    dsimp only
    rw [not_directInitializer hinside hcloser scope, if_pos (by simp [Token.isPunct, hopener])]
    rfl
  -- a function of the grammar has nothing in front of its type
  have hfront : ([] : List Token).map (·.kind) = ([] : List Keyword).map .keyword := rfl
  have hread := (read_type hfront (by simp) htype hname scope false _).trans htyped
  refine ⟨_, hread, htext, rfl, ?_⟩
  obtain ⟨hflat, -, hmarks⟩ := parameters_of_spells hinside
  rw [hdeclared, ← hmarks, Extraction.parameterTokens, parenthesised?, enclosed_flat hflat hcloser rfl rfl]
  rfl

theorem prepend_prepend (front back : List Token) (h : Head) :
    (h.prepend back).prepend front = h.prepend (front ++ back) := by
  unfold Head.prepend
  dsimp only
  rw [List.append_assoc]

/-- The head of a function goes on behind its brackets, and remembers them. -/
theorem head_signature {f : Signature} {region : Region} {head : List Token}
    (h : Spells head (f.symbols region)) (rest : List Token) :
    ∃ closer, Head.read (head ++ rest) =
      (Head.readFrom { brackets := true } (some closer) 0 rest).prepend head := by
  obtain ⟨words, stars, name, opener, inside, closer, rfl, htype, hname, -, hopener, hcloser, hinside, -⟩ :=
    spells_signature h
  have hflat : ∀ t ∈ words ++ stars ++ [name], Flat t := by
    intro t ht
    rcases List.mem_append.mp ht with ht | ht
    · exact (htype.inner t ht).flat
    · exact List.mem_singleton.mp ht ▸ flat_of_identifier hname
  obtain ⟨last₁, hnamed⟩ := readFrom_flat {} none 0 hflat (opener :: (inside ++ (closer :: rest)))
  obtain ⟨last₂, hinner⟩ := readFrom_flat {} (some opener) 1 (parameters_of_spells hinside).1 (closer :: rest)
  have hopened : Head.step {} last₁ 0 opener = .keep {} 1 := by
    rw [Head.step, hopener]
  have hclosed : Head.step {} last₂ 1 closer = .keep { brackets := true } 0 := by
    rw [Head.step, hcloser]
    rfl
  have hsplit : words ++ stars ++ name :: opener :: (inside ++ [closer]) ++ rest =
      words ++ stars ++ [name] ++ opener :: (inside ++ closer :: rest) := by simp
  refine ⟨closer, ?_⟩
  rw [Head.read, hsplit, hnamed, Head.readFrom, hopened]
  dsimp only
  rw [hinner, Head.readFrom, hclosed]
  dsimp only
  rw [prepend_prepend, prepend_prepend, prepend_prepend]
  simp

/-- A declaration of a function ends at its semicolon. -/
theorem head_prototype {f : Signature} {region : Region} {head : List Token}
    (h : Spells head (f.symbols region)) {semicolon : Token} (hsemicolon : semicolon.kind = .punct .semicolon)
    (rest : List Token) : Head.read (head ++ semicolon :: rest) = ⟨head, .semicolon, rest⟩ := by
  obtain ⟨closer, hread⟩ := head_signature h (semicolon :: rest)
  rw [hread, readFrom_semicolon _ _ hsemicolon, Head.prepend, List.append_nil]

/-- A brace behind the brackets of a function opens its body, and no initializer. -/
theorem head_function {f : Signature} {region : Region} {head : List Token}
    (h : Spells head (f.symbols region)) {brace : Token} (hbrace : brace.kind = .punct .lbrace)
    (rest : List Token) : Head.read (head ++ brace :: rest) = ⟨head, .body brace, rest⟩ := by
  obtain ⟨closer, hread⟩ := head_signature h (brace :: rest)
  have hstep : Head.step { brackets := true } (some closer) 0 brace = .finish (.body brace) := by
    rw [Head.step, hbrace]
    rfl
  rw [hread, Head.readFrom, hstep, Head.prepend, List.append_nil]

end HouseStyle.Core
