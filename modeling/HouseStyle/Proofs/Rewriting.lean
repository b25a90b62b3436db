import HouseStyle.Declaration.Statement

/-!
# Code that is rewritten

A `Rewriting` does to the tokens of a file what fixing it does: names are spelled in another way, and
`class` is put in behind some of the `enum`s. The few words that have a meaning of their own stay as they
are, and no other name becomes one of them. So whatever takes tokens off the front of the code takes
the rewritten ones off the rewritten code, and every lemma here has the same form:

> a reader of `w.code ts` gives what the reader of `ts` gives, rewritten.

The `class` that is put in counts nowhere but at the head of its enumeration: all other readers pass
over it as they pass over the `enum` in front.

Two names may become one. That matters where names are compared, and there one of the two has to stay apart
from all others (`Rewriting.Apart`).
-/

namespace HouseStyle

/-- The words that are read as more than a name. -/
def contextualWords : List String := ["final", "override"] ++ attributeWords

/-- What a batch of fixes does to code. -/
structure Rewriting where
  /-- A token after it. -/
  token : Token → Token
  /-- A name after it. -/
  name : Text → Text
  /-- Whether `class` is put in behind a token. -/
  scopes : Token → Bool
  /-- The `class` behind a token. -/
  inserted : Token → Token
  kind_token : ∀ t, (token t).kind = t.kind
  text_name : ∀ t, t.kind = .identifier → (token t).text = name t.text
  quoted_token : ∀ t, t.kind = .literal →
    ((token t).text.head? == some (.scalar '"')) = (t.text.head? == some (.scalar '"'))
  kind_of_scopes : ∀ t, scopes t = true → t.kind = .keyword .enumKw
  kind_inserted : ∀ t, (inserted t).kind = .keyword .classKw
  name_tilde : ∀ s, name (.scalar '~' :: s) = .scalar '~' :: name s
  tilde_of_name : ∀ s, (name s).head? = some (.scalar '~') → s.head? = some (.scalar '~')
  name_contextual : ∀ s, ∀ word ∈ contextualWords, name s = Text.ofString word ↔ s = Text.ofString word

namespace Rewriting

variable (w : Rewriting)

/-- No other name becomes what a name becomes. -/
def Apart (s : Text) : Prop := ∀ t, w.name s = w.name t → s = t

/-- What stands behind a token: the `class` that is put in there, and the rest. -/
def behind (t : Token) (ts : List Token) : List Token :=
  if w.scopes t then w.inserted t :: ts else ts

/-- The last token that stands in the place of a token. -/
def last (t : Token) : Token := if w.scopes t then w.inserted t else w.token t

/-- A list of tokens, rewritten. -/
def code : List Token → List Token
  | [] => []
  | t :: ts => w.token t :: w.behind t (code ts)

@[simp] theorem code_nil : w.code [] = [] := rfl

@[simp] theorem code_cons (t : Token) (ts : List Token) :
    w.code (t :: ts) = w.token t :: w.behind t (w.code ts) := rfl

variable {w}

theorem behind_of_ne {t : Token} (h : t.kind ≠ .keyword .enumKw) (ts : List Token) :
    w.behind t ts = ts := by
  unfold behind
  rw [if_neg fun hs => h (w.kind_of_scopes t hs)]

theorem behind_of_isPunct {t : Token} {p : Punct} (h : t.isPunct p = true) (ts : List Token) :
    w.behind t ts = ts :=
  behind_of_ne (by rw [beq_iff_eq.mp h]; simp) ts

theorem behind_of_isOneOf {t : Token} {ps : List Punct} (h : t.isOneOf ps = true) (ts : List Token) :
    w.behind t ts = ts :=
  behind_of_ne (by rintro hk; simp [Token.isOneOf, hk] at h) ts

theorem behind_of_isIdentifier {t : Token} (h : t.isIdentifier = true) (ts : List Token) :
    w.behind t ts = ts :=
  behind_of_ne (by rw [beq_iff_eq.mp h]; simp) ts

theorem behind_of_isKeyword {t : Token} {k : Keyword} (h : t.isKeyword k = true) (hne : k ≠ .enumKw)
    (ts : List Token) : w.behind t ts = ts :=
  behind_of_ne (by rw [beq_iff_eq.mp h]; simpa using hne) ts

theorem last_of_isPunct {t : Token} {p : Punct} (h : t.isPunct p = true) : w.last t = w.token t := by
  unfold last
  rw [if_neg fun hs => absurd (w.kind_of_scopes t hs) (by rw [beq_iff_eq.mp h]; simp)]

/-- Nothing is put in behind a token, or it is an `enum` and `class` is. -/
theorem behind_cases (w : Rewriting) (t : Token) :
    (∀ ts, w.behind t ts = ts) ∨
      (t.kind = .keyword .enumKw ∧ ∀ ts, w.behind t ts = w.inserted t :: ts) := by
  by_cases h : w.scopes t = true
  · exact Or.inr ⟨w.kind_of_scopes t h, fun ts => by rw [behind, if_pos h]⟩
  · exact Or.inl fun ts => by rw [behind, if_neg h]

theorem behind_append (t : Token) (ts us : List Token) :
    w.behind t ts ++ us = w.behind t (ts ++ us) := by
  unfold behind
  split <;> rfl

@[simp] theorem code_append (ts us : List Token) : w.code (ts ++ us) = w.code ts ++ w.code us := by
  induction ts with
  | nil => rfl
  | cons t ts ih => rw [List.cons_append, code_cons, code_cons, ih, List.cons_append, behind_append]

/-! ## What a token is -/

@[simp] theorem isPunct_token (t : Token) (p : Punct) : (w.token t).isPunct p = t.isPunct p := by
  simp only [Token.isPunct, w.kind_token]

@[simp] theorem isOneOf_token (t : Token) (ps : List Punct) : (w.token t).isOneOf ps = t.isOneOf ps := by
  simp only [Token.isOneOf, w.kind_token]

@[simp] theorem isAnyPunct_token (t : Token) : (w.token t).isAnyPunct = t.isAnyPunct := by
  simp only [Token.isAnyPunct, w.kind_token]

@[simp] theorem isKeyword_token (t : Token) (k : Keyword) : (w.token t).isKeyword k = t.isKeyword k := by
  simp only [Token.isKeyword, w.kind_token]

@[simp] theorem isKeywordIn_token (t : Token) (ks : List Keyword) :
    (w.token t).isKeywordIn ks = t.isKeywordIn ks := by
  simp only [Token.isKeywordIn, w.kind_token]

@[simp] theorem isIdentifier_token (t : Token) : (w.token t).isIdentifier = t.isIdentifier := by
  simp only [Token.isIdentifier, w.kind_token]

@[simp] theorem isLiteral_token (t : Token) : (w.token t).isLiteral = t.isLiteral := by
  simp only [Token.isLiteral, w.kind_token]

@[simp] theorem isCv_token (t : Token) : (w.token t).isCv = t.isCv := by simp only [Token.isCv, isKeyword_token]

@[simp] theorem isPointerOrReference_token (t : Token) :
    (w.token t).isPointerOrReference = t.isPointerOrReference := isOneOf_token t _

@[simp] theorem isTypeName_token (t : Token) : (w.token t).isTypeName = t.isTypeName := by
  simp only [Token.isTypeName, w.kind_token]

@[simp] theorem isElaborated_token (t : Token) : (w.token t).isElaborated = t.isElaborated := by
  simp only [Token.isElaborated, w.kind_token]

@[simp] theorem specifier_token (t : Token) : (w.token t).specifier? = t.specifier? := by
  simp only [Token.specifier?, w.kind_token]

/-- A word with a meaning of its own stays one, and no other name becomes one. -/
theorem isWord_token (t : Token) {word : String} (h : word ∈ contextualWords) :
    (w.token t).isWord word = t.isWord word := by
  unfold Token.isWord
  rw [w.kind_token]
  by_cases hk : t.kind = .identifier
  · rw [w.text_name t hk]
    congr 1
    rw [Bool.eq_iff_iff, beq_iff_eq, beq_iff_eq]
    exact w.name_contextual t.text word h
  · rw [beq_eq_false_iff_ne.mpr hk, Bool.false_and, Bool.false_and]

@[simp] theorem isAttributeWord_token (t : Token) :
    attributeWords.any (w.token t).isWord = attributeWords.any t.isWord := by
  simp only [attributeWords, List.any_cons, List.any_nil,
    isWord_token (w := w) t (show "__attribute__" ∈ contextualWords by decide),
    isWord_token (w := w) t (show "__declspec" ∈ contextualWords by decide)]

/-! ## Tokens that pass a test -/

/-- A test that sees neither how names are spelled nor the `class` behind an `enum`. -/
structure Blind (w : Rewriting) (p : Token → Bool) : Prop where
  token : ∀ t, p (w.token t) = p t
  inserted : ∀ t, w.scopes t = true → p (w.inserted t) = p t

theorem Blind.not {p : Token → Bool} (h : Blind w p) : Blind w fun t => !p t where
  token t := by rw [h.token]
  inserted t ht := by rw [h.inserted t ht]

/-- A test that no keyword passes. -/
theorem Blind.of_keyword {p : Token → Bool} (htoken : ∀ t, p (w.token t) = p t)
    (hkeyword : ∀ t, t.kind = .keyword .enumKw ∨ t.kind = .keyword .classKw → p t = false) : Blind w p where
  token := htoken
  inserted t ht := by
    rw [hkeyword t (Or.inl (w.kind_of_scopes t ht)), hkeyword _ (Or.inr (w.kind_inserted t))]

theorem blind_isPunct (p : Punct) : Blind w (·.isPunct p) :=
  .of_keyword (by simp) (by rintro t (h | h) <;> simp [Token.isPunct, h])

theorem blind_isOneOf (ps : List Punct) : Blind w (·.isOneOf ps) :=
  .of_keyword (by simp) (by rintro t (h | h) <;> simp [Token.isOneOf, h])

section

variable {p : Token → Bool}

theorem takeWhile_code (hp : Blind w p) (ts : List Token) :
    (w.code ts).takeWhile p = w.code (ts.takeWhile p) := by
  induction ts with
  | nil => rfl
  | cons t ts ih =>
    rw [code_cons, List.takeWhile_cons, List.takeWhile_cons, hp.token]
    split
    next ht =>
      rw [code_cons, ← ih]
      unfold behind
      split
      next hs => rw [List.takeWhile_cons, hp.inserted t hs, if_pos ht]
      next => rfl
    next => rfl

theorem dropWhile_code (hp : Blind w p) (ts : List Token) :
    (w.code ts).dropWhile p = w.code (ts.dropWhile p) := by
  induction ts with
  | nil => rfl
  | cons t ts ih =>
    rw [code_cons, List.dropWhile_cons, List.dropWhile_cons, hp.token]
    split
    next ht =>
      rw [← ih]
      unfold behind
      split
      next hs => rw [List.dropWhile_cons, hp.inserted t hs, if_pos ht]
      next => rfl
    next => rfl

theorem any_code (hp : Blind w p) (ts : List Token) : (w.code ts).any p = ts.any p := by
  induction ts with
  | nil => rfl
  | cons t ts ih =>
    rw [code_cons, List.any_cons, List.any_cons, hp.token, ← ih]
    unfold behind
    split
    next hs => rw [List.any_cons, hp.inserted t hs, ← Bool.or_assoc, Bool.or_self]
    next => rfl

theorem head_code (ts : List Token) : (w.code ts).head? = ts.head?.map w.token := by
  cases ts <;> rfl

theorem head_any_code (hp : ∀ t, p (w.token t) = p t) (ts : List Token) :
    (w.code ts).head?.any p = ts.head?.any p := by
  rw [head_code, Option.any_map]
  congr 1
  funext t
  exact hp t

theorem drop_code {ts : List Token} (henum : ∀ t : Token, t.kind = .keyword .enumKw → p t = false)
    (h : ts.head?.any p = true) : (w.code ts).drop 1 = w.code (ts.drop 1) := by
  cases ts with
  | nil => rfl
  | cons t ts =>
    have ht : t.kind ≠ .keyword .enumKw := fun hk => absurd (h.symm.trans (henum t hk)) (by decide)
    rw [code_cons, behind_of_ne ht]
    rfl

/-- The identifiers of rewritten code are the rewritten ones. -/
theorem filter_isIdentifier_code (ts : List Token) :
    (w.code ts).filter (·.isIdentifier) = (ts.filter (·.isIdentifier)).map w.token := by
  induction ts with
  | nil => rfl
  | cons t ts ih =>
    have hbehind : (w.behind t (w.code ts)).filter (·.isIdentifier) = (w.code ts).filter (·.isIdentifier) := by
      unfold behind
      split
      · rw [List.filter_cons, if_neg]
        simp [Token.isIdentifier, w.kind_inserted]
      · rfl
    rw [code_cons, List.filter_cons, List.filter_cons, isIdentifier_token, hbehind, ih]
    split <;> rfl

theorem find_isIdentifier_code (ts : List Token) :
    (w.code ts).find? (·.isIdentifier) = (ts.find? (·.isIdentifier)).map w.token := by
  rw [← List.head?_filter, filter_isIdentifier_code, List.head?_map, List.head?_filter]

end

theorem isEmpty_code (ts : List Token) : (w.code ts).isEmpty = ts.isEmpty := by cases ts <;> rfl

/-! ## Brackets -/

/-- A bracketed run, rewritten. -/
def enclosed (w : Rewriting) (e : Enclosed) : Enclosed := ⟨w.code e.inside, w.token e.closer, w.code e.after⟩

theorem enclosed_behind (closer : Punct) (depth : Nat) (t : Token) (ts : List Token) :
    enclosed? closer depth (w.behind t ts) =
      (enclosed? closer depth ts).map fun e => { e with inside := w.behind t e.inside } := by
  unfold behind
  split
  · rw [enclosed?, w.kind_inserted]
    rfl
  · simp

theorem enclosed_code (closer : Punct) (depth : Nat) (ts : List Token) :
    enclosed? closer depth (w.code ts) = (enclosed? closer depth ts).map w.enclosed := by
  induction ts generalizing depth with
  | nil => rfl
  | cons t ts ih =>
    -- one more token inside
    have step : ∀ d, (enclosed? closer d (w.behind t (w.code ts))).map (.cons (w.token t)) =
        ((enclosed? closer d ts).map (.cons t)).map w.enclosed := by
      intro d
      rw [enclosed_behind, ih, Option.map_map, Option.map_map, Option.map_map]
      rfl
    rw [code_cons, enclosed?, enclosed?, w.kind_token]
    split
    next q hq =>
      have hbehind := behind_of_ne (w := w) (t := t) (by rw [hq]; simp) (w.code ts)
      split
      · exact step _
      · split
        · split
          · split
            · rw [hbehind]
              rfl
            · rfl
          · exact step _
        · exact step _
    next => exact step _

theorem parenthesised_code (ts : List Token) :
    parenthesised? (w.code ts) = (parenthesised? ts).map w.enclosed := enclosed_code ..

theorem bracketed_code (ts : List Token) : bracketed? (w.code ts) = (bracketed? ts).map w.enclosed :=
  enclosed_code ..

theorem braced_code (ts : List Token) : braced? (w.code ts) = (braced? ts).map w.enclosed :=
  enclosed_code ..

theorem map_after_enclosed (o : Option Enclosed) :
    (o.map w.enclosed).map (·.after) = (o.map (·.after)).map w.code := by
  cases o <;> rfl

/-- A template argument list, rewritten. -/
def angled (w : Rewriting) (a : Angled) : Angled := ⟨w.code a.inside, w.code a.after⟩

theorem angled_prepend (ts : List Token) (a : Angled) :
    w.angled (a.prepend ts) = (w.angled a).prepend (w.code ts) := by
  simp [angled, Angled.prepend]

theorem map_angled_prepend (ts : List Token) (o : Option Angled) :
    (o.map (.prepend ts)).map w.angled = (o.map w.angled).map (.prepend (w.code ts)) := by
  cases o with
  | none => rfl
  | some a => exact congrArg some (angled_prepend ts a)

theorem angled_behind (depth : Nat) (t : Token) (ts : List Token) :
    angled? depth (w.behind t ts) = (angled? depth ts).map (.prepend (w.behind t [])) := by
  unfold behind
  split
  · rw [angled?.eq_def]
    simp only [w.kind_inserted]
  · cases angled? depth ts <;> rfl

theorem angled_bracket_code {depth : Nat} {t : Token} {closer : Punct} {ts : List Token}
    (h : t.kind = .punct .lparen ∧ closer = .rparen ∨ t.kind = .punct .lbracket ∧ closer = .rbracket)
    (ih : ∀ e, enclosed? closer 0 ts = some e →
      angled? depth (w.code e.after) = (angled? depth e.after).map w.angled) :
    angled? depth (w.code (t :: ts)) =
      ((enclosed? closer 0 ts).bind fun e =>
        (angled? depth e.after).map (.prepend (t :: e.inside ++ [e.closer]))).map w.angled := by
  have hne : t.kind ≠ .keyword .enumKw := by rcases h with ⟨h, -⟩ | ⟨h, -⟩ <;> simp [h]
  rw [code_cons, behind_of_ne hne, angled_bracket depth _ (by rwa [w.kind_token]), enclosed_code]
  cases he : enclosed? closer 0 ts with
  | none => rfl
  | some e =>
    have hcloser : e.closer.kind ≠ .keyword .enumKw := by
      have := closer_isPunct he
      simp only [Token.isPunct, beq_iff_eq] at this
      simp [this]
    show (angled? depth (w.code e.after)).map _ = ((angled? depth e.after).map _).map _
    rw [ih e he, map_angled_prepend]
    simp [enclosed, behind_of_ne hne, behind_of_ne hcloser]

theorem angled_code (depth : Nat) (ts : List Token) :
    angled? depth (w.code ts) = (angled? depth ts).map w.angled := by
  fun_induction angled? depth ts with
  | case1 => rw [code_nil, angled?]; rfl
  | case2 depth t rest hk ih | case4 t rest hk depth ih =>
    rw [code_cons, behind_of_ne (by rw [hk]; simp), angled?.eq_def]
    simp only [w.kind_token, hk]
    rw [ih, map_angled_prepend, code_cons, behind_of_ne (by rw [hk]; simp), code_nil]
  | case3 t rest hk =>
    rw [code_cons, behind_of_ne (by rw [hk]; simp), angled?.eq_def]
    simp only [w.kind_token, hk]
    rfl
  | case5 depth t rest hk he =>
    rw [angled_bracket_code (Or.inl ⟨hk, rfl⟩) fun e h => absurd (he.symm.trans h) (by simp),
      show enclosed? .rparen 0 rest = none from he]
    rfl
  | case6 depth t rest hk e he ih =>
    rw [angled_bracket_code (Or.inl ⟨hk, rfl⟩) fun a h => Option.some.inj (he.symm.trans h) ▸ ih,
      show enclosed? .rparen 0 rest = some e from he]
    rfl
  | case7 depth t rest hk he =>
    rw [angled_bracket_code (Or.inr ⟨hk, rfl⟩) fun e h => absurd (he.symm.trans h) (by simp),
      show enclosed? .rbracket 0 rest = none from he]
    rfl
  | case8 depth t rest hk e he ih =>
    rw [angled_bracket_code (Or.inr ⟨hk, rfl⟩) fun a h => Option.some.inj (he.symm.trans h) ▸ ih,
      show enclosed? .rbracket 0 rest = some e from he]
    rfl
  | case9 depth t rest p hless hgreater hparen hbracket hk hno =>
    rw [code_cons, angled?.eq_def]
    simp only [w.kind_token, hk]
    rw [if_pos hno]
    rfl
  | case10 depth t rest p hless hgreater hparen hbracket hk hno ih =>
    rw [code_cons, behind_of_ne (by rw [hk]; simp), angled?.eq_def]
    simp only [w.kind_token, hk]
    rw [if_neg hno, ih, map_angled_prepend, code_cons, behind_of_ne (by rw [hk]; simp), code_nil]
  | case11 depth t rest h₁ h₂ h₃ h₄ hnone ih =>
    have hplain : ∀ p, t.kind ≠ .punct p := hnone
    rw [code_cons, angled?.eq_def]
    simp only [w.kind_token]
    rw [angled_behind, ih, map_angled_prepend]
    cases hk : t.kind with
    | punct p => exact absurd hk (hplain p)
    | _ =>
      rw [Option.map_map]
      rfl

/-- The parts between separators, rewritten. -/
theorem partsFrom_code (separator : Punct) (angles : Bool) (depth angle : Nat) (ts : List Token) :
    partsFrom separator angles depth angle (w.code ts) =
      (w.code (partsFrom separator angles depth angle ts).1,
        (partsFrom separator angles depth angle ts).2.map w.code) := by
  induction ts generalizing depth angle with
  | nil => rfl
  | cons t ts ih =>
    have skip : ∀ depth angle, partsFrom separator angles depth angle (w.behind t (w.code ts)) =
        (w.behind t (w.code (partsFrom separator angles depth angle ts).1),
          (partsFrom separator angles depth angle ts).2.map w.code) := by
      intro depth angle
      unfold behind
      split
      · rw [partsFrom, w.kind_inserted]
        dsimp only
        rw [ih]
      · exact ih ..
    rw [code_cons, partsFrom, partsFrom, w.kind_token]
    dsimp only
    split
    next p hp =>
      simp only [skip]
      repeat' split
      all_goals first
        | rfl
        | simp [behind_of_ne (w := w) (t := t) (by rw [hp]; simp)]
    next => rw [skip, code_cons]

theorem commaParts_code (ts : List Token) :
    commaParts (w.code ts) = (w.code (commaParts ts).1, (commaParts ts).2.map w.code) :=
  partsFrom_code ..

theorem allCommaParts_code (ts : List Token) : allCommaParts (w.code ts) = (allCommaParts ts).map w.code := by
  unfold allCommaParts
  rw [commaParts_code]
  rfl

/-! ## Specifiers -/

/-- No attribute starts with `enum`. -/
theorem afterAttribute_enum {t : Token} (h : t.kind = .keyword .enumKw) (ts : List Token) :
    afterAttribute? (t :: ts) = none := by
  cases ts with
  | nil => rfl
  | cons u ts => simp [afterAttribute?, Token.isPunct, Token.isKeyword, Token.isWord, h]

theorem afterAttribute_code (ts : List Token) :
    afterAttribute? (w.code ts) = (afterAttribute? ts).map w.code := by
  cases ts with
  | nil => rfl
  | cons t ts =>
    rcases w.behind_cases t with h | ⟨hk, h⟩
    · cases ts with
      | nil => rw [code_cons, h, code_nil]; rfl
      | cons u rest =>
        rw [code_cons, h, code_cons, afterAttribute?, afterAttribute?, ← code_cons]
        simp only [isPunct_token, isKeyword_token, isAttributeWord_token]
        split
        · rw [bracketed_code, map_after_enclosed]
        · split
          next hno hparen =>
            rw [behind_of_isPunct (Bool.and_eq_true_iff.mp hparen).2, parenthesised_code,
              map_after_enclosed]
          next => rfl
    · rw [afterAttribute_enum hk, code_cons, afterAttribute_enum (by rw [w.kind_token, hk])]
      rfl

theorem specifiersFrom_eq (s : Specifiers) (t : Token) (ts : List Token) :
    specifiersFrom s (t :: ts) =
      match t.specifier? with
      | some k => specifiersFrom (s.note k) ts
      | none =>
        match afterAttribute? (t :: ts) with
        | some after => specifiersFrom s after
        | none => (s, t :: ts) := by
  rw [specifiersFrom.eq_def]
  dsimp only
  cases t.specifier? with
  | some k => rfl
  | none =>
    dsimp only
    split
    next h => rw [h]
    next h => rw [h]

theorem specifiersFrom_code (s : Specifiers) (ts : List Token) :
    specifiersFrom s (w.code ts) = ((specifiersFrom s ts).1, w.code (specifiersFrom s ts).2) := by
  fun_induction specifiersFrom s ts with
  | case1 => rw [code_nil, specifiersFrom]
  | case2 s t rest k hk ih =>
    have ht : t.kind ≠ .keyword .enumKw := by
      rintro h
      simp [Token.specifier?, h, Keyword.isSpecifier] at hk
    rw [code_cons, behind_of_ne ht, specifiersFrom, specifier_token, hk]
    exact ih
  | case3 s t rest hk after h ih =>
    rw [code_cons, specifiersFrom_eq, specifier_token, hk, ← code_cons, afterAttribute_code, h]
    exact ih
  | case4 s t rest hk h =>
    rw [code_cons, specifiersFrom_eq, specifier_token, hk, ← code_cons, afterAttribute_code, h]
    rfl

theorem specifiers_code (ts : List Token) :
    specifiers (w.code ts) = ((specifiers ts).1, w.code (specifiers ts).2) := specifiersFrom_code {} ts

theorem afterSpecifiers_code (ts : List Token) : afterSpecifiers (w.code ts) = w.code (afterSpecifiers ts) :=
  congrArg Prod.snd (specifiers_code ts)

/-! ## Names -/

theorem afterArguments_code (ts : List Token) :
    afterArguments? (w.code ts) = (afterArguments? ts).map w.code := by
  cases ts with
  | nil => rfl
  | cons t ts =>
    rw [code_cons, afterArguments?, afterArguments?, isPunct_token]
    split
    next h =>
      rw [behind_of_isPunct h, angled_code]
      cases angled? 0 ts <;> rfl
    next => rfl

theorem afterScope_code (ts : List Token) : afterScope? (w.code ts) = (afterScope? ts).map w.code := by
  match ts with
  | [] => rfl
  | [c] =>
    rw [code_cons, code_nil]
    unfold behind
    split
    next hs => simp [afterScope?, Token.isPunct, w.kind_token, w.kind_of_scopes c hs]
    next => rfl
  | c :: n :: rest =>
    rcases w.behind_cases c with h | ⟨hk, h⟩
    · rw [code_cons, h, code_cons, afterScope?, afterScope?, ← code_cons]
      simp only [isPunct_token, isKeyword_token, isIdentifier_token]
      split
      · split
        next hn => rw [behind_of_isKeyword hn (by decide)]; rfl
        next => split <;> rfl
      · rfl
    · rw [code_cons, h, afterScope?, afterScope?]
      simp [Token.isPunct, w.kind_token, hk]

/-- A segment of a name, rewritten. -/
def segment (w : Rewriting) (s : Text × Token) : Text × Token := (w.name s.1, w.token s.2)

theorem segments_eq (t : Token) (ts : List Token) (h : t.isPunct .tilde = false) :
    segments? (t :: ts) =
      if t.isIdentifier then
        (afterArguments? ts).bind fun after =>
          match afterScope? after with
          | some next => (segments? next).map fun (segments, end_) => ((t.text, t) :: segments, end_)
          | none => some ([(t.text, t)], after)
      else some ([], t :: ts) := by
  rw [segments?.eq_def]
  dsimp only
  rw [h, if_neg (by decide)]
  split
  · split
    next hargs => rw [hargs]; rfl
    next hargs =>
      rw [hargs, Option.bind_some]
      split
      next hscope => rw [hscope]
      next hscope => rw [hscope]
  · rfl

theorem segments_code (ts : List Token) :
    segments? (w.code ts) = (segments? ts).map fun r => (r.1.map w.segment, w.code r.2) := by
  fun_induction segments? ts with
  | case1 => rw [code_nil, segments?]; rfl
  | case2 t ht u after hu =>
    have htext := w.text_name u (beq_iff_eq.mp hu)
    rw [code_cons, behind_of_isPunct ht, code_cons, behind_of_isIdentifier hu, segments?.eq_def]
    simp [ht, hu, htext, segment, w.name_tilde]
  | case3 t ht u after hu =>
    rw [code_cons, behind_of_isPunct ht, segments?.eq_def]
    simp [ht, hu, behind_of_isPunct ht]
  | case4 t ht =>
    rw [code_cons, behind_of_isPunct ht, segments?.eq_def]
    simp [ht, behind_of_isPunct ht]
  | case5 t rest ht hid hargs =>
    rw [code_cons, behind_of_isIdentifier hid, segments_eq _ _ (by simpa using ht)]
    simp [hid, afterArguments_code, hargs]
  | case6 t rest ht hid after hargs next hscope ih =>
    have htext := w.text_name t (beq_iff_eq.mp hid)
    rw [code_cons, behind_of_isIdentifier hid, segments_eq _ _ (by simpa using ht)]
    simp only [isIdentifier_token, hid, if_true, afterArguments_code, hargs, Option.map_some,
      Option.bind_some, afterScope_code, hscope, ih, Option.map_map, htext]
    congr 1
  | case7 t rest ht hid after hargs hscope =>
    have htext := w.text_name t (beq_iff_eq.mp hid)
    rw [code_cons, behind_of_isIdentifier hid, segments_eq _ _ (by simpa using ht)]
    simp [hid, afterArguments_code, hargs, afterScope_code, hscope, htext, segment]
  | case8 t rest ht hid =>
    rw [code_cons, segments_eq _ _ (by simpa using ht)]
    simp [hid]

theorem afterGlobal_code (ts : List Token) : afterGlobal (w.code ts) = w.code (afterGlobal ts) := by
  cases ts with
  | nil => rfl
  | cons t ts =>
    rw [code_cons, afterGlobal, afterGlobal, isPunct_token]
    split
    next h => rw [behind_of_isPunct h]
    next => rfl

/-- A qualified name, rewritten. -/
def qualifiedName (w : Rewriting) (n : QualifiedName) : QualifiedName :=
  ⟨n.segments.map w.name, w.token n.last, w.code n.rest⟩

theorem qualifiedName_code (ts : List Token) :
    qualifiedName? (w.code ts) = (qualifiedName? ts).map w.qualifiedName := by
  unfold qualifiedName?
  rw [afterGlobal_code, segments_code]
  cases segments? (afterGlobal ts) with
  | none => rfl
  | some r =>
    obtain ⟨segments, rest⟩ := r
    simp only [Option.map_some, List.getLast?_map]
    cases segments.getLast? with
    | none => rfl
    | some s => simp [qualifiedName, segment]

/-! ## Types -/

theorem afterDecltype_code (ts : List Token) :
    afterDecltype? (w.code ts) = (afterDecltype? ts).map fun o => o.map w.code := by
  cases ts with
  | nil => rfl
  | cons t ts =>
    rw [code_cons, afterDecltype?, afterDecltype?, isPunct_token]
    split
    next h =>
      rw [behind_of_isPunct h, parenthesised_code, map_after_enclosed]
      rfl
    next => rfl

theorem decltype_code (t : Token) (ts : List Token) :
    (if (w.token t).isKeyword .decltypeKw then afterDecltype? (w.code ts) else none) =
      (if t.isKeyword .decltypeKw then afterDecltype? ts else none).map fun o => o.map w.code := by
  rw [isKeyword_token, afterDecltype_code]
  split <;> rfl

theorem behind_of_not_isElaborated {t : Token} (h : ¬(t.isCv || t.isElaborated) = true) (ts : List Token) :
    w.behind t ts = ts :=
  behind_of_ne (by rintro hk; simp [Token.isElaborated, hk, Keyword.isElaborated] at h) ts

theorem afterTypeWords_eq (seen : Bool) (t : Token) (ts : List Token)
    (h : ¬(t.isCv || t.isElaborated) = true) (hname : ¬t.isTypeName = true) :
    afterTypeWords? seen (t :: ts) =
      match if t.isKeyword .decltypeKw then afterDecltype? ts else none with
      | some none => none
      | some (some after) => afterTypeWords? true after
      | none =>
        if (t.isIdentifier || t.isPunct .scope) && !seen then
          (qualifiedName? (t :: ts)).bind fun name => afterTypeWords? true name.rest
        else some (seen, t :: ts) := by
  rw [afterTypeWords?.eq_def]
  dsimp only
  rw [if_neg h, if_neg hname]
  split
  next hd => rw [hd]
  next hd => rw [hd]
  next hd =>
    rw [hd]
    dsimp only
    split
    · split
      next hn => rw [hn]; rfl
      next hn => rw [hn]; rfl
    · rfl

theorem afterTypeWords_behind (seen : Bool) (t : Token) (ts : List Token) :
    afterTypeWords? seen (w.behind t ts) = afterTypeWords? seen ts := by
  unfold behind
  split
  · rw [afterTypeWords?.eq_def]
    simp [Token.isElaborated, w.kind_inserted, Keyword.isElaborated]
  · rfl

theorem afterTypeWords_code (seen : Bool) (ts : List Token) :
    afterTypeWords? seen (w.code ts) = (afterTypeWords? seen ts).map fun r => (r.1, w.code r.2) := by
  fun_induction afterTypeWords? seen ts with
  | case1 => rw [code_nil, afterTypeWords?]; rfl
  | case2 seen t rest h ih =>
    rw [code_cons, afterTypeWords?.eq_def]
    simp only [isCv_token, isElaborated_token, h, if_true]
    rw [afterTypeWords_behind, ih]
  | case3 seen t rest h hname ih =>
    rw [code_cons, afterTypeWords?.eq_def]
    simp only [isCv_token, isElaborated_token, isTypeName_token, h, hname, if_true, if_false, Bool.false_eq_true]
    rw [afterTypeWords_behind, ih]
  | case4 seen t rest h hname hd =>
    rw [dite_eq_ite] at hd
    rw [code_cons, behind_of_not_isElaborated h, afterTypeWords_eq _ _ _ (by simpa using h)
      (by simpa using hname), decltype_code, hd]
    rfl
  | case5 seen t rest h hname after hd ih =>
    rw [dite_eq_ite] at hd
    rw [code_cons, behind_of_not_isElaborated h, afterTypeWords_eq _ _ _ (by simpa using h)
      (by simpa using hname), decltype_code, hd]
    exact ih
  | case6 seen t rest h hname hd hid hn =>
    rw [dite_eq_ite] at hd
    have hname' := qualifiedName_code (w := w) (t :: rest)
    rw [code_cons, behind_of_not_isElaborated h, hn] at hname'
    rw [code_cons, behind_of_not_isElaborated h, afterTypeWords_eq _ _ _ (by simpa using h)
      (by simpa using hname), decltype_code, hd]
    dsimp only [Option.map_none]
    rw [isIdentifier_token, isPunct_token, if_pos hid, hname']
    rfl
  | case7 seen t rest h hname hd hid n hn ih =>
    rw [dite_eq_ite] at hd
    have hname' := qualifiedName_code (w := w) (t :: rest)
    rw [code_cons, behind_of_not_isElaborated h, hn] at hname'
    rw [code_cons, behind_of_not_isElaborated h, afterTypeWords_eq _ _ _ (by simpa using h)
      (by simpa using hname), decltype_code, hd]
    dsimp only [Option.map_none]
    rw [isIdentifier_token, isPunct_token, if_pos hid, hname']
    exact ih
  | case8 seen t rest h hname hd hid =>
    rw [dite_eq_ite] at hd
    rw [code_cons, behind_of_not_isElaborated h, afterTypeWords_eq _ _ _ (by simpa using h)
      (by simpa using hname), decltype_code, hd]
    dsimp only [Option.map_none]
    rw [isIdentifier_token, isPunct_token, if_neg hid]
    simp [behind_of_not_isElaborated h]

theorem blind_isDeclaratorSign :
    Blind w fun t => t.isPointerOrReference || t.isPunct .ellipsis || t.isCv :=
  .of_keyword (by simp) (by
    rintro t (h | h) <;> simp [Token.isPointerOrReference, Token.isOneOf, Token.isPunct, Token.isCv,
      Token.isKeyword, h])

theorem afterType_code (ts : List Token) : afterType? (w.code ts) = (afterType? ts).map w.code := by
  unfold afterType?
  rw [afterTypeWords_code]
  cases afterTypeWords? false ts with
  | none => rfl
  | some r =>
    obtain ⟨seen, rest⟩ := r
    cases seen with
    | false => rfl
    | true =>
      simp only [Option.map_some]
      rw [dropWhile_code blind_isDeclaratorSign]

theorem tokensBefore_code {ts rest : List Token} (h : rest <:+ ts) :
    tokensBefore (w.code ts) (w.code rest) = w.code (tokensBefore ts rest) := by
  obtain ⟨front, rfl⟩ := h
  unfold tokensBefore
  rw [code_append, List.length_append, List.length_append, Nat.add_sub_cancel, Nat.add_sub_cancel,
    List.take_left, List.take_left]

theorem blind_isKeyword {k : Keyword} (henum : k ≠ .enumKw) (hclass : k ≠ .classKw) :
    Blind w (·.isKeyword k) :=
  .of_keyword (by simp) (by rintro t (h | h) <;> simp [Token.isKeyword, h, henum.symm, hclass.symm])

/-- Tokens read from the back, rewritten. -/
def back (w : Rewriting) (ts : List Token) : List Token := (w.code ts.reverse).reverse

theorem back_cons (t : Token) (ts : List Token) :
    w.back (t :: ts) = w.behind t [] ++ w.token t :: w.back ts := by
  unfold back behind
  rw [List.reverse_cons, code_append, code_cons]
  unfold behind
  split <;> simp

theorem takeWhile_back {p : Token → Bool} (hp : Blind w p) (ts : List Token) :
    (w.back ts).takeWhile p = w.back (ts.takeWhile p) := by
  induction ts with
  | nil => rfl
  | cons t ts ih =>
    rw [back_cons, List.takeWhile_cons]
    split
    next ht =>
      rw [back_cons, ← ih]
      unfold behind
      split
      next hs => simp [hp.token, hp.inserted t hs, ht]
      next => simp [hp.token, ht]
    next ht =>
      unfold behind
      split
      next hs => simp [hp.inserted t hs, ht, back]
      next => simp [hp.token, ht, back]

theorem dropWhile_back {p : Token → Bool} (hp : Blind w p) (ts : List Token) :
    (w.back ts).dropWhile p = w.back (ts.dropWhile p) := by
  induction ts with
  | nil => rfl
  | cons t ts ih =>
    rw [back_cons, List.dropWhile_cons]
    split
    next ht =>
      rw [← ih]
      unfold behind
      split
      next hs => simp [hp.token, hp.inserted t hs, ht]
      next => simp [hp.token, ht]
    next ht =>
      rw [back_cons]
      unfold behind
      split
      next hs => simp [hp.inserted t hs, ht]
      next => simp [hp.token, ht]

theorem any_back {p : Token → Bool} (hp : Blind w p) (ts : List Token) : (w.back ts).any p = ts.any p := by
  rw [back, List.any_reverse, any_code hp, List.any_reverse]

theorem isConstObject_code (type : List Token) : isConstObject (w.code type) = isConstObject type := by
  have hsign : Blind w fun t => !t.isPointerOrReference := (blind_isOneOf _).not
  have hconst : Blind w (·.isKeyword .constKw) := blind_isKeyword (by decide) (by decide)
  have hback : (w.code type).reverse = w.back type.reverse := by rw [back, List.reverse_reverse]
  unfold isConstObject
  rw [hback, takeWhile_back hsign, dropWhile_back hsign, any_code hconst]
  cases hrest : type.reverse.dropWhile (!·.isPointerOrReference) with
  | nil => rfl
  | cons last rest =>
    -- what stops there is a sign, and nothing is put in behind it
    have hlast : last.isPointerOrReference = true := by
      have := List.head?_dropWhile_not (fun t : Token => !t.isPointerOrReference) type.reverse
      rw [hrest] at this
      simpa using this
    rw [back_cons, behind_of_isOneOf hlast, List.nil_append]
    dsimp only
    rw [isPunct_token, any_back hconst]

end Rewriting

end HouseStyle
