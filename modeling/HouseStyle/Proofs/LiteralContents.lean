import HouseStyle.Proofs.Relabelling
import HouseStyle.Rule.Ownership

/-!
# Files that differ in what their strings say

Two texts may have the same tokens at the same places but for what stands between the quotes of string
literals. Then one file is the other one with its literals relabelled (`Requotes`), and the models say the
same but where the text of tokens is joined: in types, in initializers and in the symbols of operators
(`EntityRequoted`).

Texts that are joined from such tokens are the same behind the last quote in them (`SameBehindQuote`). So
whether a type is that of a raw pointer does not depend on any literal in it (`isBarePointer_eq`), and a text
without quotes is one of them exactly if it is the other.
-/

namespace HouseStyle

/-! ## Texts -/

/-- Two texts are the same, or each has a quote behind which they are. -/
def SameBehindQuote (s s' : Text) : Prop :=
  s = s' ∨ ∃ p p' q, s = p ++ .scalar '"' :: q ∧ s' = p' ++ .scalar '"' :: q

namespace SameBehindQuote

variable {s s' t t' : Text}

theorem refl (s : Text) : SameBehindQuote s s := .inl rfl

theorem append (hs : SameBehindQuote s s') (ht : SameBehindQuote t t') :
    SameBehindQuote (s ++ t) (s' ++ t') := by
  rcases ht with rfl | ⟨p, p', q, rfl, rfl⟩
  · rcases hs with rfl | ⟨p, p', q, rfl, rfl⟩
    · exact refl _
    · exact .inr ⟨p, p', q ++ t, by simp, by simp⟩
  · exact .inr ⟨s ++ p, s' ++ p', q, by simp, by simp⟩

/-- A text without quotes is one of them exactly if it is the other. -/
theorem beq_eq (h : SameBehindQuote s s') {t : Text} (ht : .scalar '"' ∉ t) : (s' == t) = (s == t) := by
  rcases h with rfl | ⟨p, p', q, rfl, rfl⟩
  · rfl
  · have hne : ∀ p : Text, (p ++ .scalar '"' :: q == t) = false := fun p =>
      beq_eq_false_iff_ne.mpr fun heq => ht (heq ▸ by simp)
    rw [hne, hne]

theorem isEmpty_eq (h : SameBehindQuote s s') : s'.isEmpty = s.isEmpty := by
  rcases h with rfl | ⟨p, p', q, rfl, rfl⟩
  · rfl
  · cases p <;> cases p' <;> rfl

end SameBehindQuote

namespace TypeText

theorem dropLead_append_quote {lead : Text} (hlead : .scalar '"' ∉ lead) (r p : Text) :
    Text.dropLead? lead (r ++ .scalar '"' :: p) =
      (Text.dropLead? lead r).map (· ++ .scalar '"' :: p) := by
  induction lead generalizing r with
  | nil => rfl
  | cons g lead ih =>
    rw [List.mem_cons, not_or] at hlead
    cases r with
    | nil => exact if_neg (Ne.symm hlead.1)
    | cons a r =>
      rw [List.cons_append, Text.dropLead?, Text.dropLead?]
      split
      · exact ih hlead.2 r
      · rfl

/-- A quote is no part of a word, so nothing behind it matters. -/
theorem beforeWord_append_quote {word : Text} (hword : .scalar '"' ∉ word) (r p : Text) :
    beforeWord? word (r ++ .scalar '"' :: p) = (beforeWord? word r).map (· ++ .scalar '"' :: p) := by
  unfold beforeWord?
  rw [dropLead_append_quote hword]
  cases Text.dropLead? word r with
  | none => rfl
  | some rest =>
    dsimp only [Option.map_some]
    have hhead : (rest ++ .scalar '"' :: p).head?.any isWordGlyph = rest.head?.any isWordGlyph := by
      cases rest with
      | nil => exact show isWordGlyph (.scalar '"') = false by decide
      | cons a rest => rfl
    rw [hhead]
    split <;> rfl

theorem withoutTrailingCv_append_quote (r p : Text) :
    withoutTrailingCv (r ++ .scalar '"' :: p) = withoutTrailingCv r ++ .scalar '"' :: p := by
  have hcv : ∀ r : Text, ((beforeWord? (Text.ofString "const").reverse (r ++ .scalar '"' :: p)).orElse
        fun _ => beforeWord? (Text.ofString "volatile").reverse (r ++ .scalar '"' :: p)) =
      ((beforeWord? (Text.ofString "const").reverse r).orElse
        fun _ => beforeWord? (Text.ofString "volatile").reverse r).map (· ++ .scalar '"' :: p) := by
    intro r
    rw [beforeWord_append_quote (by decide), beforeWord_append_quote (by decide)]
    cases beforeWord? (Text.ofString "const").reverse r <;> rfl
  have hblank : ∀ rest : Text, (rest ++ .scalar '"' :: p).dropWhile (Glyph.satisfies Blank.isBlank) =
      rest.dropWhile (Glyph.satisfies Blank.isBlank) ++ .scalar '"' :: p := by
    intro rest
    induction rest with
    | nil => exact List.dropWhile_cons_of_neg (by decide)
    | cons a rest ih =>
      rw [List.cons_append, List.dropWhile_cons, List.dropWhile_cons]
      split
      · exact ih
      · rfl
  fun_induction withoutTrailingCv r with
  | case1 r rest h ih =>
    rw [withoutTrailingCv, hcv, h]
    dsimp only [Option.map_some]
    rw [hblank, ih]
  | case2 r h =>
    rw [withoutTrailingCv, hcv, h]
    rfl

/-- Whether a type is that of a raw pointer is told behind the last quote in it. -/
theorem isBarePointer_append_quote (p q : Text) : isBarePointer (p ++ .scalar '"' :: q) = isBarePointer q := by
  unfold isBarePointer
  have hreverse : (p ++ .scalar '"' :: q).reverse = q.reverse ++ .scalar '"' :: p.reverse := by simp
  rw [hreverse, withoutTrailingCv_append_quote]
  cases withoutTrailingCv q.reverse <;> rfl

theorem isBarePointer_eq {s s' : Text} (h : SameBehindQuote s s') : isBarePointer s' = isBarePointer s := by
  rcases h with rfl | ⟨p, p', q, rfl, rfl⟩
  · rfl
  · rw [isBarePointer_append_quote, isBarePointer_append_quote]

end TypeText

/-! ## Tokens -/

/-- Two tokens are the same, or they are string literals at one place that may differ between their quotes. -/
structure SameButQuoted (t u : Token) : Prop where
  place : u = { t with text := u.text }
  text : u.text = t.text ∨ t.kind = .literal ∧ ∃ inner inner' : Text,
    t.text = .scalar '"' :: (inner ++ [.scalar '"']) ∧ u.text = .scalar '"' :: (inner' ++ [.scalar '"'])

namespace SameButQuoted

variable {t u : Token}

theorem refl (t : Token) : SameButQuoted t t := ⟨rfl, .inl rfl⟩

theorem kind_eq (h : SameButQuoted t u) : u.kind = t.kind := by rw [h.place]

theorem start_eq (h : SameButQuoted t u) : u.start = t.start := by rw [h.place]

theorem stop_eq (h : SameButQuoted t u) : u.stop = t.stop := by rw [h.place]

theorem isPunct_eq (h : SameButQuoted t u) (p : Punct) : u.isPunct p = t.isPunct p := by
  simp only [Token.isPunct, h.kind_eq]

theorem isOneOf_eq (h : SameButQuoted t u) (ps : List Punct) : u.isOneOf ps = t.isOneOf ps := by
  simp only [Token.isOneOf, h.kind_eq]

theorem isKeyword_eq (h : SameButQuoted t u) (k : Keyword) : u.isKeyword k = t.isKeyword k := by
  simp only [Token.isKeyword, h.kind_eq]

theorem isIdentifier_eq (h : SameButQuoted t u) : u.isIdentifier = t.isIdentifier := by
  simp only [Token.isIdentifier, h.kind_eq]

theorem tokenLocation_eq (h : SameButQuoted t u) {f g : SourceFile} (hpath : g.path = f.path) :
    g.tokenLocation u = f.tokenLocation t := by
  rw [h.place]
  unfold SourceFile.tokenLocation
  rw [hpath]

/-- Only literals differ. -/
theorem eq_of_kind (h : SameButQuoted t u) (hkind : t.kind ≠ .literal) : u = t := by
  rw [h.place, h.text.resolve_right fun hliteral => hkind hliteral.1]

theorem eq_of_isIdentifier (h : SameButQuoted t u) (hid : t.isIdentifier = true) : u = t :=
  h.eq_of_kind (by rw [beq_iff_eq.mp hid]; simp)

theorem isWord_eq (h : SameButQuoted t u) (word : String) : u.isWord word = t.isWord word := by
  by_cases hkind : t.kind = .literal
  · unfold Token.isWord
    rw [h.kind_eq, hkind]
    rfl
  · rw [h.eq_of_kind hkind]

theorem sameBehindQuote (h : SameButQuoted t u) : SameBehindQuote t.text u.text := by
  rcases h.text with heq | ⟨-, inner, inner', ht, hu⟩
  · exact .inl heq.symm
  · exact .inr ⟨.scalar '"' :: inner, .scalar '"' :: inner', [], ht, hu⟩

theorem quoted_eq (h : SameButQuoted t u) :
    (u.text.head? == some (.scalar '"')) = (t.text.head? == some (.scalar '"')) := by
  rcases h.text with heq | ⟨-, inner, inner', ht, hu⟩
  · rw [heq]
  · rw [ht, hu]
    rfl

end SameButQuoted

/-- Lists of different things side by side with others are mapped to them. -/
theorem exists_map_of_forall₂ {α : Type} [DecidableEq α] {R : α → α → Prop} (hrefl : ∀ a, R a a) {xs ys : List α}
    (h : List.Forall₂ R xs ys) (hnodup : xs.Nodup) : ∃ F : α → α, ys = xs.map F ∧ ∀ a, R a (F a) := by
  induction h with
  | nil => exact ⟨id, rfl, hrefl⟩
  | @cons x y xs ys hfirst _ ih =>
    obtain ⟨hnot, hnodup⟩ := List.nodup_cons.mp hnodup
    obtain ⟨F, rfl, hF⟩ := ih hnodup
    refine ⟨fun a => if a = x then y else F a, ?_, fun a => ?_⟩
    · rw [List.map_cons, if_pos rfl]
      exact congrArg _ (List.map_congr_left fun a ha => (if_neg (ne_of_mem_of_not_mem ha hnot)).symm)
    · by_cases ha : a = x
      · simpa [ha] using hfirst
      · simpa [ha] using hF a

/-- One text has the tokens of another one with other string literals. -/
structure Requotes (F : Token → Token) (a b : Text) : Prop where
  same : ∀ t, SameButQuoted t (F t)
  tokens : tokens b = (tokens a).map F

theorem exists_requotes {a b : Text} (h : List.Forall₂ SameButQuoted (tokens a) (tokens b)) :
    ∃ F, Requotes F a b := by
  obtain ⟨F, htokens, hsame⟩ := exists_map_of_forall₂ SameButQuoted.refl h (nodup_tokens a)
  exact ⟨F, hsame, htokens⟩

/-! ## Models -/

/-- An entity that is named by the word `operator` is special. -/
theorem isSpecial_of_isKeyword {ts : List Token} {e : Entity} (he : e ∈ (extract ts).entities)
    (hk : e.token.isKeyword .operatorKw = true) : e.isSpecial = true := by
  obtain ⟨declared, hdeclared, hdeclares⟩ := Extraction.declares_of_takes
    (Extraction.takes_run (.initial (Extraction.codeEnd ts)) List.suffix_rfl)
  rw [mem_entities_extract, (Extraction.ofTokens_eq _).1] at he
  rcases List.mem_append.mp he with he | he
  · rw [Extraction.readCode, hdeclared] at he
    rcases (hdeclares.ofCode e he).named with ⟨hid, -⟩ | ⟨-, hspecial, -⟩
    · rw [Token.isIdentifier, beq_iff_eq.mp hk] at hid
      exact absurd hid (by decide)
    · exact hspecial
  · -- a macro is named by an identifier
    obtain ⟨directive, -, he⟩ := List.mem_filterMap.mp he
    obtain ⟨_, -, rfl⟩ := Option.map_eq_some_iff.mp he
    exact absurd hk (by simp [Token.isKeyword, Piece.tokenAt])

/-- A parameter of a function of a file whose strings say something else. -/
structure ParameterRequoted (F : Token → Token) (p p' : Parameter) : Prop where
  name : p'.name = p.name.map F
  typeText : SameBehindQuote p.typeText p'.typeText

/-- An entity of a file whose strings say something else. Its token is the same, and so is whatever is not
named here; only an operator may be called something else, and that is no name. -/
structure EntityRequoted (F : Token → Token) (e e' : Entity) : Prop where
  same : e' = { e with
    name := e'.name, typeText := e'.typeText, initializer := e'.initializer, parameters := e'.parameters
    keyword := e'.keyword }
  name : e.isSpecial = false → e'.name = e.name
  shown : SameBehindQuote e.name e'.name
  typeText : SameBehindQuote e.typeText e'.typeText
  parameters : List.Forall₂ (ParameterRequoted F) e.parameters e'.parameters
  keyword : e'.keyword = e.keyword.map F

namespace Requotes

variable {F : Token → Token} {a b : Text} (h : Requotes F a b)

include h

theorem relabels : Relabels id F (HouseStyle.tokens a) where
  injective := Function.injective_id
  respelling := ⟨fun _ => rfl, fun _ hs => hs, fun _ _ _ => Iff.rfl⟩
  kind t _ := (h.same t).kind_eq
  text_name t _ hkind := by
    rw [(h.same t).eq_of_kind (by simp [hkind])]
    rfl
  quoted t _ _ := (h.same t).quoted_eq
  directive t _ hkind := by rw [(h.same t).eq_of_kind (by simp [hkind])]
  old := placed_tokens a
  new := by
    rw [← h.tokens]
    exact placed_tokens b

theorem relabelled : ModelRelabelled id F (HouseStyle.tokens a) (extract (HouseStyle.tokens a))
    (extract (HouseStyle.tokens b)) := by
  rw [h.tokens]
  exact h.relabels.relabelled

theorem joinedText_map (us : List Token) : SameBehindQuote (joinedText us) (joinedText (us.map F)) := by
  have hspaced : ∀ t u, spaced (F t) (F u) = spaced t u := fun t u => by
    simp only [spaced, (h.same t).isOneOf_eq, (h.same u).isOneOf_eq]
  induction us with
  | nil => exact .refl _
  | cons t us ih =>
    cases us with
    | nil => exact (h.same t).sameBehindQuote
    | cons u us =>
      rw [List.map_cons, List.map_cons, joinedText, joinedText, hspaced, ← List.map_cons]
      split
      · exact (h.same t).sameBehindQuote.append ((SameBehindQuote.refl [.scalar ' ']).append ih)
      · exact (h.same t).sameBehindQuote.append ih

theorem flatMap_text_map (us : List Token) :
    SameBehindQuote (us.flatMap (·.text)) ((us.map F).flatMap (·.text)) := by
  induction us with
  | nil => exact .refl _
  | cons t us ih => exact (h.same t).sameBehindQuote.append ih

theorem sameBehindQuote_typeText {s s' : Text} (hs : TypeRelabelled F (HouseStyle.tokens a) s s') :
    SameBehindQuote s s' := by
  obtain ⟨front, us, isArray, -, -, rfl, rfl⟩ := hs
  refine SameBehindQuote.append (.append ?_ (h.joinedText_map us)) (.refl _)
  cases front with
  | none => exact .refl _
  | some t => exact (h.same t).sameBehindQuote

/-- An entity is called the same, or it is an operator. -/
theorem sameBehindQuote_name {t t' : Token} {s s' : Text}
    (hs : NameRelabelled id F (HouseStyle.tokens a) t s t' s') :
    t' = t ∧ (s' = s ∨ t.isKeyword .operatorKw = true) ∧ SameBehindQuote s s' := by
  cases hs with
  | code ht hs =>
    cases hs with
    | name hid s =>
      exact ⟨(h.same t).eq_of_isIdentifier hid, .inl rfl, .refl _⟩
    | operator hk hus =>
      exact ⟨(h.same t).eq_of_kind (by rw [beq_iff_eq.mp hk]; simp), .inr hk,
        (SameBehindQuote.refl _).append (h.flatMap_text_map _)⟩
  | @directive d lead s hd hkind hdefined =>
    rw [(h.same d).eq_of_kind (by rw [hkind]; simp)]
    exact ⟨rfl, .inl rfl, .refl _⟩

theorem entityRequoted {e e' : Entity} (he : e ∈ (extract (HouseStyle.tokens a)).entities)
    (hrel : EntityRelabelled id F (HouseStyle.tokens a) e e') : EntityRequoted F e e' := by
  obtain ⟨htoken, hname, hshown⟩ := h.sameBehindQuote_name hrel.named
  have hqualifier : e'.qualifier = e.qualifier := hrel.qualifier.trans (List.map_id _)
  refine ⟨?_, fun hspecial => hname.resolve_right fun hk => ?_, hshown,
    h.sameBehindQuote_typeText hrel.typeText, hrel.parameters.imp fun _ _ hp => ⟨hp.name, ?_⟩, hrel.keyword⟩
  · have hsame := hrel.same
    rw [htoken, hqualifier] at hsame
    exact hsame
  · rw [isSpecial_of_isKeyword he hk] at hspecial
    exact absurd hspecial (by decide)
  · obtain ⟨us, -, hold, hnew⟩ := hp.typeText
    rw [hold, hnew]
    exact h.joinedText_map us

end Requotes

end HouseStyle
