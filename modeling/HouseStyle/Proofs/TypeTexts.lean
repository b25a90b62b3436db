import HouseStyle.Proofs.CoreGrammar
import HouseStyle.Proofs.TokenEnds

/-!
# The text of a type tells its tokens

Two types are compared by their normalised texts, and a cast is suggested in such a text. This is right only if
the text of a type leaves no doubt about its tokens: where no blank stands between two of them, they must not be
read as one, and no token may be read as two.

`TypeTree` are the syntax trees of types: words for a fundamental type, or a name with template arguments that are
types again, with `const` and `volatile` in front, and pointers and a reference behind.

- `leads_symbol`: a symbol of a type is recognised unless the glyph behind it makes it a longer one
  (`TypeSymbol.Allows`).
- `TypeTree.apart_symbols`: in a type, no two symbols follow each other that would make a longer one together
  (`TypeSymbol.merges`). Only `<` and `&` could, and behind them never stands such a sign again.
- `TypeTree.text_faithful`: so the normalised text of a type is read as the tokens of the type, and two types
  have one text just if they have the same tokens.
-/

namespace HouseStyle

/-! ## Symbols -/

/-- The signs of types. -/
inductive TypeSign where
  | scope | less | greater | comma | star | amp | ampAmp
  deriving DecidableEq

/-- The punctuator that a sign is. -/
def TypeSign.punct : TypeSign → Punct
  | .scope => .scope
  | .less => .less
  | .greater => .greater
  | .comma => .comma
  | .star => .star
  | .amp => .amp
  | .ampAmp => .ampAmp

/-- The glyphs with which a sign begins a longer one. -/
def TypeSign.goesOnWith : TypeSign → List Glyph
  | .less => [.scalar '<', .scalar '=']
  | .amp => [.scalar '&', .scalar '=']
  | .star => [.scalar '=']
  | .scope | .greater | .comma | .ampAmp => []

/-- A symbol of a type. -/
inductive TypeSymbol where
  | keyword (k : Keyword)
  | name (n : Core.Name)
  | sign (s : TypeSign)

namespace TypeSymbol

/-- The kind of the token that a symbol is. -/
def kind : TypeSymbol → TokenKind
  | .keyword k => .keyword k
  | .name _ => .identifier
  | .sign s => .punct s.punct

/-- A symbol as it is written. -/
def text : TypeSymbol → Text
  | .keyword k => k.text
  | .name n => n.1
  | .sign s => s.punct.text

/-- What a symbol is as a token, and how it is written. -/
def reading (s : TypeSymbol) : TokenKind × Text := (s.kind, s.text)

/-- Whether two signs with nothing between them begin with a longer one. -/
def merges : TypeSymbol → TypeSymbol → Bool
  | .sign .less, .sign .less => true
  | .sign .amp, .sign .amp => true
  | .sign .amp, .sign .ampAmp => true
  | _, _ => false

/-- Whether a glyph may stand right behind a symbol. -/
def Allows : TypeSymbol → Glyph → Prop
  | .sign s, g => g ∉ s.goesOnWith
  | .keyword _, g | .name _, g => Lexeme.continuesWord g = false ∧ Lexeme.isQuote g = false

theorem longest_sign {s : TypeSign} {rest : Text} (h : ∀ g ∈ rest.head?, (sign s).Allows g) :
    Punct.leading? (s.punct.text ++ rest) = some s.punct := by
  have hlonger : ∀ q ∈ Punct.all, s.punct.text.isPrefixOf q.text = true →
      s.punct.text.length < q.text.length → ∃ g ∈ s.goesOnWith, q.text[s.punct.text.length]? = some g := by
    cases s <;> decide +kernel
  refine Punct.leading_eq_some_iff.mpr ⟨List.prefix_append _ _, fun q hq => Nat.le_of_not_lt fun hlt => ?_⟩
  -- a longer punctuator there would go on with what stands first in `rest`
  have hfront : s.punct.text <+: q.text := List.prefix_of_prefix_length_le (List.prefix_append _ _) hq hlt.le
  obtain ⟨g, hgoes, hg⟩ := hlonger q q.mem_all (List.isPrefixOf_iff_prefix.mpr hfront) hlt
  refine h g ?_ hgoes
  obtain ⟨behind, hbehind⟩ := hq
  have hnext : (s.punct.text ++ rest)[s.punct.text.length]? = some g := by
    rw [← hbehind, List.getElem?_append_left hlt, hg]
  rwa [List.getElem?_append_right le_rfl, Nat.sub_self, ← List.head?_eq_getElem?] at hnext

/-- A symbol is recognised where it stands, if what stands behind it may stand there. -/
theorem leads_symbol (lineStart : Bool) {s : TypeSymbol} {rest : Text} (h : ∀ g ∈ rest.head?, s.Allows g) :
    Piece.Leads lineStart (.lexeme s.kind s.text) rest := by
  -- behind a word
  have hword : (∀ g ∈ rest.head?, Lexeme.continuesWord g = false ∧ Lexeme.isQuote g = false) →
      Lexeme.EndsWord rest ∧ ∀ word, Lexeme.joinsQuote word rest = false := by
    intro h
    refine ⟨?_, Lexeme.joinsQuote_eq_false fun g hg => (h g hg).2⟩
    cases rest with
    | nil => rfl
    | cons g more => exact Lexeme.endsWord_cons.mpr (h g rfl).1
  cases s with
  | keyword k =>
    obtain ⟨hend, hquote⟩ := hword h
    exact Core.leads_keyword_of_endsWord lineStart k hend (hquote _)
  | name n =>
    obtain ⟨hend, hquote⟩ := hword h
    exact Piece.leads_identifier_iff.mpr ⟨n.2, hend, hquote _⟩
  | sign s => exact Piece.leads_punct (by cases s <;> decide) (longest_sign h)

/-- Behind a symbol a blank may stand. -/
theorem allows_blank (s : TypeSymbol) : s.Allows (.scalar ' ') := by
  cases s with
  | keyword k | name n => exact ⟨by decide, by decide⟩
  | sign s => cases s <;> simp [Allows, TypeSign.goesOnWith]

/-- Behind a symbol another one may stand close, if the two do not make a longer one. -/
theorem allows_head {s u : TypeSymbol} (hmerges : s.merges u = false) {t v : Token} (ht : t.kind = s.kind)
    (hv : v.kind = u.kind) (hspaced : spaced t v = false) (rest : Text) :
    ∀ g ∈ (u.text ++ rest).head?, s.Allows g := by
  have hsign : ∀ p : TypeSign, ((sign p).text ++ rest).head? = p.punct.text.head? := fun p =>
    List.head?_append_of_ne_nil _ (List.length_pos_iff.mp (Lexeme.text_length_pos p.punct))
  have hword : ∀ (s : TypeSign) {g : Glyph} {more : Text}, u.text = g :: more → Lexeme.startsWord g = true →
      ∀ a ∈ (u.text ++ rest).head?, (sign s).Allows a := by
    intro s g more htext hg a ha hmem
    have hgoes : ∀ a ∈ s.goesOnWith, Lexeme.startsWord a = false := by
      cases s <;> decide
    rw [htext, List.cons_append, List.head?_cons, Option.mem_some] at ha
    exact absurd hg (by rw [ha, hgoes a hmem]; decide)
  unfold spaced Token.isOneOf at hspaced
  rw [ht, hv] at hspaced
  cases s with
  | keyword | name =>
    cases u with
    | keyword | name => exact absurd hspaced (by simp [kind])
    | sign p =>
      rw [hsign p]
      show ∀ g ∈ p.punct.text.head?, Lexeme.continuesWord g = false ∧ Lexeme.isQuote g = false
      cases p <;> decide
  | sign s =>
    cases u with
    | keyword k =>
      obtain ⟨⟨g, more, htext, hg, -⟩, -⟩ := Core.keyword_isWord k
      exact hword s htext hg
    | name n =>
      obtain ⟨⟨g, more, htext, hg, -⟩, -⟩ := n.2
      exact hword s htext hg
    | sign p =>
      rw [hsign p]
      show ∀ g ∈ p.punct.text.head?, g ∉ s.goesOnWith
      revert hmerges
      cases s <;> cases p <;> decide

end TypeSymbol

/-! ## Normalised texts -/

/-- The normalised text of tokens is told by what they are and how they are written. -/
theorem joinedText_congr {ts us : List Token} (h : ts.map Token.reading = us.map Token.reading) :
    joinedText ts = joinedText us := by
  induction ts generalizing us with
  | nil =>
    obtain rfl := List.map_eq_nil_iff.mp h.symm
    rfl
  | cons t ts ih =>
    obtain ⟨u, us, rfl, hread, hmore⟩ := List.map_eq_cons_iff.mp h.symm
    obtain ⟨hkind, htext⟩ := Prod.mk.inj hread
    cases ts with
    | nil =>
      obtain rfl := List.map_eq_nil_iff.mp hmore
      exact htext.symm
    | cons t' ts =>
      obtain ⟨u', us, rfl, hread', hmore'⟩ := List.map_eq_cons_iff.mp hmore
      have hspaced : spaced t t' = spaced u u' := by
        unfold spaced Token.isOneOf
        rw [← (Prod.mk.inj hread').1, ← hkind]
      rw [joinedText, joinedText, ih hmore.symm, hspaced, htext]

/-- No two neighbours merge. -/
def Apart (symbols : List TypeSymbol) : Prop := symbols.IsChain fun s u => s.merges u = false

/-- Symbols of which no two neighbours merge are read off the normalised text of their tokens. -/
theorem lexemes_joinedText {symbols : List TypeSymbol} (hchain : Apart symbols)
    {ts : List Token} (hts : ts.map Token.reading = symbols.map TypeSymbol.reading) (lineStart : Bool) :
    Piece.lexemes (Piece.ofText lineStart (joinedText ts)) = symbols.map TypeSymbol.reading := by
  induction symbols generalizing ts lineStart with
  | nil =>
    obtain rfl := List.map_eq_nil_iff.mp hts
    simp [joinedText, Piece.ofText, Piece.lexemes]
  | cons s symbols ih =>
    obtain ⟨t, ts, rfl, hread, hmore⟩ := List.map_eq_cons_iff.mp hts
    obtain ⟨hkind, htext⟩ := Prod.mk.inj hread
    -- the first symbol is read, whatever is written behind it as long as that may stand there
    have hfirst : ∀ rest, (∀ g ∈ rest.head?, s.Allows g) → ∃ lineStart',
        Piece.lexemes (Piece.ofText lineStart (t.text ++ rest)) =
          s.reading :: Piece.lexemes (Piece.ofText lineStart' rest) := by
      intro rest hrest
      have hcut := Piece.ofText_of_leads (TypeSymbol.leads_symbol lineStart hrest)
      refine ⟨Piece.lineStartPast lineStart (.lexeme s.kind s.text), ?_⟩
      rw [htext]
      exact congrArg Piece.lexemes hcut
    cases symbols with
    | nil =>
      obtain rfl := List.map_eq_nil_iff.mp hmore
      obtain ⟨lineStart', hread⟩ := hfirst [] (by simp)
      rw [List.append_nil] at hread
      rw [joinedText, hread]
      simp [Piece.ofText, Piece.lexemes]
    | cons u symbols =>
      obtain ⟨v, us, rfl, hread', hmore'⟩ := List.map_eq_cons_iff.mp hmore
      obtain ⟨hkind', htext'⟩ := Prod.mk.inj hread'
      obtain ⟨hmerges, htail⟩ := List.isChain_cons_cons.mp hchain
      obtain ⟨rest, hrest⟩ := joinedText_cons v us
      rw [joinedText, List.map_cons]
      by_cases hspaced : spaced t v = true
      · rw [if_pos hspaced]
        obtain ⟨lineStart', hread⟩ := hfirst (.scalar ' ' :: joinedText (v :: us)) fun g hg =>
          Option.mem_some.mp hg ▸ s.allows_blank
        rw [hread, Piece.ofText_spacing (by decide) (by decide)]
        exact congrArg (s.reading :: ·) (ih htail hmore lineStart')
      · rw [if_neg hspaced]
        have hallowed := TypeSymbol.allows_head hmerges hkind hkind' (by simpa using hspaced) rest
        rw [← htext', ← hrest] at hallowed
        obtain ⟨lineStart', hread⟩ := hfirst (joinedText (v :: us)) hallowed
        rw [hread, ih htail hmore lineStart']

/-! ## Types -/

/-- `const` or `volatile`. -/
inductive Qualifier where
  | const | volatile

/-- The keyword that it is. -/
def Qualifier.keyword : Qualifier → Keyword
  | .const => .constKw
  | .volatile => .volatileKw

/-- Qualifiers as they are written. -/
def Qualifier.symbols (qualifiers : List Qualifier) : List TypeSymbol := qualifiers.map (.keyword ·.keyword)

/-- A reference. -/
inductive Reference where
  | lvalue | rvalue

/-- The sign of a reference. -/
def Reference.sign : Reference → TypeSign
  | .lvalue => .amp
  | .rvalue => .ampAmp

/-- What stands behind the words or the name of a type. -/
structure Indirection where
  /-- The qualifiers behind each `*`. -/
  pointers : List (List Qualifier)
  reference : Option Reference

/-- Pointers and a reference as they are written. -/
def Indirection.symbols (i : Indirection) : List TypeSymbol :=
  i.pointers.flatMap (fun qualifiers => .sign .star :: Qualifier.symbols qualifiers) ++
    i.reference.toList.map (.sign ·.sign)

/-- What a part of a type is. -/
inductive Phrase where
  | type
  /-- Segments with `::` between them. -/
  | name
  | segment
  /-- What stands between `<` and `>`. -/
  | arguments
  /-- The arguments behind the first one, each with a comma in front. -/
  | moreArguments

/-- The syntax trees of types and their parts. -/
inductive TypeTree : Phrase → Type where
  | fundamental (front : List Qualifier) (first : Core.TypeWord) (words : List Core.TypeWord)
    (back : Indirection) : TypeTree .type
  /-- A global name has a `::` in front. -/
  | named (front : List Qualifier) (isGlobal : Bool) (name : TypeTree .name) (back : Indirection) :
    TypeTree .type
  | last (segment : TypeTree .segment) : TypeTree .name
  | qualified (segment : TypeTree .segment) (rest : TypeTree .name) : TypeTree .name
  | plain (n : Core.Name) : TypeTree .segment
  | template (n : Core.Name) (inside : TypeTree .arguments) : TypeTree .segment
  | noArguments : TypeTree .arguments
  | someArguments (first : TypeTree .type) (others : TypeTree .moreArguments) : TypeTree .arguments
  | noMore : TypeTree .moreArguments
  | another (next : TypeTree .type) (others : TypeTree .moreArguments) : TypeTree .moreArguments

namespace TypeTree

/-- A type or a part of one as it is written. -/
def symbols {phrase : Phrase} : TypeTree phrase → List TypeSymbol
  | .fundamental front first words back =>
    Qualifier.symbols front ++ .keyword first.1 :: (words.map (.keyword ·.1) ++ back.symbols)
  | .named front isGlobal name back =>
    Qualifier.symbols front ++ ((if isGlobal then [.sign .scope] else []) ++ (name.symbols ++ back.symbols))
  | .last segment => segment.symbols
  | .qualified segment rest => segment.symbols ++ .sign .scope :: rest.symbols
  | .plain n => [.name n]
  | .template n inside => .name n :: .sign .less :: (inside.symbols ++ [.sign .greater])
  | .noArguments => []
  | .someArguments first others => first.symbols ++ others.symbols
  | .noMore => []
  | .another next others => .sign .comma :: (next.symbols ++ others.symbols)

end TypeTree

/-! ## Neighbours -/

namespace TypeSymbol

/-- Whether a symbol makes no longer one with any symbol in front of it. -/
def opens : TypeSymbol → Bool
  | .sign .less | .sign .amp | .sign .ampAmp => false
  | _ => true

/-- Whether a symbol makes no longer one with any symbol behind it. -/
def closes : TypeSymbol → Bool
  | .sign .less | .sign .amp => false
  | _ => true

theorem merges_of_opens (s : TypeSymbol) {u : TypeSymbol} (h : u.opens = true) : s.merges u = false := by
  cases s with
  | keyword | name => rfl
  | sign s =>
    cases u with
    | keyword | name => cases s <;> rfl
    | sign u =>
      revert h
      cases s <;> cases u <;> decide

theorem merges_of_closes {s : TypeSymbol} (h : s.closes = true) (u : TypeSymbol) : s.merges u = false := by
  cases s with
  | keyword | name => rfl
  | sign s =>
    cases s with
    | less | amp => exact absurd h (by decide)
    | scope | greater | comma | star | ampAmp => rfl

end TypeSymbol

/-- What is written first makes no longer sign with anything in front. -/
def Opens (symbols : List TypeSymbol) : Prop := ∀ u ∈ symbols.head?, u.opens = true

theorem Apart.cons_of_closes {s : TypeSymbol} (hs : s.closes = true) {rest : List TypeSymbol} (h : Apart rest) :
    Apart (s :: rest) :=
  List.isChain_cons.mpr ⟨fun u _ => TypeSymbol.merges_of_closes hs u, h⟩

theorem Apart.cons_of_opens (s : TypeSymbol) {rest : List TypeSymbol} (h : Apart rest) (hrest : Opens rest) :
    Apart (s :: rest) :=
  List.isChain_cons.mpr ⟨fun u hu => s.merges_of_opens (hrest u hu), h⟩

theorem Apart.append_of_closes {front : List TypeSymbol} (hfront : ∀ s ∈ front, s.closes = true)
    {rest : List TypeSymbol} (h : Apart rest) : Apart (front ++ rest) := by
  induction front with
  | nil => exact h
  | cons s front ih =>
    obtain ⟨hs, hmore⟩ := List.forall_mem_cons.mp hfront
    exact (ih hmore).cons_of_closes hs

theorem Qualifier.closes_of_mem {qualifiers : List Qualifier} {s : TypeSymbol}
    (h : s ∈ Qualifier.symbols qualifiers) : s.closes = true ∧ s.opens = true := by
  obtain ⟨q, -, rfl⟩ := List.mem_map.mp h
  exact ⟨rfl, rfl⟩

/-- Pointers and a reference stand apart from what is written behind a type. -/
theorem Indirection.apart_append (i : Indirection) {rest : List TypeSymbol} (h : Apart rest)
    (hrest : Opens rest) : Apart (i.symbols ++ rest) := by
  have hpointers : ∀ s ∈ i.pointers.flatMap (fun qualifiers => .sign .star :: Qualifier.symbols qualifiers),
      s.closes = true := by
    intro s hs
    obtain ⟨qualifiers, -, hs⟩ := List.mem_flatMap.mp hs
    rcases List.mem_cons.mp hs with rfl | hs
    · rfl
    · exact (Qualifier.closes_of_mem hs).1
  rw [Indirection.symbols, List.append_assoc]
  refine Apart.append_of_closes hpointers ?_
  cases i.reference with
  | none => exact h
  | some r => exact h.cons_of_opens _ hrest

theorem opens_cons {s : TypeSymbol} (hs : s.opens = true) (rest : List TypeSymbol) : Opens (s :: rest) :=
  fun _ hu => Option.mem_some.mp hu ▸ hs

theorem Opens.append {front rest : List TypeSymbol} (hfront : ∀ s ∈ front, s.opens = true) (h : Opens rest) :
    Opens (front ++ rest) := by
  cases front with
  | nil => exact h
  | cons s front => exact opens_cons (hfront s List.mem_cons_self) _

namespace TypeTree

/-- Behind a name anything may stand, since a name ends in a word or in `>`. -/
def EndsAlone : Phrase → Prop
  | .name | .segment => True
  | _ => False

/-- The symbols of a type stand apart from each other and from what is written around the type. -/
theorem apart_append {phrase : Phrase} (x : TypeTree phrase) {rest : List TypeSymbol} (h : Apart rest)
    (hrest : EndsAlone phrase ∨ Opens rest) : Apart (x.symbols ++ rest) ∧ Opens (x.symbols ++ rest) := by
  -- qualifiers in front change nothing, since no word makes a longer sign with anything
  have hfront : ∀ (front : List Qualifier) {symbols : List TypeSymbol}, Apart symbols ∧ Opens symbols →
      Apart (Qualifier.symbols front ++ symbols) ∧ Opens (Qualifier.symbols front ++ symbols) :=
    fun front _ h => ⟨.append_of_closes (fun s hs => (Qualifier.closes_of_mem hs).1) h.1,
      .append (fun s hs => (Qualifier.closes_of_mem hs).2) h.2⟩
  -- induction on the tree, for all that may be written behind it
  induction x generalizing rest with
  | fundamental front first words back =>
    have hback : Apart (back.symbols ++ rest) := back.apart_append h (hrest.resolve_left id)
    have hwords : ∀ s ∈ words.map fun w => TypeSymbol.keyword w.1, s.closes = true := by
      intro s hs
      obtain ⟨w, -, rfl⟩ := List.mem_map.mp hs
      rfl
    rw [symbols, List.append_assoc, List.cons_append, List.append_assoc]
    exact hfront front ⟨(hback.append_of_closes hwords).cons_of_closes rfl, opens_cons rfl _⟩
  | named front isGlobal name back ih =>
    have hback : Apart (back.symbols ++ rest) := back.apart_append h (hrest.resolve_left id)
    obtain ⟨hname, hopens⟩ := ih hback (Or.inl trivial)
    rw [symbols, List.append_assoc, List.append_assoc, List.append_assoc]
    refine hfront front ?_
    cases isGlobal with
    | false => exact ⟨hname, hopens⟩
    | true => exact ⟨hname.cons_of_closes rfl, opens_cons rfl _⟩
  | last segment ih => exact ih h (Or.inl trivial)
  | qualified segment name ihs ihn =>
    obtain ⟨hname, -⟩ := ihn h (Or.inl trivial)
    rw [symbols, List.append_assoc, List.cons_append]
    exact ihs (hname.cons_of_closes rfl) (Or.inl trivial)
  | plain n => exact ⟨h.cons_of_closes rfl, opens_cons rfl _⟩
  | template n inside ih =>
    -- behind the arguments comes `>`, so that whatever is written behind the name does not matter
    obtain ⟨hinside, hopens⟩ := ih (h.cons_of_closes (s := .sign .greater) rfl) (Or.inr (opens_cons rfl _))
    rw [symbols, List.cons_append, List.cons_append, List.append_assoc]
    exact ⟨(hinside.cons_of_opens _ hopens).cons_of_closes rfl, opens_cons rfl _⟩
  | noArguments => exact ⟨h, hrest.resolve_left id⟩
  | someArguments first others ihf iho =>
    obtain ⟨hothers, hopens⟩ := iho h (Or.inr (hrest.resolve_left id))
    rw [symbols, List.append_assoc]
    exact ihf hothers (Or.inr hopens)
  | noMore => exact ⟨h, hrest.resolve_left id⟩
  | another next others ihn iho =>
    obtain ⟨hothers, hopens⟩ := iho h (Or.inr (hrest.resolve_left id))
    obtain ⟨hnext, -⟩ := ihn hothers (Or.inr hopens)
    rw [symbols, List.cons_append, List.append_assoc]
    exact ⟨hnext.cons_of_closes rfl, opens_cons rfl _⟩

/-- No two symbols that follow each other in a type make a longer one. -/
theorem apart_symbols (T : TypeTree .type) : Apart T.symbols := by
  have hnil : Apart [] ∧ Opens [] := ⟨List.isChain_nil, by simp [Opens]⟩
  obtain ⟨hapart, -⟩ := T.apart_append hnil.1 (Or.inr hnil.2)
  rwa [List.append_nil] at hapart

/-- The tokens of a type are read off its normalised text, and two types have one normalised text just if they
have the same tokens. -/
theorem text_faithful (T U : TypeTree .type) {ts us : List Token}
    (hts : ts.map Token.reading = T.symbols.map TypeSymbol.reading)
    (hus : us.map Token.reading = U.symbols.map TypeSymbol.reading) :
    (tokens (joinedText ts)).map Token.reading = ts.map Token.reading ∧
      (joinedText ts = joinedText us ↔ ts.map Token.reading = us.map Token.reading) := by
  have hread : ∀ (T : TypeTree .type) {ts : List Token}, ts.map Token.reading = T.symbols.map TypeSymbol.reading →
      (tokens (joinedText ts)).map Token.reading = ts.map Token.reading := by
    intro T ts hts
    calc (tokens (joinedText ts)).map Token.reading
        = Piece.lexemes (Piece.ofText true (joinedText ts)) := Piece.map_place _ _
      _ = T.symbols.map TypeSymbol.reading := lexemes_joinedText T.apart_symbols hts true
      _ = ts.map Token.reading := hts.symm
  refine ⟨hread T hts, fun h => ?_, joinedText_congr⟩
  rw [← hread T hts, ← hread U hus, h]

/-- A reference to a container of pointers, and the same with `volatile`. -/
theorem text_faithful_vector :
    ∃ T U : TypeTree .type,
      (tokens (Text.ofString "const std :: vector< int * >&")).map Token.reading =
        T.symbols.map TypeSymbol.reading ∧
      (tokens (Text.ofString "volatile std::vector<int*>&")).map Token.reading =
        U.symbols.map TypeSymbol.reading ∧
      (tokens (joinedText (tokens (Text.ofString "const std :: vector< int * >&")))).map Token.reading =
        (tokens (Text.ofString "const std :: vector< int * >&")).map Token.reading ∧
      (joinedText (tokens (Text.ofString "const std :: vector< int * >&")) =
          joinedText (tokens (Text.ofString "volatile std::vector<int*>&")) ↔
        (tokens (Text.ofString "const std :: vector< int * >&")).map Token.reading =
          (tokens (Text.ofString "volatile std::vector<int*>&")).map Token.reading) := by
  let std : Core.Name := ⟨Text.ofString "std", ⟨_, _, rfl, by decide, by decide⟩, by decide, by decide⟩
  let vector : Core.Name := ⟨Text.ofString "vector", ⟨_, _, rfl, by decide, by decide⟩, by decide, by decide⟩
  let name : TypeTree .name :=
    .qualified (.plain std) (.last (.template vector
      (.someArguments (.fundamental [] ⟨.intKw, rfl⟩ [] ⟨[[]], none⟩) .noMore)))
  let T : TypeTree .type := .named [.const] false name ⟨[], some .lvalue⟩
  let U : TypeTree .type := .named [.volatile] false name ⟨[], some .lvalue⟩
  obtain ⟨hts, hus⟩ :
      (tokens (Text.ofString "const std :: vector< int * >&")).map Token.reading =
          T.symbols.map TypeSymbol.reading ∧
        (tokens (Text.ofString "volatile std::vector<int*>&")).map Token.reading =
          U.symbols.map TypeSymbol.reading := by
    rw [Text.ofString_ofList, Text.ofString_ofList]
    decide +kernel
  exact ⟨T, U, hts, hus, text_faithful T U hts hus⟩

end TypeTree

end HouseStyle
