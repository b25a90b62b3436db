import HouseStyle.Proofs.PlacedReports

/-!
# No token declares two names

Names are declared at a dozen places of the reader, some of them behind tokens that have been looked at
before: a head that turns out to be none, the initializer of a loop, the declarators behind a brace. Still
every entity has a place of its own. A token of the code declares at most one, since a statement takes the
tokens it declares names at (`declares_of_takes`), and a directive defines at most one macro.

- `nodup_start_entities`: no two entities of a file stand at one place.
- `Entity.OfCode.writtenIn`, `Extraction.IsMacroOf.writtenIn`: what is written at these places.
- `entities_distinct`: both of all entities of a file.
-/

namespace HouseStyle

open List (Sublist)
open scoped List

/-- The token of an entity is a part of a directive. -/
structure Entity.IsPartOf (e : Entity) (directive : Token) : Prop where
  within : directive.start ≤ e.start ∧ e.start < e.stop ∧ e.stop ≤ directive.stop
  slice : e.token.text = directive.text.extract (e.start - directive.start) (e.stop - directive.start)

/-- The name of an entity is an operator. -/
def Entity.IsOperator (e : Entity) : Prop :=
  e.isSpecial = true ∧ (e.kind = .function ∨ e.kind = .method) ∧
    ∃ symbol, e.name = Text.ofString "operator" ++ symbol

/-- The name of an entity is that of a destructor: the tilde is what tells it from a constructor. -/
def Entity.IsDestructor (e : Entity) : Prop := e.isSpecial = true ∧ e.name.head? = some (.scalar '~')

/-- How an entity is written in a text: the token that declares it, and its name. -/
structure Entity.WrittenIn (text : Text) (e : Entity) : Prop where
  code : e.kind ≠ .macro_ → e.token ∈ tokens text ∧
    (e.token.kind = .identifier ∨ e.token.kind = .keyword .operatorKw ∧ e.IsOperator)
  directive : e.kind = .macro_ → ∃ d ∈ tokens text, d.kind = .directive ∧ e.IsPartOf d
  name : e.isSpecial = false → text.extract e.start e.stop = e.name
  special : e.isSpecial = true → e.IsOperator ∨ e.name = text.extract e.start e.stop ∨
    e.name = .scalar '~' :: text.extract e.start e.stop
  destructor : e.IsDestructor → e.name = .scalar '~' :: text.extract e.start e.stop

variable {text : Text}

theorem extract_eq_text {t : Token} (h : t ∈ tokens text) : text.extract t.start t.stop = t.text := by
  rw [List.extract_eq_take_drop, slice_eq_text h]

namespace Extraction

/-! ## Macros stand in their directives -/

theorem IsMacroOf.isPartOf {e : Entity} {directive : Token} (h : IsMacroOf e directive)
    (hdirective : directive ∈ tokens text) : e.IsPartOf directive := by
  obtain ⟨lead, hdefined, hstart, hstop⟩ := h.defined
  obtain ⟨-, hlength, hne⟩ := NamingRule.mem_wordsFrom_of_definedName hdefined
  obtain ⟨more, hmore⟩ := definedName_append hdefined
  obtain ⟨_, _, _, -, -, hend, -⟩ := exists_leads_of_mem_tokens hdirective
  have hpos := List.length_pos_iff.mpr hne
  refine ⟨?_, ?_⟩
  · unfold Entity.start Entity.stop
    omega
  · have hfrom : e.start - directive.start = lead.length := by
      unfold Entity.start
      omega
    have hto : e.stop - directive.start = lead.length + e.name.length := by
      unfold Entity.stop
      omega
    rw [h.text, List.extract_eq_take_drop, hfrom, hto, hmore, List.append_assoc, List.drop_left,
      Nat.add_sub_cancel_left, List.take_left]

/-- Directives stand one after another, and so do the macros that they define. -/
theorem macros_ordered {directives : List Token} (hmem : ∀ d ∈ directives, d ∈ tokens text)
    (hordered : directives.Pairwise fun a b => a.stop ≤ b.start) :
    (directives.filterMap macro?).Pairwise fun a b => a.start < b.start := by
  refine List.pairwise_filterMap.mpr (hordered.imp_of_mem fun hd hd' hle e he e' he' => ?_)
  have hpart := ((isMacroOf_of_eq_some he).isPartOf (hmem _ hd)).within
  have hpart' := ((isMacroOf_of_eq_some he').isPartOf (hmem _ hd')).within
  omega

/-- A macro does not stand where the code declares something. -/
theorem start_ne_of_isMacroOf {t directive : Token} {e : Entity} (ht : t ∈ Token.code (tokens text))
    (hdirective : directive ∈ tokens text) (hkind : directive.isDirective = true)
    (he : IsMacroOf e directive) : t.start ≠ e.start := by
  obtain ⟨hmem, hcode⟩ := List.mem_filter.mp ht
  have hpart := (he.isPartOf hdirective).within
  have hpos := start_lt_stop hmem
  rcases tokens_apart hmem hdirective with rfl | h | h
  · rw [Token.isCode, hkind] at hcode
    exact absurd hcode (by simp)
  all_goals omega

end Extraction

/-! ## Places -/

/-- Entities that are declared by different tokens of the code stand at different places. -/
theorem Declares.nodup_start {es : List Entity} {code : List Token}
    (h : Declares code (Token.code (HouseStyle.tokens text)) es) : (es.map (·.start)).Nodup := by
  obtain ⟨⟨names, hnames, hcode⟩, -⟩ := h
  have hordered : names.Pairwise fun a b => a.start < b.start := by
    refine ((tokens_ordered text).sublist (hcode.trans List.filter_sublist)).imp_of_mem fun ha _ hle => ?_
    exact Nat.lt_of_lt_of_le (start_lt_stop (List.mem_filter.mp (hcode.subset ha)).1) hle
  have hnodup : (names.map (·.start)).Nodup := List.pairwise_map.mpr (hordered.imp Nat.ne_of_lt)
  have hperm := hnames.map (·.start)
  rw [List.map_map] at hperm
  exact hperm.nodup_iff.mp hnodup

/-- No two entities of a file stand at one place. -/
theorem nodup_start_entities (text : Text) : ((extract (tokens text)).entities.map (·.start)).Nodup := by
  obtain ⟨declared, hperm, hdeclares⟩ := exists_entities_extract (tokens text)
  rw [(hperm.map _).nodup_iff, List.map_append]
  have hmem : ∀ d ∈ (tokens text).filter (·.isDirective), d ∈ tokens text := fun d hd => (List.mem_filter.mp hd).1
  have hordered := (tokens_ordered text).sublist (List.filter_sublist (p := Token.isDirective))
  refine List.nodup_append.mpr ⟨hdeclares.nodup_start, ?_, ?_⟩
  · exact List.pairwise_map.mpr ((Extraction.macros_ordered hmem hordered).imp Nat.ne_of_lt)
  · intro start hdeclared start' hmacro
    obtain ⟨e, he, rfl⟩ := List.mem_map.mp hdeclared
    obtain ⟨m, hm, rfl⟩ := List.mem_map.mp hmacro
    obtain ⟨directive, hdirective, hof⟩ := List.mem_filterMap.mp hm
    obtain ⟨hmem, hkind⟩ := List.mem_filter.mp hdirective
    exact Extraction.start_ne_of_isMacroOf (hdeclares.token_mem he) hmem hkind
      (Extraction.isMacroOf_of_eq_some hof)

/-- The entities of a file come one behind the other. -/
theorem entities_ordered (text : Text) :
    (extract (tokens text)).entities.Pairwise fun a b => a.start < b.start := by
  have hne := List.pairwise_map.mp (nodup_start_entities text)
  exact ((sorted_entities_extract (tokens text)).and hne).imp fun ⟨hle, hne⟩ =>
    Nat.lt_of_le_of_ne hle hne

/-! ## What stands there -/

/-- The name of an identifier does not begin with a tilde. -/
theorem head_text_ne_tilde {t : Token} (ht : t ∈ tokens text) (hkind : t.kind = .identifier) :
    t.text.head? ≠ some (.scalar '~') := by
  obtain ⟨⟨g, more, htext, hstart, -⟩, -⟩ := isName_text ht hkind
  rw [htext]
  rintro ⟨⟩
  exact absurd hstart (by decide)

/-- What the code declares is written as its token. -/
theorem Entity.OfCode.writtenIn {e : Entity} (h : e.OfCode (Token.code (tokens text)))
    (hcode : e.token ∈ Token.code (tokens text)) : e.WrittenIn text := by
  have hmem := (List.mem_filter.mp hcode).1
  have hslice : text.extract e.start e.stop = e.token.text := extract_eq_text hmem
  refine ⟨fun _ => ⟨hmem, ?_⟩, fun hkind => absurd hkind h.kind, fun hspecial => ?_, fun hspecial => ?_,
    fun hdestructor => ?_⟩
  · rcases h.named with ⟨hid, -⟩ | ⟨hword, hspecial, hsymbol⟩
    · exact Or.inl (by simpa [Token.isIdentifier] using hid)
    · exact Or.inr ⟨by simpa [Token.isKeyword] using hword, hspecial, h.function hspecial, hsymbol⟩
  · rw [hslice, (h.named.eq_text hspecial).2]
  · rw [hslice]
    rcases h.named with ⟨-, hname | ⟨-, hname⟩⟩ | ⟨-, -, hsymbol⟩
    · exact Or.inr (Or.inl hname)
    · exact Or.inr (Or.inr hname)
    · exact Or.inl ⟨hspecial, h.function hspecial, hsymbol⟩
  · obtain ⟨hspecial, hhead⟩ := hdestructor
    rw [hslice]
    rcases h.named with ⟨hid, hname | ⟨-, hname⟩⟩ | ⟨-, -, symbol, hsymbol⟩
    · rw [hname] at hhead
      exact absurd hhead (head_text_ne_tilde hmem (by simpa [Token.isIdentifier] using hid))
    · exact hname
    · rw [hsymbol] at hhead
      exact absurd hhead (by simp [Text.ofString])

/-- A macro is written in its directive. -/
theorem Extraction.IsMacroOf.writtenIn {e : Entity} {directive : Token} (h : IsMacroOf e directive)
    (hmem : directive ∈ tokens text) (hkind : directive.isDirective = true) : e.WrittenIn text := by
  have hpart := h.isPartOf hmem
  refine ⟨fun hother => absurd h.kind hother, fun _ => ⟨directive, hmem, ?_, hpart⟩, fun _ => ?_,
    fun hspecial => absurd (h.isSpecial.symm.trans hspecial) (by decide),
    fun hdestructor => absurd (h.isSpecial.symm.trans hdestructor.1) (by decide)⟩
  · simpa [Token.isDirective] using hkind
  · -- a part of the directive is a part of the text
    obtain ⟨lead, hdefined, hstart, hstop⟩ := h.defined
    obtain ⟨more, hmore⟩ := definedName_append hdefined
    obtain ⟨_, before, rest, htext, hbegin, -⟩ := exists_leads_of_mem_tokens hmem
    have hfront : e.start = (before ++ lead).length := by
      rw [List.length_append, ← hbegin]
      exact hstart
    have hlength : e.stop - e.start = e.name.length := by
      unfold Entity.stop Entity.start
      omega
    have hparts : text = before ++ lead ++ (e.name ++ (more ++ rest)) := by
      rw [htext, hmore]
      simp only [List.append_assoc]
    rw [List.extract_eq_take_drop, hlength, hfront, hparts, List.drop_left, List.take_left]

/-- The entities of every text come from tokens of their own: they stand one behind the other, whatever is
declared by the code at an identifier of it or at the word `operator` of an operator, macros at a part of a
directive. Names that are free are written there, and so are those of constructors and destructors, the latter
without their tilde. -/
theorem entities_distinct (text : Text) :
    ((extract (tokens text)).entities.Pairwise fun a b => a.start < b.start) ∧
      ∀ e ∈ (extract (tokens text)).entities, e.WrittenIn text := by
  refine ⟨entities_ordered text, fun e he => ?_⟩
  rcases entity_cases he with ⟨hcode, hof⟩ | ⟨directive, hmem, hkind, hdefines⟩
  · exact hof.writtenIn hcode
  · exact hdefines.writtenIn hmem hkind

end HouseStyle
