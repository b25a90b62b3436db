import HouseStyle.Proofs.FixedPoints
import HouseStyle.Proofs.GuardedText
import HouseStyle.Proofs.RewrittenModel

/-!
# The text that fixing leaves

The edits of a file are renames, ` class` behind the keyword of an enumeration, and the guarding line
(`edit_cases`). A batch of them that keeps apart rewrites the file token by token (`exists_rewrites`), as long
as no new name joins a quote and the guarding line is not put behind code at the end of the file.
-/

namespace HouseStyle

open Extraction

/-! ## Texts that are cut into rewritten pieces -/

namespace Piece

/-- No piece of a cut is empty. -/
theorem text_ne_nil_of_mem {lineStart : Bool} {ps : List Piece} (h : ofText lineStart (join ps) = ps) :
    ∀ p ∈ ps, p.text ≠ [] := by
  intro p hp
  obtain ⟨front, back, rfl⟩ := List.append_of_mem hp
  obtain ⟨-, hlead, -⟩ := ofText_eq_cons_iff.mp (ofText_eq_append h)
  exact text_ne_nil hlead

/-- What is no part of a cut is left out of its condition. -/
theorem NoQuoteJoined.of_append {ρ : Renaming} {front back : List Piece}
    (h : NoQuoteJoined ρ [] (front ++ back)) : NoQuoteJoined ρ [] back := by
  rw [noQuoteJoined_iff_forall] at h ⊢
  intro before name new behind hback hnew
  exact h (front ++ before) name new behind (by rw [hback, List.append_assoc]) hnew

/-- The cut of a text and that of the text it is rewritten to, which may have directives of its own between
comments at its start and the rest, show what its tokens become. -/
theorem exists_rewrites_of_cut {ρ : Renaming} {scopesAt : Nat → Bool} {name : Text → Text}
    {text updated : Text} {front put back : List Piece} (hold : ofText true text = front ++ back)
    (hnew : ofText true updated = front ++ (put ++ rewriteFrom ρ scopesAt (join front).length back))
    (hquiet : ∀ kind t, .lexeme kind t ∈ front → kind = .comment ∨ kind = .unknown)
    (hput : ∀ kind t, .lexeme kind t ∈ put → kind = .directive ∧ t = Text.ofString "#pragma once")
    (hname : ∀ s, .lexeme .identifier s ∈ back → name s = ρ.apply s) :
    ∃ rs, Rewrites text updated rs ∧ (∀ r ∈ rs, r.Respects name ∧
        (r.behind.isSome = true ↔ r.old.kind = .keyword .enumKw ∧ scopesAt r.old.stop = true)) ∧
      RewrittenToken.MovesDown rs (join front).length ((join put).count (.scalar '\n')) ∧
      (put = [] → tokens updated = rs.flatMap (·.written)) := by
  have hoffset : (Place.start.past (join front)).offset = (join front).length := by
    rw [offset_past]
    exact Nat.zero_add _
  have htokens : tokens updated =
      ((place .start front).map fun t => RewrittenToken.mk t t none).flatMap (·.written) ++
        place (Place.start.past (join front)) put ++
        (tokensFrom ρ scopesAt (Place.start.past (join front))
          ((Place.start.past (join front)).past (join put)) back).flatMap (·.written) := by
    rw [written_tokensFrom, hoffset, tokens, hnew, place_append, place_append, List.append_assoc]
    simp [List.flatMap_map, RewrittenToken.written]
  refine ⟨(place .start front).map (fun t => ⟨t, t, none⟩) ++
    tokensFrom ρ scopesAt (Place.start.past (join front)) ((Place.start.past (join front)).past (join put)) back,
    ⟨?_, _, place (Place.start.past (join front)) put, _, rfl, htokens, fun t ht => ?_⟩, fun r hr => ?_,
    ⟨fun r hr habove => ?_, fun r hr hbelow => ?_⟩, fun hnone => ?_⟩
  · rw [List.map_append, map_old_tokensFrom, List.map_map, tokens, hold, place_append]
    exact congrArg (· ++ _) (List.map_id _)
  · obtain ⟨before, behind, rfl, -, -⟩ := mem_place ht
    exact hput t.kind t.text (by simp)
  · rcases List.mem_append.mp hr with hr | hr
    · obtain ⟨t, ht, rfl⟩ := List.mem_map.mp hr
      obtain ⟨before, behind, rfl, -, -⟩ := mem_place ht
      have hkind := hquiet t.kind t.text (by simp)
      refine ⟨⟨rfl, fun hid => ?_, fun _ => rfl, fun hs => absurd hs (by simp), fun u hu => absurd hu (by simp)⟩,
        ⟨fun hs => absurd hs (by simp), fun henum => ?_⟩⟩
      · rcases hkind with hk | hk <;> exact absurd (hk.symm.trans hid) (by simp)
      · rcases hkind with hk | hk <;> exact absurd (hk.symm.trans henum.1) (by simp)
    · exact respects_of_mem_tokensFrom hname hr
  · rcases List.mem_append.mp hr with hr | hr
    · obtain ⟨t, ht, rfl⟩ := List.mem_map.mp hr
      obtain ⟨before, behind, rfl, -, -⟩ := mem_place ht
      exact ⟨rfl, hquiet t.kind t.text (by simp)⟩
    · have hmem := List.mem_map_of_mem (f := RewrittenToken.old) hr
      rw [map_old_tokensFrom] at hmem
      have hbehind := offset_le_start hmem
      omega
  · rcases List.mem_append.mp hr with hr | hr
    · obtain ⟨t, ht, rfl⟩ := List.mem_map.mp hr
      have hend := stop_le_offset ht
      have hlt : t.start < t.stop := start_lt_stop (by
        rw [tokens, hold, place_append]
        exact List.mem_append_left _ ht)
      change _ ≤ t.start at hbelow
      change t.stop ≤ 0 + _ at hend
      omega
    · refine line_of_mem_tokensFrom (Place.line_past _ _) (fun s hs => ?_) hr
      obtain ⟨before, behind, rfl⟩ := List.append_of_mem hs
      rw [← List.append_assoc] at hold
      obtain ⟨t, ht, hkind, rfl, -⟩ := mem_tokens_of_piece hold
      exact isName_text ht hkind
  · rw [htokens, hnone, List.flatMap_append]
    exact congrArg (· ++ _) (List.append_nil _)

end Piece

/-! ## The edits of a file -/

/-- The edits that replace something. -/
def Edit.renames (edits : List Edit) : List Edit := edits.filter (!·.isInsertion)

/-- The edit that puts ` class` in behind a token. -/
def Token.scopeEdit (t : Token) : Edit := ⟨t.stop, t.stop, Text.ofString " class"⟩

/-- Putting ` class` in at two places keeps apart. -/
theorem Token.eq_or_not_overlaps_scopeEdit (t u : Token) :
    t.scopeEdit = u.scopeEdit ∨ t.scopeEdit.overlaps u.scopeEdit = false := by
  by_cases hstop : t.stop = u.stop
  · exact Or.inl (by rw [scopeEdit, scopeEdit, hstop])
  · have hinsertion : ∀ t : Token, t.scopeEdit.isInsertion = true := fun _ => beq_self_eq_true _
    have happart : t.scopeEdit.overlaps u.scopeEdit = (t.scopeEdit.start == u.scopeEdit.start) := by
      rw [Edit.overlaps, if_pos (hinsertion t), if_pos (hinsertion u)]
    rw [happart, beq_eq_false_iff_ne]
    refine Or.inr fun h => hstop ?_
    change (t.stop : Int) = u.stop at h
    omega

theorem Token.isInsertion_renameTo {text : Text} {t : Token} (ht : t ∈ tokens text) (new : Text) :
    (t.renameTo new).isInsertion = false := by
  have hlt := start_lt_stop ht
  show ((t.start : Int) == t.stop) = false
  rw [beq_eq_false_iff_ne]
  omega

theorem IncludeGuardRule.isInsertion_of_guardEdit {f : SourceFile} {e : Edit} (h : guardEdit? f = some e) :
    e.isInsertion = true := by
  rcases guardEdit_eq_some h with rfl | rfl | ⟨_, -, _, _, -, -, ⟨-, rfl⟩ | ⟨-, rfl⟩⟩
  all_goals exact beq_self_eq_true _

/-- The guarding line is not ` class`. -/
theorem IncludeGuardRule.guardEdit_ne_scopeEdit {f : SourceFile} {e : Edit} (h : guardEdit? f = some e)
    (t : Token) : e ≠ t.scopeEdit := by
  have hplain : pragmaOnce ≠ Text.ofString " class" := by decide
  have hline : .scalar '\n' :: pragmaOnce ≠ Text.ofString " class" := by decide
  rintro rfl
  rcases guardEdit_eq_some h with heq | heq | ⟨_, -, _, _, -, -, ⟨-, heq⟩ | ⟨-, heq⟩⟩
  · exact hplain (congrArg Edit.replacement heq).symm
  · exact hline (congrArg Edit.replacement heq).symm
  · exact hline (congrArg Edit.replacement heq).symm
  · exact hplain (congrArg Edit.replacement heq).symm

theorem Edit.mem_renames {e : Edit} {edits : List Edit} :
    e ∈ renames edits ↔ e ∈ edits ∧ e.isInsertion = false := by
  rw [renames, List.mem_filter, Bool.not_eq_true']

section

variable {config : Config} {isOneOfMany : Bool} {path : SourcePath} {text : Text}

/-- An enumeration without braces or with `class` is left alone; of any other one this is known. -/
structure IsScoped (text : Text) (a : Entity) (keyword : Token) : Prop where
  mem : a ∈ (extract (tokens text)).entities
  kind : a.kind = .enum
  unscoped : a.isScopedEnum = false
  keyword_eq : a.keyword = some keyword

/-- An edit of an open fix is a rename, or it puts in ` class` or the guarding line. -/
theorem OpenFix.edit_kinds {info : RuleInfo} {line : Option Int} {edits : List Edit}
    (h : OpenFix (.ofText config isOneOfMany path text) info line edits) {e : Edit} (he : e ∈ edits) :
    (info = NamingRule.info ∧ e.isInsertion = false ∧
        ∃ t ∈ tokens text, t.kind = .identifier ∧ e = t.renameTo e.replacement) ∨
      (e.isInsertion = true ∧ ∃ a keyword, IsScoped text a keyword ∧ e = keyword.scopeEdit) ∨
      (e.isInsertion = true ∧
        IncludeGuardRule.guardEdit? (.ofText config isOneOfMany path text) = some e) := by
  cases h with
  | rename ha hexempt hcased hnew hsafe =>
    obtain ⟨t, ht, hkind, -, rfl⟩ := NamingRule.mem_rename_iff.mp he
    have htokens := (List.mem_filter.mp ht).1
    exact Or.inl ⟨rfl, Token.isInsertion_renameTo htokens _, t, htokens, hkind, rfl⟩
  | @scopeEnum a body keyword ha hkind hunscoped hbody hkeyword hclear =>
    obtain rfl := List.mem_singleton.mp he
    exact Or.inr (Or.inl ⟨beq_self_eq_true _, a, keyword, ⟨ha, hkind, hunscoped, hkeyword⟩, rfl⟩)
  | guard hheader hbare hplace =>
    obtain rfl := List.mem_singleton.mp he
    exact Or.inr (Or.inr ⟨IncludeGuardRule.isInsertion_of_guardEdit hplace, hplace⟩)

/-- A fixable violation is an open fix of its rule. -/
theorem openFix_of_mem_fixable {v : Violation}
    (hv : v ∈ fixableViolations (detectEnabled (.ofText config isOneOfMany path text))) :
    ∃ info line, OpenFix (.ofText config isOneOfMany path text) info line v.edits ∧ v.ruleId = info.id := by
  obtain ⟨r, hr, -, w, hw, hfixable, -, rfl⟩ := mem_fixableViolations_iff.mp hv
  rw [edits_withSeverity, ruleId_withSeverity]
  exact ⟨r.info, w.line, openFix_of_mem_reports hr hw (Violation.facts_of_isFixable hfixable).1,
    (isOf_of_mem_reports hr hw).ruleId_eq⟩

/-- The renames among the edits of a file are the edits of the naming rule. -/
theorem mem_naming_iff {e : Edit} :
    (∃ v ∈ fixableViolations (NamingRule.violations (.ofText config isOneOfMany path text)), e ∈ v.edits) ↔
      e.isInsertion = false ∧
        ∃ v ∈ fixableViolations (detectEnabled (.ofText config isOneOfMany path text)), e ∈ v.edits := by
  constructor
  · rintro ⟨v, hv, he⟩
    obtain ⟨hmem, hfixable⟩ := List.mem_filter.mp hv
    obtain ⟨a, -, w, hw, hfix, hedits⟩ := NamingRule.exists_entity hv
    obtain ⟨new, -, -, hrename, -⟩ := NamingRule.exists_safe_of_autofix hw hfix
    refine ⟨?_, v, List.mem_filter.mpr ⟨(List.mem_filter.mp hmem).1, hfixable⟩, he⟩
    rw [← hedits, hrename] at he
    obtain ⟨t, ht, -, -, rfl⟩ := NamingRule.mem_rename_iff.mp he
    exact Token.isInsertion_renameTo (List.mem_filter.mp ht).1 _
  · rintro ⟨hinsertion, v, hv, he⟩
    obtain ⟨info, line, hopen, hid⟩ := openFix_of_mem_fixable hv
    rcases hopen.edit_kinds he with ⟨rfl, -⟩ | ⟨h, -⟩ | ⟨h, -⟩
    · obtain ⟨hmem, hfixable⟩ := List.mem_filter.mp hv
      exact ⟨v, List.mem_filter.mpr ⟨List.mem_filter.mpr ⟨hmem, by simp [hid]⟩, hfixable⟩, he⟩
    all_goals exact absurd h (by rw [hinsertion]; decide)

/-- A batch of the fixes of a file, in order and apart. -/
structure IsFixBatch (f : SourceFile) (edits : List Edit) : Prop where
  mem_iff : ∀ e, e ∈ edits ↔ ∃ v ∈ fixableViolations (detectEnabled f), e ∈ v.edits
  within : ∀ e ∈ edits, e.Within f.text.length
  before : edits.Pairwise Edit.Before

namespace IsFixBatch

variable {edits : List Edit}

/-- The renames of a batch rename identifiers, all of a name together, to names that are not in use. -/
theorem renameAll (h : IsFixBatch (.ofText config isOneOfMany path text) edits) :
    Edit.RenameAll text (Edit.renames edits) ∧
      ∀ e ∈ Edit.renames edits, ∀ t ∈ tokens text, t.kind = .identifier → t.text ≠ e.replacement := by
  have hmem : ∀ e, e ∈ Edit.renames edits ↔ ∃ v ∈ fixableViolations
      (NamingRule.violations (.ofText config isOneOfMany path text)), e ∈ v.edits := fun e => by
    rw [mem_naming_iff, Edit.mem_renames, h.mem_iff, And.comm]
  exact NamingRule.renameAll_of_applyFixes (h.before.sublist List.filter_sublist) hmem

/-- Every edit of a batch is a rename, or it puts in ` class` or the guarding line. -/
theorem edit_cases (h : IsFixBatch (.ofText config isOneOfMany path text) edits) {e : Edit} (he : e ∈ edits) :
    e ∈ Edit.renames edits ∨
      (e.isInsertion = true ∧ ∃ a keyword, IsScoped text a keyword ∧ e = keyword.scopeEdit) ∨
      (e.isInsertion = true ∧
        IncludeGuardRule.guardEdit? (.ofText config isOneOfMany path text) = some e) := by
  obtain ⟨v, hv, hev⟩ := (h.mem_iff e).mp he
  obtain ⟨info, line, hopen, -⟩ := openFix_of_mem_fixable hv
  rcases hopen.edit_kinds hev with ⟨-, hinsertion, -⟩ | hscope | hguard
  · exact Or.inl (Edit.mem_renames.mpr ⟨he, hinsertion⟩)
  · exact Or.inr (Or.inl hscope)
  · exact Or.inr (Or.inr hguard)

end IsFixBatch

/-- The keyword of an enumeration is a keyword of the code, and its head was read behind it. -/
theorem IsScoped.hasHead {a : Entity} {keyword : Token} (h : IsScoped text a keyword) :
    keyword ∈ Token.code (tokens text) ∧ keyword.kind = .keyword .enumKw ∧
      ∃ head, HeadAt (Token.code (tokens text)) keyword head ∧ head.isScopedEnum = false := by
  rcases entity_cases h.mem with ⟨-, -, hheads⟩ | ⟨_, -, -, hdefines⟩
  · have hhead := hheads keyword h.keyword_eq
    obtain ⟨head, hread, hscoped, henum, -⟩ := id hhead
    exact ⟨hhead.mem.1, by simpa [Token.isKeyword] using henum h.kind, head, hread, hscoped ▸ h.unscoped⟩
  · have := h.keyword_eq
    rw [hdefines.keyword] at this
    exact absurd this (by simp)

/-- What stands behind a token is known by the token. -/
theorem Token.eq_of_cons_suffix {t : Token} {us vs ts : List Token} (hnodup : ts.Nodup) (hus : t :: us <:+ ts)
    (hvs : t :: vs <:+ ts) : us = vs := by
  have absurd_of : ∀ {as bs : List Token}, t :: bs <:+ ts → t :: as <:+ bs → False := by
    intro as bs hbs has
    exact (List.nodup_cons.mp (hnodup.sublist hbs.sublist)).1 (has.subset List.mem_cons_self)
  rcases List.suffix_or_suffix_of_suffix hus hvs with h | h <;> rcases List.suffix_cons_iff.mp h with h | h
  · exact (List.cons.inj h).2
  · exact (absurd_of hvs h).elim
  · exact (List.cons.inj h).2.symm
  · exact (absurd_of hus h).elim

/-- An `enum` that introduces an enumeration which is not scoped has no `class` behind it. -/
theorem fits_of_isScoped {name : Text → Text} {rs : List RewrittenToken} (hname : IsRespelling name)
    (hrs : ∀ r ∈ rs, r.Respects name)
    (hapart : ∀ s ∈ comparedNames (Token.code (tokens text)), ∀ t, name s = name t → s = t)
    (hbehind : ∀ r ∈ rs, r.old ∈ tokens text → r.behind.isSome = true → ∃ a, IsScoped text a r.old) :
    (Rewriting.ofList hname hrs).Fits (Token.code (tokens text)) := by
  refine ⟨fun t rest hsuffix hs => ?_, hapart⟩
  obtain ⟨u, hput⟩ := Option.isSome_iff_exists.mp (show (RewrittenToken.put? rs t).isSome = true from hs)
  obtain ⟨r, hfind, hu⟩ := Option.bind_eq_some_iff.mp hput
  obtain ⟨hr, rfl⟩ := RewrittenToken.find_eq_some hfind
  have htokens := (List.mem_filter.mp (hsuffix.subset List.mem_cons_self)).1
  obtain ⟨a, ha⟩ := hbehind r hr htokens (by rw [hu]; rfl)
  obtain ⟨-, hkind, head, ⟨-, rest', hsuffix', hread⟩, hunscoped⟩ := ha.hasHead
  obtain rfl := Token.eq_of_cons_suffix ((nodup_tokens text).sublist List.filter_sublist) hsuffix hsuffix'
  -- with `class` behind its keyword the enumeration would be scoped
  refine Bool.eq_false_iff.mpr fun hclass => ?_
  have hclassed : rest.head?.any (fun t => t.isKeyword .classKw || t.isKeyword .structKw) = true := hclass
  rw [typeHead?, if_pos (by simp [Token.isKeyword, hkind]), enumHead?, if_pos hclassed] at hread
  rw [isScopedEnum_of_enumHeadFrom hread] at hunscoped
  exact absurd hunscoped (by decide)

/-- Tokens are told apart by where ` class` is put in behind them. -/
theorem Token.scopeEdit_inj {t u : Token} (ht : t ∈ tokens text) (hu : u ∈ tokens text)
    (h : t.scopeEdit = u.scopeEdit) : t = u := by
  have hstop : (t.stop : Int) = u.stop := congrArg Edit.start h
  have h₁ := start_lt_stop ht
  have h₂ := start_lt_stop hu
  rcases tokens_apart ht hu with rfl | hle | hle
  · rfl
  · omega
  · omega

/-- ` class` is put in inside the file. -/
theorem IsScoped.within {a : Entity} {keyword : Token} (h : IsScoped text a keyword) :
    keyword.scopeEdit.Within text.length := by
  have hend := stop_le_length (List.mem_filter.mp h.hasHead.1).1
  exact ⟨Int.natCast_nonneg _, Int.le_refl _, by show (keyword.stop : Int) ≤ _; omega⟩

/-- What has to hold of a batch so that the file is still read as it was: names that become one are not compared
with others, names become no words with a meaning of their own, no new name joins a quote, and the guarding line
is put behind no code at the end of the file. -/
structure Harmless (text : Text) (edits : List Edit) : Prop where
  merge : ∀ a ∈ Edit.renames edits, ∀ b ∈ Edit.renames edits, a.replacement = b.replacement →
    a.replaced text ≠ b.replaced text → a.replaced text ∉ comparedNames (Token.code (tokens text))
  words : ∀ e ∈ Edit.renames edits, ∀ word ∈ contextualWords,
    e.replaced text ≠ Text.ofString word ∧ e.replacement ≠ Text.ofString word
  quotes : ∀ e ∈ Edit.renames edits, Lexeme.joinsQuote e.replacement (text.drop e.stop.toNat) = false
  fileEnd : ∀ e ∈ edits, e.start = text.length → ∀ t ∈ tokens text, t.isComment = true

/-- What a batch does to the lines of a file: they stay where they are, or a guarding line is put in and moves
down what is behind it. -/
inductive Guards (f : SourceFile) (edits : List Edit) (updated : Text) (rs : List RewrittenToken) : Prop where
  | none (hnone : ∀ e ∈ edits, IncludeGuardRule.guardEdit? f ≠ some e)
    (htokens : tokens updated = rs.flatMap (·.written)) (hmoves : RewrittenToken.MovesDown rs 0 0)
  | line {e : Edit} (he : e ∈ edits) (hguard : IncludeGuardRule.guardEdit? f = some e) {place n : Nat}
    (hplace : e.start = place)
    (hput : ∃ t ∈ tokens updated, t.kind = .directive ∧ t.text = Text.ofString "#pragma once")
    (hmoves : RewrittenToken.MovesDown rs place n)

namespace IsFixBatch

variable {edits : List Edit}

/-- Whether ` class` is put in at an offset. -/
def scopesAt (edits : List Edit) (o : Nat) : Bool := edits.contains ⟨o, o, Text.ofString " class"⟩

theorem exchangeable (h : IsFixBatch (.ofText config isOneOfMany path text) edits) :
    Edit.RenameAll.Exchangeable text (Edit.renames edits) :=
  { h.renameAll.1 with fresh := h.renameAll.2 }

/-- The names of a file after a batch. -/
def respelled (text : Text) (edits : List Edit) : Text → Text :=
  behindTildes (Edit.RenameAll.exchanged text (Edit.renames edits))

/-- Names that are compared stay apart from all others. -/
theorem eq_of_respelled_eq (h : IsFixBatch (.ofText config isOneOfMany path text) edits)
    (hharmless : Harmless text edits) {s t : Text} (hs : s ∈ comparedNames (Token.code (tokens text)))
    (heq : respelled text edits s = respelled text edits t) : s = t := by
  obtain ⟨u, hu, hid, rfl⟩ := exists_identifier_of_mem_comparedNames hs
  have hplain := (isName_text (List.mem_filter.mp hu).1 (beq_iff_eq.mp hid)).head_ne_tilde
  refine eq_of_behindTildes_eq h.exchangeable.head_exchanged hplain (fun t heq => ?_) heq
  refine h.exchangeable.eq_of_exchanged_eq (fun a ha b hb hold hnew => ?_) heq
  exact Classical.byContradiction fun hne => hharmless.merge a ha b hb hnew hne (hold ▸ hs)

theorem exists_replaced (h : IsFixBatch (.ofText config isOneOfMany path text) edits) {a : Edit}
    (ha : a ∈ Edit.renames edits) : ∃ t ∈ tokens text, t.kind = .identifier ∧ a.replaced text = t.text := by
  obtain ⟨t, ht, hid, heq, -⟩ := h.renameAll.1.edits_token a ha
  rw [heq]
  exact ⟨t, ht, hid, Edit.RenameAll.replaced_renameTo ht _⟩

theorem respelled_of_replaced (h : IsFixBatch (.ofText config isOneOfMany path text) edits) {a : Edit}
    (ha : a ∈ Edit.renames edits) : respelled text edits (a.replaced text) = a.replacement := by
  obtain ⟨t, ht, hid, hname⟩ := h.exists_replaced ha
  have happly := h.renameAll.1.apply_eq_of_mem ha
  rw [hname] at happly ⊢
  exact (h.exchangeable.name_eq_apply ht hid).trans happly

/-- A name that is in use and not replaced is kept, and no other name becomes it. -/
theorem respelled_of_kept (h : IsFixBatch (.ofText config isOneOfMany path text) edits) {t : Token}
    (ht : t ∈ tokens text) (hid : t.kind = .identifier)
    (hkept : ∀ a ∈ Edit.renames edits, a.replaced text ≠ t.text) :
    respelled text edits t.text = t.text ∧
      ∀ s, respelled text edits t.text = respelled text edits s → t.text = s := by
  have hplain := (isName_text ht hid).head_ne_tilde
  constructor
  · rw [respelled, behindTildes_of_ne hplain]
    rcases Edit.RenameAll.exchanged_cases h.renameAll.1 t.text with ⟨a, ha, heq, -⟩ | ⟨a, ha, heq, -⟩ | ⟨-, -, heq⟩
    · exact absurd heq.symm (hkept a ha)
    · exact absurd heq (h.renameAll.2 a ha t ht hid)
    · exact heq
  · intro s heq
    refine eq_of_behindTildes_eq h.exchangeable.head_exchanged hplain (fun s heq => ?_) heq
    exact h.exchangeable.eq_of_exchanged_eq (fun a ha _ _ hold _ => absurd hold (hkept a ha)) heq

/-- A name that is in use is replaced or kept. -/
theorem respelled_cases (h : IsFixBatch (.ofText config isOneOfMany path text) edits) {t : Token}
    (ht : t ∈ tokens text) (hid : t.kind = .identifier) :
    (∃ a ∈ Edit.renames edits, a.replaced text = t.text ∧ respelled text edits t.text = a.replacement) ∨
      (∀ a ∈ Edit.renames edits, a.replaced text ≠ t.text) ∧ respelled text edits t.text = t.text := by
  by_cases hreplaced : ∃ a ∈ Edit.renames edits, a.replaced text = t.text
  · obtain ⟨a, ha, heq⟩ := hreplaced
    exact Or.inl ⟨a, ha, heq, by rw [← heq, h.respelled_of_replaced ha]⟩
  · have hkept : ∀ a ∈ Edit.renames edits, a.replaced text ≠ t.text := fun a ha heq => hreplaced ⟨a, ha, heq⟩
    exact Or.inr ⟨hkept, (h.respelled_of_kept ht hid hkept).1⟩

/-- Where ` class` is put in stands the keyword of an enumeration. -/
theorem exists_keyword (h : IsFixBatch (.ofText config isOneOfMany path text) edits) {t : Token}
    (ht : t ∈ tokens text) (hs : scopesAt edits t.stop = true) : ∃ a, IsScoped text a t := by
  have hmem : t.scopeEdit ∈ edits := List.contains_iff_mem.mp hs
  rcases h.edit_cases hmem with hrename | ⟨-, a, keyword, ha, heq⟩ | ⟨-, hguard⟩
  · exact absurd (Edit.mem_renames.mp hrename).2 (by simp [Edit.isInsertion, Token.scopeEdit])
  · obtain rfl := Token.scopeEdit_inj ht (List.mem_filter.mp ha.hasHead.1).1 heq
    exact ⟨a, ha⟩
  · exact absurd rfl (IncludeGuardRule.guardEdit_ne_scopeEdit hguard t)

/-- The edits of a batch but for the guarding line are those that rewrite the pieces behind some comments and
blanks. -/
theorem mem_editsFrom_iff (h : IsFixBatch (.ofText config isOneOfMany path text) edits)
    {front back : List Piece} (hpieces : Piece.ofText true text = front ++ back)
    (hquiet : ∀ kind t, .lexeme kind t ∈ front → kind = .comment ∨ kind = .unknown) {e : Edit} :
    e ∈ Piece.editsFrom h.renameAll.1.toRenaming (scopesAt edits) (Piece.join front).length back ↔
      e ∈ edits ∧ IncludeGuardRule.guardEdit? (.ofText config isOneOfMany path text) ≠ some e := by
  have htokens : tokens text = Piece.place .start front ++
      Piece.place (Place.start.past (Piece.join front)) back := by
    rw [tokens, hpieces, Piece.place_append]
  -- names and keywords stand behind the comments
  have hback : ∀ t ∈ tokens text, t.kind ≠ .comment → t.kind ≠ .unknown →
      t ∈ Piece.place (Place.start.past (Piece.join front)) back := by
    intro t ht hcomment hunknown
    rw [htokens] at ht
    refine (List.mem_append.mp ht).resolve_left fun hfront => ?_
    obtain ⟨before, behind, rfl, -, -⟩ := Piece.mem_place hfront
    exact (hquiet t.kind t.text (by simp)).elim hcomment hunknown
  have hmem := @Piece.mem_editsFrom_iff h.renameAll.1.toRenaming (scopesAt edits)
    (Place.start.past (Piece.join front)) back e
  rw [Piece.offset_past_start] at hmem
  rw [hmem]
  constructor
  · rintro ⟨t, ht, ⟨hkind, new, hnew, rfl⟩ | ⟨-, hs, rfl⟩⟩
    · have hrename : t.renameTo new ∈ Edit.renames edits := h.renameAll.1.mem_iff.mpr
        ⟨t, by rw [htokens]; exact List.mem_append_right _ ht, hkind, new, hnew, rfl⟩
      obtain ⟨hedits, hinsertion⟩ := Edit.mem_renames.mp hrename
      refine ⟨hedits, fun hguard => ?_⟩
      rw [IncludeGuardRule.isInsertion_of_guardEdit hguard] at hinsertion
      exact absurd hinsertion (by decide)
    · exact ⟨List.contains_iff_mem.mp hs, fun hguard => IncludeGuardRule.guardEdit_ne_scopeEdit hguard t rfl⟩
  · rintro ⟨he, hnot⟩
    rcases h.edit_cases he with hrename | ⟨-, a, keyword, ha, rfl⟩ | ⟨-, hguard⟩
    · obtain ⟨t, ht, hkind, new, hnew, rfl⟩ := h.renameAll.1.mem_iff.mp hrename
      exact ⟨t, hback t ht (by simp [hkind]) (by simp [hkind]), Or.inl ⟨hkind, new, hnew, rfl⟩⟩
    · obtain ⟨hcode, hkind, -⟩ := ha.hasHead
      refine ⟨keyword, hback keyword (List.mem_filter.mp hcode).1 (by simp [hkind]) (by simp [hkind]),
        Or.inr ⟨hkind, List.contains_iff_mem.mpr he, rfl⟩⟩
    · exact absurd hguard hnot

/-- A batch that does no harm rewrites the tokens of the file, and moves them down behind a guarding line. -/
theorem exists_rewrites (h : IsFixBatch (.ofText config isOneOfMany path text) edits)
    (hharmless : Harmless text edits) :
    ∃ rs, Rewrites text (splice 0 text edits) rs ∧ (∀ r ∈ rs, r.Respects (respelled text edits) ∧
        (r.behind.isSome = true ↔ r.old.kind = .keyword .enumKw ∧ scopesAt edits r.old.stop = true)) ∧
      Guards (.ofText config isOneOfMany path text) edits (splice 0 text edits) rs := by
  have hquote := h.renameAll.1.noQuoteJoined_iff.mpr hharmless.quotes
  have hname : ∀ {front back : List Piece}, Piece.ofText true text = front ++ back →
      ∀ s, .lexeme .identifier s ∈ back → respelled text edits s = h.renameAll.1.toRenaming.apply s := by
    intro front back hpieces s hs
    obtain ⟨before, behind, rfl⟩ := List.append_of_mem hs
    rw [← List.append_assoc] at hpieces
    obtain ⟨t, ht, hkind, rfl, -⟩ := mem_tokens_of_piece hpieces
    exact h.exchangeable.name_eq_apply ht hkind
  by_cases hguarded : ∃ g ∈ edits, IncludeGuardRule.guardEdit? (.ofText config isOneOfMany path text) = some g
  · obtain ⟨g, hg, hguard⟩ := hguarded
    obtain ⟨front, put, back, hat⟩ : ∃ front put back, GuardedAt text g front put back :=
      IncludeGuardRule.exists_guardedAt rfl rfl hguard (hharmless.fileEnd g hg)
    have hmem := fun e => h.mem_editsFrom_iff hat.pieces hat.quiet (e := e)
    have htext : text = Piece.join front ++ Piece.join back := by
      rw [← Piece.join_append, ← hat.pieces, Piece.join_ofText]
    -- the guarding line comes first
    obtain ⟨rest, hedits, hbefore, hrest⟩ := exists_cons_of_mem_iff (e := g) h.before (fun e => by
      rw [List.mem_cons, hmem]
      refine ⟨fun he => ?_, fun he => he.elim (fun heq => heq ▸ hg) (·.1)⟩
      refine Decidable.or_iff_not_imp_left.mpr fun hne => ⟨he, fun hother => hne ?_⟩
      exact Option.some.inj (hother.symm.trans hguard)) fun e he => by
        have hstart := (Piece.start_of_mem_editsFrom he).1
        refine ⟨by rw [hat.start]; exact hstart, ?_⟩
        rintro rfl
        exact ((hmem e).mp he).2 hguard
    rw [Piece.eq_editsFrom (Piece.text_ne_nil_of_mem hat.cut_back) hbefore hrest] at hedits
    have hsplice : splice 0 text edits = Piece.join front ++ (g.replacement ++
        Piece.join (Piece.rewriteFrom h.renameAll.1.toRenaming (scopesAt edits) (Piece.join front).length back)) := by
      have htake : text.take (Piece.join front).length = Piece.join front := by rw [htext, List.take_left]
      have hdrop : text.drop (Piece.join front).length = Piece.join back := by rw [htext, List.drop_left]
      refine (congrArg (splice 0 text) hedits).trans ?_
      rw [splice, hat.start, hat.stop, Int.toNat_natCast, Nat.sub_zero, htake, hdrop,
        Piece.splice_editsFrom, List.append_assoc]
    rw [hsplice]
    rw [hat.pieces] at hquote
    have hcut := hat.cut (Piece.join (Piece.rewriteFrom h.renameAll.1.toRenaming (scopesAt edits)
      (Piece.join front).length back))
    rw [Piece.ofText_rewriteFrom hat.cut_back hquote.of_append] at hcut
    obtain ⟨rs, hrewrites, hrs, hmoves, -⟩ :=
      Piece.exists_rewrites_of_cut hat.pieces hcut hat.quiet hat.directive (hname hat.pieces)
    refine ⟨rs, hrewrites, hrs, .line hg hguard hat.start ?_ hmoves⟩
    obtain ⟨before, behind, hput⟩ := List.append_of_mem hat.guarded
    obtain ⟨t, ht, hkind, hpragma, -⟩ := mem_tokens_of_piece (hcut.trans (by
      rw [hput, List.append_assoc, ← List.append_assoc, List.cons_append]))
    exact ⟨t, ht, hkind, hpragma⟩
  · have hpieces : Piece.ofText true text = [] ++ Piece.ofText true text := rfl
    have hquiet : ∀ kind t, .lexeme kind t ∈ ([] : List Piece) → kind = .comment ∨ kind = .unknown := by simp
    have hcut : Piece.ofText true (Piece.join (Piece.ofText true text)) = Piece.ofText true text := by
      rw [Piece.join_ofText]
    have hedits := @Piece.eq_editsFrom h.renameAll.1.toRenaming (scopesAt edits) 0 _ _
      (Piece.text_ne_nil_of_mem hcut) h.before fun e => by
        refine (and_iff_left_of_imp fun he => ?_).symm.trans (h.mem_editsFrom_iff hpieces hquiet).symm
        exact fun hguard => hguarded ⟨e, he, hguard⟩
    have hsplice : splice 0 text edits = Piece.join (Piece.rewriteFrom h.renameAll.1.toRenaming
        (scopesAt edits) 0 (Piece.ofText true text)) := by
      rw [← Piece.splice_editsFrom, Piece.join_ofText, ← hedits]
    rw [hsplice]
    obtain ⟨rs, hrewrites, hrs, hmoves, htokens⟩ := @Piece.exists_rewrites_of_cut _ _ _ _ _ _ [] _ hpieces
      (Piece.ofText_rewriteFrom hcut hquote 0) hquiet (by simp) (hname hpieces)
    exact ⟨rs, hrewrites, hrs, .none (fun g hg hguard => hguarded ⟨g, hg, hguard⟩) (htokens rfl) hmoves⟩

/-- An `enum` behind which ` class` is put in has none yet. -/
theorem fits (h : IsFixBatch (.ofText config isOneOfMany path text) edits) (hharmless : Harmless text edits)
    {rs : List RewrittenToken} (hname : IsRespelling (respelled text edits))
    (hrs : ∀ r ∈ rs, r.Respects (respelled text edits))
    (hbehind : ∀ r ∈ rs, r.behind.isSome = true → scopesAt edits r.old.stop = true) :
    (Rewriting.ofList hname hrs).Fits (Token.code (tokens text)) :=
  fits_of_isScoped hname hrs (fun _ hs _ heq => h.eq_of_respelled_eq hharmless hs heq)
    fun r hr ht hs => h.exists_keyword ht (hbehind r hr hs)

/-- A batch that does no harm leaves a file that declares the same kinds of entities. -/
theorem entityKinds_splice (h : IsFixBatch (.ofText config isOneOfMany path text) edits)
    (hharmless : Harmless text edits) : entityKinds (splice 0 text edits) = entityKinds text := by
  obtain ⟨rs, hrewrites, hrs, -⟩ := h.exists_rewrites hharmless
  have hname := h.exchangeable.isRespelling hharmless.words
  exact hrewrites.entityKinds_eq
    (h.fits hharmless hname (fun r hr => (hrs r hr).1) fun r hr hs => ((hrs r hr).2.mp hs).2)

end IsFixBatch

end

end HouseStyle
