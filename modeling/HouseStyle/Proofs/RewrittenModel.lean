import HouseStyle.Proofs.RewrittenStatements
import HouseStyle.Proofs.RewrittenTokens
import HouseStyle.Proofs.Suppressed

/-!
# What a rewritten file declares

A file is read from its tokens. When they are rewritten (`Rewrites`), the same entities are declared by the
tokens that stand in the place of those of before, in the same order, and in the same scopes. So the model of
the new file is that of the old one, entity by entity (`Rewrites.exists_pairs`) and scope by scope
(`Rewrites.scopes_eq`).

Entities are sorted by where their names stand. These are parts of tokens (a macro is a part of its
directive), and tokens stay in order, so the entities do.
-/

namespace HouseStyle

/-! ## Macros -/

namespace Extraction

/-- Directives are all understood. -/
theorem anomalies_ofTokens (tokens : List Token) :
    (ofTokens tokens).anomalies = (readCode tokens).anomalies := by
  have hadd : ∀ (directives : List Token) (x : Extraction),
      (directives.foldl (·.addMacro ·) x).anomalies = x.anomalies := by
    intro directives
    induction directives with
    | nil => exact fun x => rfl
    | cons directive directives ih =>
      intro x
      rw [List.foldl_cons, ih, addMacro_eq]
      cases macro? directive <;> rfl
  unfold ofTokens
  rw [hadd, endOpened_eq]
  rfl

end Extraction

/-! ## Files -/

/-- A text is rewritten to another one: its tokens are, and besides a guarding line may be put in. -/
structure Rewrites (text updated : Text) (rs : List RewrittenToken) : Prop where
  old : rs.map (·.old) = tokens text
  new : ∃ front put back, rs = front ++ back ∧
    tokens updated = front.flatMap (·.written) ++ put ++ back.flatMap (·.written) ∧
    ∀ t ∈ put, t.kind = .directive ∧ t.text = Text.ofString "#pragma once"

/-- No token stands twice in a text. -/
theorem nodup_tokens (text : Text) : (tokens text).Nodup := by
  refine (tokens_ordered text).imp_of_mem fun {a b} ha hb hab heq => ?_
  subst heq
  have := start_lt_stop ha
  omega

namespace Rewrites

open Extraction

variable {text updated : Text} {rs : List RewrittenToken} {name : Text → Text}

theorem nodup (h : Rewrites text updated rs) : (rs.map (·.old)).Nodup := by
  rw [h.old]
  exact nodup_tokens text

theorem old_mem (h : Rewrites text updated rs) {r : RewrittenToken} (hr : r ∈ rs) : r.old ∈ tokens text := by
  rw [← h.old]
  exact List.mem_map_of_mem hr

theorem exists_old (h : Rewrites text updated rs) {t : Token} (ht : t ∈ tokens text) : ∃ r ∈ rs, r.old = t := by
  rw [← h.old] at ht
  exact List.mem_map.mp ht

theorem map_new_sublist (us : List RewrittenToken) : (us.map (·.new)).Sublist (us.flatMap (·.written)) := by
  induction us with
  | nil => exact List.Sublist.refl _
  | cons r us ih =>
    rw [List.map_cons, List.flatMap_cons, RewrittenToken.written, List.cons_append]
    exact (ih.trans (List.sublist_append_right _ _)).cons_cons r.new

/-- What the tokens become stands in the new file in the same order. -/
theorem new_sublist (h : Rewrites text updated rs) : (rs.map (·.new)).Sublist (tokens updated) := by
  obtain ⟨front, put, back, rfl, htokens, -⟩ := h.new
  rw [htokens, List.map_append]
  exact ((map_new_sublist front).trans (List.sublist_append_left _ _)).append (map_new_sublist back)

theorem new_mem (h : Rewrites text updated rs) {r : RewrittenToken} (hr : r ∈ rs) :
    r.new ∈ tokens updated :=
  h.new_sublist.subset (List.mem_map_of_mem hr)

theorem isCode_of_kind_eq {t u : Token} (h : t.kind = u.kind) : t.isCode = u.isCode := by
  simp only [Token.isCode, Token.isComment, Token.isDirective, h]

theorem code_written (us : List RewrittenToken) (hus : ∀ r ∈ us, r.Respects name) :
    Token.code (us.flatMap (·.written)) = (us.filter (·.old.isCode)).flatMap (·.written) := by
  induction us with
  | nil => rfl
  | cons r us ih =>
    rw [List.forall_mem_cons] at hus
    have hrest := ih hus.2
    rw [Token.code] at hrest ⊢
    rw [List.flatMap_cons, List.filter_append, hrest, List.filter_cons, RewrittenToken.written,
      List.filter_cons, isCode_of_kind_eq hus.1.kind]
    cases hbehind : r.behind with
    | none =>
      split <;> simp [RewrittenToken.written, hbehind]
    | some c =>
      have henum := hus.1.kind_of_behind (by rw [hbehind]; rfl)
      have hclass := hus.1.kind_behind c hbehind
      have hold : r.old.isCode = true := by simp [Token.isCode, Token.isComment, Token.isDirective, henum]
      have hput : c.isCode = true := by simp [Token.isCode, Token.isComment, Token.isDirective, hclass]
      simp [RewrittenToken.written, hbehind, hold, hput]

/-- What becomes of the tokens of some kinds, if `class` is none of them. -/
theorem filter_written {p : Token → Bool} (hkind : ∀ {t u : Token}, t.kind = u.kind → p t = p u)
    (hclass : ∀ {t : Token}, t.kind = .keyword .classKw → p t = false) (us : List RewrittenToken)
    (hus : ∀ r ∈ us, r.Respects name) :
    (us.flatMap (·.written)).filter p = (us.filter (p ·.old)).map (·.new) := by
  induction us with
  | nil => rfl
  | cons r us ih =>
    rw [List.forall_mem_cons] at hus
    rw [List.flatMap_cons, List.filter_append, ih hus.2, List.filter_cons, RewrittenToken.written,
      List.filter_cons, hkind hus.1.kind]
    have hput : r.behind.toList.filter p = [] := by
      cases hbehind : r.behind with
      | none => rfl
      | some c => simp [hclass (hus.1.kind_behind c hbehind)]
    rw [hput]
    split <;> simp

theorem directives_written (us : List RewrittenToken) (hus : ∀ r ∈ us, r.Respects name) :
    (us.flatMap (·.written)).filter (·.isDirective) = (us.filter (·.old.isDirective)).map (·.new) :=
  filter_written (fun h => by simp only [Token.isDirective, h]) (fun h => by simp [Token.isDirective, h]) us hus

/-- The code of the new file. -/
theorem code_eq (h : Rewrites text updated rs) (hrs : ∀ r ∈ rs, r.Respects name) :
    Token.code (tokens updated) = (rs.filter (·.old.isCode)).flatMap (·.written) := by
  obtain ⟨front, put, back, rfl, htokens, hput⟩ := h.new
  have hnone : Token.code put = [] := by
    refine List.filter_eq_nil_iff.mpr fun t ht => ?_
    simp [Token.isCode, Token.isDirective, (hput t ht).1]
  have hfront := code_written front fun r hr => hrs r (List.mem_append_left _ hr)
  have hback := code_written back fun r hr => hrs r (List.mem_append_right _ hr)
  rw [Token.code] at hnone hfront hback ⊢
  rw [htokens, List.filter_append, List.filter_append, hnone, hfront, hback, List.append_nil,
    List.filter_append, List.flatMap_append]

/-- The code of the new file is rewritten code. -/
theorem code_eq_code (h : Rewrites text updated rs) (hname : IsRespelling name)
    (hrs : ∀ r ∈ rs, r.Respects name) :
    Token.code (tokens updated) = (Rewriting.ofList hname hrs).code (Token.code (tokens text)) := by
  have hold : Token.code (tokens text) = (rs.filter (·.old.isCode)).map (·.old) := by
    rw [← h.old, Token.code, List.filter_map]
    rfl
  rw [h.code_eq hrs, hold, Rewriting.code_map_old h.nodup fun r hr => (List.mem_filter.mp hr).1]

/-- The macros of the new file are those of the directives of the old one, where they stand now. -/
theorem macros_eq (h : Rewrites text updated rs) (hrs : ∀ r ∈ rs, r.Respects name) :
    ((tokens updated).filter (·.isDirective)).filterMap macro? =
      ((rs.filter (·.old.isDirective)).map (·.new)).filterMap macro? := by
  obtain ⟨front, put, back, rfl, htokens, hput⟩ := h.new
  have hnone : (put.filter (·.isDirective)).filterMap macro? = [] := by
    refine List.filterMap_eq_nil_iff.mpr fun t ht => ?_
    have hnot : definedName? (Text.ofString "#pragma once") = none := by decide
    rw [macro?, (hput t (List.mem_filter.mp ht).1).2, hnot]
    rfl
  rw [htokens, List.filter_append, List.filter_append, List.filterMap_append, List.filterMap_append, hnone,
    directives_written front fun r hr => hrs r (List.mem_append_left _ hr),
    directives_written back fun r hr => hrs r (List.mem_append_right _ hr), List.append_nil,
    List.filter_append, List.map_append, List.filterMap_append]

/-! ## Entities -/

/-- Two names at corresponding places: in a token, and equally far behind the start of what it becomes. -/
def Aligned (rs : List RewrittenToken) (e e' : Entity) : Prop :=
  ∃ r ∈ rs, ∃ k, e.start = r.old.start + k ∧ e'.start = r.new.start + k ∧
    e.start < r.old.stop ∧ e'.start < r.new.stop

end Rewrites

namespace RewrittenToken

/-- Tokens stand one behind another, and what they become does. -/
structure InOrder (rs : List RewrittenToken) : Prop where
  old : rs.Pairwise fun a b => a.old.stop ≤ b.old.start
  new : rs.Pairwise fun a b => a.new.stop ≤ b.new.start

variable {rs : List RewrittenToken}

/-- Of two tokens one stands before the other, and what they become stands alike. -/
theorem InOrder.apart (h : InOrder rs) {r s : RewrittenToken} (hr : r ∈ rs) (hs : s ∈ rs) :
    r = s ∨ (r.old.stop ≤ s.old.start ∧ r.new.stop ≤ s.new.start) ∨
      (s.old.stop ≤ r.old.start ∧ s.new.stop ≤ r.new.start) := by
  obtain ⟨hold, hnew⟩ := h
  induction rs with
  | nil => exact absurd hr (by simp)
  | cons a rs ih =>
    obtain ⟨hfirst, hold⟩ := List.pairwise_cons.mp hold
    obtain ⟨hfirst', hnew⟩ := List.pairwise_cons.mp hnew
    rcases List.mem_cons.mp hr with rfl | hr' <;> rcases List.mem_cons.mp hs with rfl | hs'
    · exact Or.inl rfl
    · exact Or.inr (Or.inl ⟨hfirst s hs', hfirst' s hs'⟩)
    · exact Or.inr (Or.inr ⟨hfirst r hr', hfirst' r hr'⟩)
    · exact ih hr' hs' hold hnew

/-- Different tokens become different ones, unless these take no room. -/
theorem InOrder.eq_of_new_eq (h : InOrder rs) (hroom : ∀ r ∈ rs, r.new.start < r.new.stop) {r s : RewrittenToken}
    (hr : r ∈ rs) (hs : s ∈ rs) (heq : r.new = s.new) : r = s := by
  have hlt := hroom r hr
  rcases h.apart hr hs with hsame | ⟨-, hnew⟩ | ⟨-, hnew⟩
  · exact hsame
  · rw [← heq] at hnew
    omega
  · rw [← heq] at hnew
    omega

/-- Entities stand in the same order. -/
theorem InOrder.start_lt_iff (h : InOrder rs) {a b a' b' : Entity} (ha : Rewrites.Aligned rs a a')
    (hb : Rewrites.Aligned rs b b') :
    (a.start < b.start ↔ a'.start < b'.start) ∧ (a.start = b.start ↔ a'.start = b'.start) := by
  obtain ⟨r, hr, j, h₁, h₂, h₃, h₄⟩ := ha
  obtain ⟨s, hs, k, h₅, h₆, h₇, h₈⟩ := hb
  rcases h.apart hr hs with rfl | ⟨h₉, h₁₀⟩ | ⟨h₉, h₁₀⟩ <;> omega

/-- The order of entities in a model is kept. -/
theorem InOrder.precedes_eq (h : InOrder rs) {a b a' b' : Entity} (ha : Rewrites.Aligned rs a a')
    (hb : Rewrites.Aligned rs b b') (hka : a'.kind = a.kind) (hkb : b'.kind = b.kind) :
    a.precedes b = a'.precedes b' := by
  obtain ⟨hlt, heq⟩ := h.start_lt_iff ha hb
  unfold Entity.precedes
  rw [hka, hkb, decide_eq_decide.mpr hlt, Bool.beq_eq_decide_eq, Bool.beq_eq_decide_eq, decide_eq_decide.mpr heq]

end RewrittenToken

namespace Rewrites

open Extraction

variable {text updated : Text} {rs : List RewrittenToken} {name : Text → Text}

theorem inOrder (h : Rewrites text updated rs) : RewrittenToken.InOrder rs where
  old := by
    have := tokens_ordered text
    rwa [← h.old, List.pairwise_map] at this
  new := by
    have := (tokens_ordered updated).sublist h.new_sublist
    rwa [List.pairwise_map] at this

/-- An entity and the one that the new file declares in its place. A macro is one of what its directive has
become; all others are as they have been rewritten. -/
structure Corresponds (w : Rewriting) (rs : List RewrittenToken) (e e' : Entity) : Prop where
  aligned : Aligned rs e e'
  eq : w.EntityFollows (Token.code (rs.map (·.old))) e e' ∨
    ∃ r ∈ rs, r.old.kind = .directive ∧ IsMacroOf e r.old ∧ IsMacroOf e' r.new

theorem Corresponds.kind_eq {w : Rewriting} {e e' : Entity} (h : Corresponds w rs e e') :
    e'.kind = e.kind := by
  rcases h.eq with hfollows | ⟨r, -, -, hold, hnew⟩
  · rw [hfollows.eq]
  · rw [hold.kind, hnew.kind]

/-- What is no macro is as it has been rewritten. -/
theorem Corresponds.follows {w : Rewriting} {e e' : Entity} (h : Corresponds w rs e e') (hkind : e'.kind ≠ .macro_) :
    w.EntityFollows (Token.code (rs.map (·.old))) e e' :=
  h.eq.resolve_right fun ⟨_, _, _, _, hmacro⟩ => hkind hmacro.kind

/-- Different tokens become different ones. -/
theorem distinct (h : Rewrites text updated rs) {hname : IsRespelling name} {hrs : ∀ r ∈ rs, r.Respects name} :
    (Rewriting.ofList hname hrs).Distinct (Token.code (tokens text)) := by
  have token_eq : ∀ t ∈ Token.code (tokens text),
      ∃ r ∈ rs, r.old = t ∧ (Rewriting.ofList hname hrs).token t = r.new := by
    intro t ht
    obtain ⟨r, hr, rfl⟩ := h.exists_old (List.mem_filter.mp ht).1
    exact ⟨r, hr, rfl, Rewriting.token_old h.nodup hr⟩
  intro t ht u hu heq
  obtain ⟨r, hr, rfl, hnew⟩ := token_eq t ht
  obtain ⟨r', hr', rfl, hnew'⟩ := token_eq u hu
  rw [hnew, hnew'] at heq
  exact congrArg (·.old) (h.inOrder.eq_of_new_eq (fun r hr => start_lt_stop (h.new_mem hr)) hr hr' heq)

/-- Reading the code of the new file comes to the state that reading the code of the old one comes to. -/
theorem follows_readCode (h : Rewrites text updated rs) {hname : IsRespelling name}
    {hrs : ∀ r ∈ rs, r.Respects name}
    (hfits : (Rewriting.ofList hname hrs).Fits (Token.code (tokens text))) :
    Rewriting.Follows (.ofList hname hrs) (Token.code (tokens text)) (readCode (tokens text))
      (readCode (tokens updated)) := by
  have hcode := h.code_eq_code hname hrs
  have hstart := Rewriting.follows_initial (.ofList hname hrs) (Token.code (tokens text))
  rw [← hcode] at hstart
  rw [readCode, readCode, hcode]
  exact Rewriting.follows_run hstart h.distinct hfits (List.Subset.refl _)

/-- The entities that the code declares. -/
theorem exists_declared (h : Rewrites text updated rs) {hname : IsRespelling name}
    {hrs : ∀ r ∈ rs, r.Respects name}
    (hfits : (Rewriting.ofList hname hrs).Fits (Token.code (tokens text))) :
    ∃ pairs : List (Entity × Entity),
      pairs.map (·.1) = (readCode (tokens text)).entities.toList ∧
        pairs.map (·.2) = (readCode (tokens updated)).entities.toList ∧
        ∀ z ∈ pairs, Corresponds (.ofList hname hrs) rs z.1 z.2 := by
  obtain ⟨hlen, hall⟩ := List.forall₂_iff_zip.mp (h.follows_readCode hfits).entities
  refine ⟨_, List.map_fst_zip (Nat.le_of_eq hlen), List.map_snd_zip (Nat.le_of_eq hlen.symm), fun z hz => ?_⟩
  have hfollows := hall (a := z.1) (b := z.2) hz
  refine ⟨?_, Or.inl (h.old ▸ hfollows)⟩
  -- the name of the entity is a token of the code
  obtain ⟨declared, hdeclared, hdeclares⟩ :=
    declares_of_takes (takes_run (.initial (codeEnd (tokens text))) List.suffix_rfl)
  have hmem : z.1 ∈ declared := by
    have := (List.of_mem_zip (a := z.1) (b := z.2) hz).1
    rwa [readCode, hdeclared] at this
  obtain ⟨r, hr, htoken⟩ := h.exists_old (List.mem_filter.mp (hdeclares.token_mem hmem)).1
  have hnew : z.2.token = r.new := by
    rw [← @Rewriting.token_old name rs hname hrs h.nodup r hr, htoken, hfollows.eq]
  have hold := start_lt_stop (h.old_mem hr)
  have hnew' := start_lt_stop (h.new_mem hr)
  exact ⟨r, hr, 0, by rw [Entity.start, htoken]; rfl, by rw [Entity.start, hnew]; rfl,
    by rw [Entity.start, ← htoken]; exact hold, by rw [Entity.start, hnew]; exact hnew'⟩

/-- The macros that some directives define. -/
theorem exists_macros (h : Rewrites text updated rs) {hname : IsRespelling name}
    {hrs : ∀ r ∈ rs, r.Respects name} {us : List RewrittenToken} (hus : ∀ r ∈ us, r ∈ rs)
    (hdirectives : ∀ r ∈ us, r.old.kind = .directive) :
    ∃ pairs : List (Entity × Entity),
      pairs.map (·.1) = (us.map (·.old)).filterMap macro? ∧
        pairs.map (·.2) = (us.map (·.new)).filterMap macro? ∧
        ∀ z ∈ pairs, Corresponds (.ofList hname hrs) rs z.1 z.2 := by
  induction us with
  | nil => exact ⟨[], rfl, rfl, by simp⟩
  | cons r us ih =>
    rw [List.forall_mem_cons] at hus hdirectives
    obtain ⟨pairs, hfst, hsnd, hpairs⟩ := ih hus.2 hdirectives.2
    have htext : r.new.text = r.old.text := (hrs r hus.1).text_other (by rw [hdirectives.1]; simp)
    rw [List.map_cons, List.map_cons, List.filterMap_cons, List.filterMap_cons]
    cases hold : macro? r.old with
    | none =>
      have hnew : macro? r.new = none := by
        rw [macro?, Option.map_eq_none_iff] at hold ⊢
        rwa [htext]
      rw [hnew]
      exact ⟨pairs, hfst, hsnd, hpairs⟩
    | some e =>
      obtain ⟨e', hnew⟩ : ∃ e', macro? r.new = some e' := by
        obtain ⟨⟨lead, name⟩, hdefined, -⟩ := Option.map_eq_some_iff.mp hold
        exact ⟨_, by rw [macro?, htext, hdefined, Option.map_some]⟩
      obtain ⟨lead, hdefined, hstart, -⟩ := (isMacroOf_of_eq_some hold).defined
      obtain ⟨lead', hdefined', hstart', -⟩ := (isMacroOf_of_eq_some hnew).defined
      rw [htext, hdefined] at hdefined'
      obtain ⟨rfl, -⟩ := Prod.mk.inj (Option.some.inj hdefined')
      -- the name stands within its directive
      obtain ⟨-, hlen, hne⟩ := NamingRule.mem_wordsFrom_of_definedName hdefined
      have hpos := List.length_pos_iff.mpr hne
      obtain ⟨_, _, -, -, hstop⟩ := exists_piece_of_mem_tokens (h.old_mem hus.1)
      obtain ⟨_, _, -, -, hstop'⟩ := exists_piece_of_mem_tokens (h.new_mem hus.1)
      rw [htext] at hstop'
      refine ⟨(e, e') :: pairs, ?_, ?_, ?_⟩
      · rw [List.map_cons, hfst]
      · rw [hnew, List.map_cons, hsnd]
      · rw [List.forall_mem_cons]
        refine ⟨⟨⟨r, hus.1, lead.length, hstart, hstart', ?_, ?_⟩,
          Or.inr ⟨r, hus.1, hdirectives.1, isMacroOf_of_eq_some hold, isMacroOf_of_eq_some hnew⟩⟩, hpairs⟩
        · show e.token.start < _
          omega
        · show e'.token.start < _
          omega

/-- The new file declares what the old one declares, entity by entity. -/
theorem exists_pairs (h : Rewrites text updated rs) {hname : IsRespelling name}
    {hrs : ∀ r ∈ rs, r.Respects name}
    (hfits : (Rewriting.ofList hname hrs).Fits (Token.code (tokens text))) :
    ∃ pairs : List (Entity × Entity),
      pairs.map (·.1) = (extract (tokens text)).entities ∧
        pairs.map (·.2) = (extract (tokens updated)).entities ∧
        ∀ z ∈ pairs, Corresponds (.ofList hname hrs) rs z.1 z.2 := by
  obtain ⟨declared, hold, hnew, hdeclared⟩ := h.exists_declared hfits
  obtain ⟨macros, hmacrosOld, hmacrosNew, hmacros⟩ := @exists_macros text updated rs name h hname hrs
    (rs.filter (·.old.isDirective)) (fun r hr => (List.mem_filter.mp hr).1) fun r hr => by
      simpa [Token.isDirective] using (List.mem_filter.mp hr).2
  have hall : ∀ z ∈ declared ++ macros, Corresponds (.ofList hname hrs) rs z.1 z.2 := fun z hz =>
    (List.mem_append.mp hz).elim (hdeclared z) (hmacros z)
  have hdirectives : (tokens text).filter (·.isDirective) = (rs.filter (·.old.isDirective)).map (·.old) := by
    rw [← h.old, List.filter_map]
    rfl
  -- the pairs are sorted by either side alike
  refine ⟨(declared ++ macros).mergeSort fun a b => a.1.precedes b.1, ?_, ?_, fun z hz => ?_⟩
  · rw [List.map_mergeSort (s := Entity.precedes) (fun _ _ _ _ => rfl), List.map_append, hold, hmacrosOld,
      extract_eq, (ofTokens_eq _).1, hdirectives]
  · rw [List.map_mergeSort (s := Entity.precedes), List.map_append, hnew, hmacrosNew, extract_eq,
      (ofTokens_eq _).1, h.macros_eq hrs]
    intro a ha b hb
    exact h.inOrder.precedes_eq (hall a ha).aligned (hall b hb).aligned (hall a ha).kind_eq (hall b hb).kind_eq
  · exact hall z (List.mem_mergeSort.mp hz)

/-- An entity of the new file that is no macro is what one of the old file has been rewritten to. -/
theorem exists_old_entity (h : Rewrites text updated rs) {hname : IsRespelling name}
    {hrs : ∀ r ∈ rs, r.Respects name}
    (hfits : (Rewriting.ofList hname hrs).Fits (Token.code (tokens text))) {e' : Entity}
    (he' : e' ∈ (extract (tokens updated)).entities) (hkind : e'.kind ≠ .macro_) :
    ∃ e ∈ (extract (tokens text)).entities,
      (Rewriting.ofList hname hrs).EntityFollows (Token.code (tokens text)) e e' := by
  obtain ⟨pairs, hold, hnew, hpairs⟩ := h.exists_pairs hfits
  rw [← hnew] at he'
  obtain ⟨z, hz, rfl⟩ := List.mem_map.mp he'
  exact ⟨z.1, hold ▸ List.mem_map_of_mem hz, h.old ▸ (hpairs z hz).follows hkind⟩

/-- An entity of the old file that is no macro has been rewritten to one of the new file. -/
theorem exists_new_entity (h : Rewrites text updated rs) {hname : IsRespelling name}
    {hrs : ∀ r ∈ rs, r.Respects name}
    (hfits : (Rewriting.ofList hname hrs).Fits (Token.code (tokens text))) {e : Entity}
    (he : e ∈ (extract (tokens text)).entities) (hkind : e.kind ≠ .macro_) :
    ∃ e' ∈ (extract (tokens updated)).entities,
      (Rewriting.ofList hname hrs).EntityFollows (Token.code (tokens text)) e e' := by
  obtain ⟨pairs, hold, hnew, hpairs⟩ := h.exists_pairs hfits
  rw [← hold] at he
  obtain ⟨z, hz, rfl⟩ := List.mem_map.mp he
  rw [← (hpairs z hz).kind_eq] at hkind
  exact ⟨z.2, hnew ▸ List.mem_map_of_mem hz, h.old ▸ (hpairs z hz).follows hkind⟩

/-- The new file declares the same kinds of entities. -/
theorem entityKinds_eq (h : Rewrites text updated rs) {hname : IsRespelling name}
    {hrs : ∀ r ∈ rs, r.Respects name}
    (hfits : (Rewriting.ofList hname hrs).Fits (Token.code (tokens text))) :
    entityKinds updated = entityKinds text := by
  obtain ⟨pairs, hold, hnew, hpairs⟩ := h.exists_pairs hfits
  rw [entityKinds, entityKinds, ← hold, ← hnew, List.map_map, List.map_map]
  exact List.map_congr_left fun z hz => (hpairs z hz).kind_eq

/-- When all scopes have ended, those of the new file follow those of the old one. -/
theorem exists_follows (h : Rewrites text updated rs) {hname : IsRespelling name}
    {hrs : ∀ r ∈ rs, r.Respects name}
    (hfits : (Rewriting.ofList hname hrs).Fits (Token.code (tokens text))) :
    ∃ x y, Rewriting.Follows (.ofList hname hrs) (Token.code (tokens text)) x y ∧ x.opened = [] ∧
      x.scopes = (extract (tokens text)).scopes ∧ y.scopes = (extract (tokens updated)).scopes := by
  have hnone : Token.code (tokens text) = [] → (readCode (tokens text)).opened = [] := fun hcode => by
    unfold readCode
    rw [hcode, run]
    rfl
  have hend := (h.follows_readCode hfits).endOpened hnone
  rw [← h.code_eq_code hname hrs] at hend
  refine ⟨_, _, hend, rfl, ?_, ?_⟩
  all_goals
    rw [extract_eq]
    exact (ofTokens_eq _).2.symm

/-- Scopes stay what they are. -/
theorem scopes_eq (h : Rewrites text updated rs) {hname : IsRespelling name}
    {hrs : ∀ r ∈ rs, r.Respects name}
    (hfits : (Rewriting.ofList hname hrs).Fits (Token.code (tokens text))) :
    (extract (tokens updated)).scopes.map Scope.bare =
      (extract (tokens text)).scopes.map (Rewriting.ofList hname hrs).scope := by
  obtain ⟨x, y, hfollows, -, hx, hy⟩ := h.exists_follows hfits
  rw [← hx, ← hy]
  exact hfollows.scopes_bare

end Rewrites

end HouseStyle
