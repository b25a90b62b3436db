import HouseStyle.Proofs.Rewriting
import HouseStyle.Proofs.RewrittenText
import HouseStyle.Proofs.SameUpToNames
import HouseStyle.Proofs.TokenPlaces

/-!
# Tokens and what becomes of them

A text and the text it is rewritten to are cut side by side: every token stands beside what it becomes and
the `class` that is put in behind it (`Piece.tokensFrom`). Such a list, together with what is done to names,
is a `Rewriting` (`Rewriting.ofList`).

Names are exchanged and not only replaced: the new spelling of a name would be spelled as the old one
(`Edit.RenameAll.exchanged`). No name of the text is a new spelling, so this makes no difference there, and
whatever names are, only two old ones can become one (`Edit.RenameAll.Exchangeable.eq_of_exchanged_eq`).
-/

namespace HouseStyle

/-- A token, what it becomes, and what is put in behind it. -/
structure RewrittenToken where
  old : Token
  new : Token
  behind : Option Token

namespace RewrittenToken

/-- The tokens that stand in the place of one. -/
def written (r : RewrittenToken) : List Token := r.new :: r.behind.toList

/-- Only names are written in another way, and only `class` behind an `enum` is put in. -/
structure Respects (name : Text → Text) (r : RewrittenToken) : Prop where
  kind : r.new.kind = r.old.kind
  text_name : r.old.kind = .identifier → r.new.text = name r.old.text
  text_other : r.old.kind ≠ .identifier → r.new.text = r.old.text
  kind_of_behind : r.behind.isSome = true → r.old.kind = .keyword .enumKw
  kind_behind : ∀ t, r.behind = some t → t.kind = .keyword .classKw

end RewrittenToken

namespace Piece

variable {ρ : Renaming} {scopesAt : Nat → Bool}

/-- The tokens of some pieces at a place, each beside what it becomes when the pieces are rewritten and
stand at another place. -/
def tokensFrom (ρ : Renaming) (scopesAt : Nat → Bool) (p q : Place) : List Piece → List RewrittenToken
  | [] => []
  | .gap t :: ps => tokensFrom ρ scopesAt (p.past t) (q.past t) ps
  | .lexeme kind t :: ps =>
    let after := q.past (ρ.piece (.lexeme kind t)).text
    let put := behind scopesAt (p.past t).offset (.lexeme kind t)
    ⟨tokenAt p kind t, tokenAt q kind (ρ.piece (.lexeme kind t)).text, (place after put).head?⟩ ::
      tokensFrom ρ scopesAt (p.past t) (after.past (join put)) ps

theorem map_old_tokensFrom (p q : Place) (ps : List Piece) :
    (tokensFrom ρ scopesAt p q ps).map (·.old) = place p ps := by
  induction ps generalizing p q with
  | nil => rfl
  | cons piece ps ih =>
    cases piece with
    | gap t => exact ih _ _
    | lexeme kind t =>
      rw [tokensFrom, List.map_cons, ih]
      rfl

/-- A piece is rewritten to one of the same kind. -/
theorem piece_lexeme_eq (kind : TokenKind) (t : Text) :
    ρ.piece (.lexeme kind t) = .lexeme kind (ρ.piece (.lexeme kind t)).text := by
  cases kind <;> rfl

/-- At most one token is put in. -/
theorem head_place_behind (p : Place) (stop : Nat) (piece : Piece) :
    (place p (behind scopesAt stop piece)).head?.toList = place p (behind scopesAt stop piece) := by
  unfold behind
  split
  · split <;> rfl
  · rfl

/-- The tokens that come out of rewriting are those of the rewritten pieces. -/
theorem written_tokensFrom (p q : Place) (ps : List Piece) :
    (tokensFrom ρ scopesAt p q ps).flatMap (·.written) = place q (rewriteFrom ρ scopesAt p.offset ps) := by
  induction ps generalizing p q with
  | nil => rfl
  | cons piece ps ih =>
    cases piece with
    | gap t =>
      rw [tokensFrom, ih, offset_past]
      rfl
    | lexeme kind t =>
      rw [tokensFrom, List.flatMap_cons, ih, rewriteFrom, piece_lexeme_eq, place_lexeme, place_append,
        ← offset_past, RewrittenToken.written, head_place_behind]
      rfl

theorem behind_lexeme (stop : Nat) (kind : TokenKind) (t : Text) :
    behind scopesAt stop (.lexeme kind t) =
      if kind = .keyword .enumKw ∧ scopesAt stop = true then classPieces else [] := by
  by_cases hkind : kind = .keyword .enumKw
  · subst hkind
    simp [behind]
  · rw [if_neg fun h => hkind h.1]
    unfold behind
    split
    next heq => exact absurd (Piece.lexeme.inj heq).1 hkind
    next => rfl

/-- What becomes of the first token. -/
theorem respects_first {name : Text → Text} {kind : TokenKind} {t : Text}
    (hname : kind = .identifier → name t = ρ.apply t) (p q after : Place) :
    let r : RewrittenToken := ⟨tokenAt p kind t, tokenAt q kind (ρ.piece (.lexeme kind t)).text,
      (place after (behind scopesAt (p.past t).offset (.lexeme kind t))).head?⟩
    r.Respects name ∧
      (r.behind.isSome = true ↔ r.old.kind = .keyword .enumKw ∧ scopesAt r.old.stop = true) := by
  intro r
  have hbehind : r.behind.isSome = true ↔ r.old.kind = .keyword .enumKw ∧ scopesAt r.old.stop = true := by
    show (place after (behind _ _ _)).head?.isSome = true ↔
      kind = .keyword .enumKw ∧ scopesAt (p.past t).offset = true
    rw [behind_lexeme]
    split
    next h => exact ⟨fun _ => h, fun _ => rfl⟩
    next h => exact ⟨fun hs => absurd hs (by simp [place]), fun h' => absurd h' h⟩
  refine ⟨⟨rfl, fun hkind => ?_, fun hkind => ?_, fun hs => (hbehind.mp hs).1, fun u hu => ?_⟩, hbehind⟩
  · change kind = .identifier at hkind
    subst hkind
    exact (hname rfl).symm
  · show (ρ.piece (.lexeme kind t)).text = t
    rw [ρ.piece_lexeme (by exact hkind)]
    rfl
  · change (place after (behind _ _ _)).head? = some u at hu
    rw [behind_lexeme] at hu
    split at hu
    · obtain rfl := Option.some.inj hu
      rfl
    · exact absurd hu (by simp [place])

/-- What becomes of the tokens of some pieces. -/
theorem respects_of_mem_tokensFrom {name : Text → Text} {p q : Place} {ps : List Piece}
    (hname : ∀ s, .lexeme .identifier s ∈ ps → name s = ρ.apply s) {r : RewrittenToken}
    (hr : r ∈ tokensFrom ρ scopesAt p q ps) :
    r.Respects name ∧
      (r.behind.isSome = true ↔ r.old.kind = .keyword .enumKw ∧ scopesAt r.old.stop = true) := by
  induction ps generalizing p q with
  | nil => exact absurd hr (by simp [tokensFrom])
  | cons piece ps ih =>
    have hrest : ∀ s, .lexeme .identifier s ∈ ps → name s = ρ.apply s := fun s hs =>
      hname s (List.mem_cons_of_mem _ hs)
    cases piece with
    | gap t => exact ih hrest hr
    | lexeme kind t =>
      rcases List.mem_cons.mp hr with rfl | hr
      · refine respects_first (fun hkind => hname t ?_) p q _
        rw [hkind]
        exact List.mem_cons_self
      · exact ih hrest hr

/-- A name has no line feeds, whatever it is renamed to. -/
theorem count_newline_piece {kind : TokenKind} {t : Text} (hname : kind = .identifier → Lexeme.IsName t) :
    (ρ.piece (.lexeme kind t)).text.count (.scalar '\n') = t.count (.scalar '\n') := by
  rcases ρ.piece_cases (.lexeme kind t) with ⟨name, new, heq, hnew⟩ | heq
  · obtain ⟨rfl, rfl⟩ := Piece.lexeme.inj heq
    rw [Renaming.piece_identifier, Renaming.apply_of_some hnew]
    show new.count _ = t.count _
    rw [List.count_eq_zero.mpr (ρ.isName_new hnew).lineFeed_not_mem,
      List.count_eq_zero.mpr (hname rfl).lineFeed_not_mem]
  · rw [heq]
    rfl

/-- What the tokens become stands as many lines further down as the first one does. -/
theorem line_of_mem_tokensFrom {p q : Place} {n : Nat} {ps : List Piece} (hline : q.line = p.line + n)
    (hnames : ∀ s, .lexeme .identifier s ∈ ps → Lexeme.IsName s) {r : RewrittenToken}
    (hr : r ∈ tokensFrom ρ scopesAt p q ps) :
    r.new.line = r.old.line + n ∧ r.new.endLine = r.old.endLine + n := by
  induction ps generalizing p q with
  | nil => exact absurd hr (by simp [tokensFrom])
  | cons piece ps ih =>
    have hrest : ∀ s, .lexeme .identifier s ∈ ps → Lexeme.IsName s := fun s hs =>
      hnames s (List.mem_cons_of_mem _ hs)
    cases piece with
    | gap t =>
      refine ih ?_ hrest hr
      rw [Place.line_past, Place.line_past, hline]
      omega
    | lexeme kind t =>
      have hend : (q.past (ρ.piece (.lexeme kind t)).text).line = (p.past t).line + n := by
        rw [Place.line_past, Place.line_past, hline, count_newline_piece fun hkind => hnames t (by simp [hkind])]
        omega
      rcases List.mem_cons.mp hr with rfl | hr
      · exact ⟨hline, hend⟩
      · refine ih ?_ hrest hr
        have hput : (join (behind scopesAt (p.past t).offset (.lexeme kind t))).count (.scalar '\n') = 0 := by
          rw [behind_lexeme]
          split <;> decide
        rw [Place.line_past, hput, hend, Nat.add_zero]

end Piece

/-! ## The rewriting of a list -/

/-- How far tokens are moved down: comments in front of a place not at all, and all others by some lines. -/
structure RewrittenToken.MovesDown (rs : List RewrittenToken) (place n : Nat) : Prop where
  above : ∀ r ∈ rs, r.old.start < place → r.new = r.old ∧ (r.old.kind = .comment ∨ r.old.kind = .unknown)
  below : ∀ r ∈ rs, place ≤ r.old.start → r.new.line = r.old.line + n ∧ r.new.endLine = r.old.endLine + n

namespace RewrittenToken

variable {name : Text → Text} {rs : List RewrittenToken}

/-- What a token becomes. -/
def token (name : Text → Text) (rs : List RewrittenToken) (t : Token) : Token :=
  match rs.find? (·.old == t) with
  | some r => r.new
  | none => if t.kind = .identifier then { t with text := name t.text } else t

/-- What is put in behind a token. -/
def put? (rs : List RewrittenToken) (t : Token) : Option Token := (rs.find? (·.old == t)).bind (·.behind)

theorem find_eq_some {r : RewrittenToken} {t : Token} (h : rs.find? (·.old == t) = some r) :
    r ∈ rs ∧ r.old = t :=
  ⟨List.mem_of_find?_eq_some h, by simpa using List.find?_some h⟩

/-- A token of the list is found where it is. -/
theorem find_old (hnodup : (rs.map (·.old)).Nodup) {r : RewrittenToken} (hr : r ∈ rs) :
    rs.find? (·.old == r.old) = some r := by
  induction rs with
  | nil => exact absurd hr (by simp)
  | cons a rs ih =>
    rw [List.map_cons, List.nodup_cons] at hnodup
    rcases List.mem_cons.mp hr with rfl | hr
    · simp
    · have hne : a.old ≠ r.old := fun h => hnodup.1 (h ▸ List.mem_map_of_mem hr)
      rw [List.find?_cons_of_neg (by simpa using hne), ih hnodup.2 hr]

theorem put_eq_some (h : ∀ r ∈ rs, r.Respects name) {t u : Token} (hput : put? rs t = some u) :
    t.kind = .keyword .enumKw ∧ u.kind = .keyword .classKw := by
  obtain ⟨r, hr, hbehind⟩ := Option.bind_eq_some_iff.mp hput
  obtain ⟨hmem, rfl⟩ := find_eq_some hr
  exact ⟨(h r hmem).kind_of_behind (by rw [hbehind]; rfl), (h r hmem).kind_behind u hbehind⟩

end RewrittenToken

/-- What is done to names: a tilde stays in front, and the words with a meaning of their own stay as they are and
apart from all other names. -/
structure IsRespelling (name : Text → Text) : Prop where
  tilde : ∀ s, name (.scalar '~' :: s) = .scalar '~' :: name s
  tilde_of : ∀ s, (name s).head? = some (.scalar '~') → s.head? = some (.scalar '~')
  contextual : ∀ s, ∀ word ∈ contextualWords, name s = Text.ofString word ↔ s = Text.ofString word

namespace Rewriting

open RewrittenToken

/-- The rewriting that a list of tokens shows. -/
def ofList {name : Text → Text} {rs : List RewrittenToken} (hname : IsRespelling name)
    (h : ∀ r ∈ rs, r.Respects name) : Rewriting where
  token := RewrittenToken.token name rs
  name := name
  scopes t := (put? rs t).isSome
  inserted t := (put? rs t).getD { t with kind := .keyword .classKw }
  kind_token t := by
    unfold RewrittenToken.token
    split
    next r hr =>
      obtain ⟨hmem, rfl⟩ := find_eq_some hr
      exact (h r hmem).kind
    next => split <;> rfl
  text_name t hkind := by
    unfold RewrittenToken.token
    split
    next r hr =>
      obtain ⟨hmem, rfl⟩ := find_eq_some hr
      exact (h r hmem).text_name hkind
    next => rw [if_pos hkind]
  quoted_token t hkind := by
    have hother : t.kind ≠ .identifier := by
      rw [hkind]
      simp
    unfold RewrittenToken.token
    split
    next r hr =>
      obtain ⟨hmem, rfl⟩ := find_eq_some hr
      rw [(h r hmem).text_other hother]
    next => rw [if_neg hother]
  kind_of_scopes t hs := by
    obtain ⟨u, hu⟩ := Option.isSome_iff_exists.mp hs
    exact (put_eq_some h hu).1
  kind_inserted t := by
    cases hput : put? rs t with
    | none => rfl
    | some u => exact (put_eq_some h hput).2
  name_tilde := hname.tilde
  tilde_of_name := hname.tilde_of
  name_contextual := hname.contextual

variable {name : Text → Text} {rs : List RewrittenToken} {hname : IsRespelling name}
  {h : ∀ r ∈ rs, r.Respects name}

theorem token_old (hnodup : (rs.map (·.old)).Nodup) {r : RewrittenToken} (hr : r ∈ rs) :
    (ofList hname h).token r.old = r.new := by
  show RewrittenToken.token name rs r.old = r.new
  rw [RewrittenToken.token, find_old hnodup hr]

theorem scopes_old (hnodup : (rs.map (·.old)).Nodup) {r : RewrittenToken} (hr : r ∈ rs) :
    (ofList hname h).scopes r.old = r.behind.isSome := by
  show (put? rs r.old).isSome = r.behind.isSome
  rw [put?, find_old hnodup hr]
  rfl

/-- Rewriting some of the tokens gives what they become. -/
theorem code_map_old (hnodup : (rs.map (·.old)).Nodup) {us : List RewrittenToken} (hus : ∀ r ∈ us, r ∈ rs) :
    (ofList hname h).code (us.map (·.old)) = us.flatMap (·.written) := by
  induction us with
  | nil => rfl
  | cons r us ih =>
    rw [List.forall_mem_cons] at hus
    rw [List.map_cons, code_cons, ih hus.2, token_old hnodup hus.1, behind, scopes_old hnodup hus.1,
      List.flatMap_cons, written]
    cases hbehind : r.behind with
    | none => rfl
    | some u =>
      have hinserted : (ofList hname h).inserted r.old = u := by
        show (put? rs r.old).getD _ = u
        rw [put?, find_old hnodup hus.1, Option.bind_some, hbehind]
        rfl
      rw [hinserted]
      rfl

end Rewriting

/-! ## Names that are exchanged -/

/-- A change of names, carried out behind the tildes in front. -/
def behindTildes (change : Text → Text) : Text → Text
  | [] => change []
  | g :: t => if g = .scalar '~' then g :: behindTildes change t else change (g :: t)

theorem behindTildes_of_ne {change : Text → Text} {t : Text} (h : t.head? ≠ some (.scalar '~')) :
    behindTildes change t = change t := by
  cases t with
  | nil => rfl
  | cons g t => rw [behindTildes, if_neg fun hg => h (congrArg some hg)]

/-- A change that neither takes nor makes tildes respells names, if it keeps the words with a meaning of their own
apart from all other names. -/
theorem isRespelling_behindTildes {change : Text → Text}
    (htilde : ∀ t, (change t).head? = some (.scalar '~') ↔ t.head? = some (.scalar '~'))
    (hcontextual : ∀ s, ∀ word ∈ contextualWords, change s = Text.ofString word ↔ s = Text.ofString word) :
    IsRespelling (behindTildes change) where
  tilde s := by rw [behindTildes, if_pos rfl]
  tilde_of s hs := by
    refine Classical.byContradiction fun hne => hne ?_
    rw [behindTildes_of_ne hne] at hs
    exact (htilde s).mp hs
  contextual s word hword := by
    have hplain : ∀ word ∈ contextualWords, (Text.ofString word).head? ≠ some (.scalar '~') := by decide
    by_cases hs : s.head? = some (.scalar '~')
    · obtain ⟨s, rfl⟩ := List.head?_eq_some_iff.mp hs
      rw [behindTildes, if_pos rfl]
      refine iff_of_false (fun heq => ?_) fun heq => ?_
      all_goals exact hplain word hword (by rw [← heq]; rfl)
    · rw [behindTildes_of_ne hs]
      exact hcontextual s word hword

/-- A name without tildes that stays apart from others does so behind tildes. -/
theorem eq_of_behindTildes_eq {change : Text → Text}
    (htilde : ∀ t, (change t).head? = some (.scalar '~') ↔ t.head? = some (.scalar '~')) {s t : Text}
    (hs : s.head? ≠ some (.scalar '~')) (hapart : ∀ t, change s = change t → s = t)
    (heq : behindTildes change s = behindTildes change t) : s = t := by
  rw [behindTildes_of_ne hs] at heq
  by_cases ht : t.head? = some (.scalar '~')
  · -- the tilde would have been made
    obtain ⟨t, rfl⟩ := List.head?_eq_some_iff.mp ht
    rw [behindTildes, if_pos rfl] at heq
    exact absurd ((htilde s).mp (by rw [heq]; rfl)) hs
  · rw [behindTildes_of_ne ht] at heq
    exact hapart t heq

theorem injective_behindTildes {change : Text → Text} (hinjective : Function.Injective change)
    (htilde : ∀ t, (change t).head? = some (.scalar '~') ↔ t.head? = some (.scalar '~')) :
    Function.Injective (behindTildes change) := by
  intro s
  induction s with
  | nil => exact fun t heq => eq_of_behindTildes_eq htilde (by simp) (fun t h => hinjective h) heq
  | cons g s ih =>
    intro t heq
    by_cases hg : g = .scalar '~'
    · subst hg
      by_cases ht : t.head? = some (.scalar '~')
      · obtain ⟨t, rfl⟩ := List.head?_eq_some_iff.mp ht
        rw [behindTildes, behindTildes, if_pos rfl] at heq
        rw [ih (List.cons.inj heq).2]
      · rw [behindTildes, if_pos rfl, behindTildes_of_ne ht] at heq
        exact absurd ((htilde t).mp (by rw [← heq]; rfl)) ht
    · exact eq_of_behindTildes_eq htilde (by simpa using hg) (fun t h => hinjective h) heq

namespace Edit.RenameAll

variable {source : Text} {edits : List Edit}

/-- The name that a batch gives a new spelling. -/
def oldName (source : Text) (edits : List Edit) (new : Text) : Option Text :=
  (edits.find? (·.replacement == new)).map (·.replaced source)

/-- A name after the old and the new spellings of a batch have been exchanged. -/
def exchanged (source : Text) (edits : List Edit) (name : Text) : Text :=
  match newName source edits name with
  | some new => new
  | none => (oldName source edits name).getD name

theorem oldName_eq_some {name new : Text} (h : oldName source edits new = some name) :
    ∃ e ∈ edits, e.replaced source = name ∧ e.replacement = new := by
  obtain ⟨e, he, rfl⟩ := Option.map_eq_some_iff.mp h
  exact ⟨e, List.mem_of_find?_eq_some he, rfl, by simpa using List.find?_some he⟩

/-- How a name is exchanged: it is an old one, a new one, or none of them. -/
theorem exchanged_cases (h : RenameAll source edits) (name : Text) :
    (∃ e ∈ edits, name = e.replaced source ∧ exchanged source edits name = e.replacement) ∨
      (∃ e ∈ edits, name = e.replacement ∧ exchanged source edits name = e.replaced source) ∨
      ((∀ e ∈ edits, name ≠ e.replaced source) ∧ (∀ e ∈ edits, name ≠ e.replacement) ∧
        exchanged source edits name = name) := by
  unfold exchanged
  cases hnew : newName source edits name with
  | some new =>
    obtain ⟨e, he, rfl, rfl⟩ := h.newName_eq_some_iff.mp hnew
    exact Or.inl ⟨e, he, rfl, rfl⟩
  | none =>
    right
    cases hold : oldName source edits name with
    | some old =>
      obtain ⟨e, he, rfl, rfl⟩ := oldName_eq_some hold
      exact Or.inl ⟨e, he, rfl, rfl⟩
    | none =>
      refine Or.inr ⟨fun e he heq => ?_, fun e he heq => ?_, rfl⟩
      · rw [h.newName_eq_some_iff.mpr ⟨e, he, heq.symm, rfl⟩] at hnew
        exact absurd hnew (by simp)
      · unfold oldName at hold
        rw [Option.map_eq_none_iff, List.find?_eq_none] at hold
        exact hold e he (by rw [heq, beq_self_eq_true])

/-- A batch where no new name is in use. -/
structure Exchangeable (source : Text) (edits : List Edit) : Prop extends RenameAll source edits where
  fresh : ∀ e ∈ edits, ∀ t ∈ tokens source, t.kind = .identifier → t.text ≠ e.replacement

namespace Exchangeable

theorem replacement_ne (h : Exchangeable source edits) {a b : Edit} (ha : a ∈ edits) (hb : b ∈ edits) :
    a.replacement ≠ b.replaced source := by
  obtain ⟨t, ht, hkind, heq, -⟩ := h.edits_token b hb
  rw [heq, replaced_renameTo ht]
  exact fun hsame => h.fresh a ha t ht hkind hsame.symm

/-- Only two old names can become one. -/
theorem eq_of_exchanged_eq (h : Exchangeable source edits) {s t : Text}
    (hmerge : ∀ a ∈ edits, ∀ b ∈ edits, a.replaced source = s → a.replacement = b.replacement →
      a.replaced source = b.replaced source)
    (heq : exchanged source edits s = exchanged source edits t) : s = t := by
  rcases exchanged_cases h.toRenameAll s with ⟨a, ha, hs, hs'⟩ | ⟨a, ha, hs, hs'⟩ | ⟨hold, hnew, hs'⟩ <;>
    rcases exchanged_cases h.toRenameAll t with ⟨b, hb, ht, ht'⟩ | ⟨b, hb, ht, ht'⟩ | ⟨hold', hnew', ht'⟩ <;>
    rw [hs', ht'] at heq
  · rw [hs, ht]
    exact hmerge a ha b hb hs.symm heq
  · exact absurd heq (h.replacement_ne ha hb)
  · exact absurd heq.symm (hnew' a ha)
  · exact absurd heq.symm (h.replacement_ne hb ha)
  · rw [hs, ht]
    exact h.toRenameAll.replacement_unique ha hb heq
  · exact absurd heq.symm (hold' a ha)
  · exact absurd heq (hnew b hb)
  · exact absurd heq (hold b hb)
  · exact heq

/-- No name of the batch starts with a tilde. -/
theorem no_tilde (h : Exchangeable source edits) {e : Edit} (he : e ∈ edits) :
    (e.replaced source).head? ≠ some (.scalar '~') ∧ e.replacement.head? ≠ some (.scalar '~') := by
  have hword : ∀ {t : Text}, Lexeme.StartsWord t → t.head? ≠ some (.scalar '~') := by
    rintro t ⟨g, more, rfl, hg⟩ heq
    exact Lexeme.ne_of_opensWord hg (by decide) (Option.some.inj heq)
  obtain ⟨t, ht, -, heq, hstart⟩ := h.edits_token e he
  refine ⟨?_, hword (h.isName e he).1⟩
  rw [heq, replaced_renameTo ht]
  exact hword hstart

theorem head_exchanged (h : Exchangeable source edits) (t : Text) :
    (exchanged source edits t).head? = some (.scalar '~') ↔ t.head? = some (.scalar '~') := by
  rcases exchanged_cases h.toRenameAll t with ⟨e, he, rfl, heq⟩ | ⟨e, he, rfl, heq⟩ | ⟨-, -, heq⟩
  · rw [heq]
    exact iff_of_false (h.no_tilde he).2 (h.no_tilde he).1
  · rw [heq]
    exact iff_of_false (h.no_tilde he).1 (h.no_tilde he).2
  · rw [heq]

/-- What the batch does to names. -/
theorem isRespelling (h : Exchangeable source edits)
    (hwords : ∀ e ∈ edits, ∀ word ∈ contextualWords,
      e.replaced source ≠ Text.ofString word ∧ e.replacement ≠ Text.ofString word) :
    IsRespelling (behindTildes (exchanged source edits)) := by
  refine isRespelling_behindTildes h.head_exchanged fun s word hword => ?_
  rcases exchanged_cases h.toRenameAll s with ⟨e, he, rfl, heq⟩ | ⟨e, he, rfl, heq⟩ | ⟨-, -, heq⟩
  · rw [heq]
    exact iff_of_false (hwords e he word hword).2 (hwords e he word hword).1
  · rw [heq]
    exact iff_of_false (hwords e he word hword).1 (hwords e he word hword).2
  · rw [heq]

/-- The names of the text are spelled as the batch spells them. -/
theorem name_eq_apply (h : Exchangeable source edits) {t : Token} (ht : t ∈ tokens source)
    (hkind : t.kind = .identifier) :
    behindTildes (exchanged source edits) t.text = h.toRenaming.apply t.text := by
  rw [behindTildes_of_ne (isName_text ht hkind).head_ne_tilde]
  rcases exchanged_cases h.toRenameAll t.text with ⟨e, he, hname, heq⟩ | ⟨e, he, hname, -⟩ |
    ⟨hnone, -, heq⟩
  · rw [heq, hname, h.apply_eq_of_mem he]
  · exact absurd hname (h.fresh e he t ht hkind)
  · rw [heq, Renaming.apply_of_none]
    refine Option.eq_none_iff_forall_ne_some.mpr fun new hnew => ?_
    obtain ⟨e, he, hname, -⟩ := h.newName_eq_some_iff.mp hnew
    exact hnone e he hname.symm

end Exchangeable

end Edit.RenameAll

end HouseStyle
