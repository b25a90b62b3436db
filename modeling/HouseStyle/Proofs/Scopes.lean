import HouseStyle.Proofs.Provenance

/-!
# Names stand in their scopes

The offsets of scopes and entities, as they are while a file is read. What has been read ends at some
offset, and every scope has started before it; a scope that has been left encloses the names that were
declared in it, and one that is still open will end later (`Extraction.Placed`). The step lemma
`placed_of_takes` carries this along, and `token_within_scope` is what it comes to at the end of a
file: the name of an entity stands in the scope that the entity belongs to.

A namespace is the exception. Its name stands in front of its brace, and with `namespace a::b` the
scope of `b` starts at that brace.
-/

namespace HouseStyle

open List (Sublist)
open scoped List

/-! ## Tokens between two offsets -/

/-- Tokens one after another, from one offset on and up to another one. -/
def Between (start : Nat) : List Token → Nat → Prop
  | [], stop => start ≤ stop
  | t :: ts, stop => start ≤ t.start ∧ t.start < t.stop ∧ Between t.stop ts stop

namespace Between

variable {ts us : List Token} {start stop : Nat}

theorem start_le_stop (h : Between start ts stop) : start ≤ stop := by
  induction ts generalizing start with
  | nil => exact h
  | cons t ts ih =>
    obtain ⟨hstart, hpos, hrest⟩ := h
    have := ih hrest
    omega

theorem mem (h : Between start ts stop) {t : Token} (ht : t ∈ ts) :
    start ≤ t.start ∧ t.start < t.stop ∧ t.stop ≤ stop := by
  induction ts generalizing start with
  | nil => exact absurd ht (by simp)
  | cons u ts ih =>
    obtain ⟨hstart, hpos, hrest⟩ := h
    rcases List.mem_cons.mp ht with rfl | ht
    · exact ⟨hstart, hpos, hrest.start_le_stop⟩
    · obtain ⟨h₁, h₂, h₃⟩ := ih hrest ht
      exact ⟨by omega, h₂, h₃⟩

theorem of_le {start' : Nat} (h : Between start ts stop) (hle : start' ≤ start) :
    Between start' ts stop := by
  cases ts with
  | nil => exact Nat.le_trans hle h
  | cons t ts => exact ⟨Nat.le_trans hle h.1, h.2⟩

theorem sublist (h : Between start us stop) (hts : ts <+ us) : Between start ts stop := by
  induction hts generalizing start with
  | slnil => exact h
  | cons t _ ih => exact ih (h.2.2.of_le (by have := h.1; have := h.2.1; omega))
  | cons_cons t _ ih => exact ⟨h.1, h.2.1, ih h.2.2⟩

theorem append_iff : Between start (ts ++ us) stop ↔
    ∃ middle, Between start ts middle ∧ Between middle us stop := by
  induction ts generalizing start with
  | nil =>
    constructor
    · intro h
      exact ⟨start, Nat.le_refl start, h⟩
    · rintro ⟨middle, hle, h⟩
      exact h.of_le hle
  | cons t ts ih =>
    rw [List.cons_append]
    show (_ ∧ _ ∧ _) ↔ ∃ middle, (_ ∧ _ ∧ _) ∧ _
    rw [ih]
    constructor
    · rintro ⟨hstart, hpos, middle, hts, hus⟩
      exact ⟨middle, ⟨hstart, hpos, hts⟩, hus⟩
    · rintro ⟨middle, ⟨hstart, hpos, hts⟩, hus⟩
      exact ⟨hstart, hpos, middle, hts, hus⟩

/-- The last of the tokens ends where they all do. -/
theorem stop_le_getLast (h : Between start ts stop) {t last : Token} (ht : t ∈ ts)
    (hlast : ts.getLast? = some last) : t.stop ≤ last.stop := by
  induction ts generalizing start with
  | nil => exact absurd ht (by simp)
  | cons u ts ih =>
    obtain ⟨-, -, hrest⟩ := h
    cases ts with
    | nil =>
      obtain rfl := List.mem_singleton.mp ht
      obtain rfl := Option.some.inj hlast
      exact Nat.le_refl _
    | cons v vs =>
      rw [List.getLast?_cons_cons] at hlast
      rcases List.mem_cons.mp ht with rfl | ht
      · have := hrest.mem (List.mem_of_getLast? hlast)
        omega
      · exact ih hrest ht hlast

end Between

/-- The code of a text stands between its start and the end of the last token. -/
theorem between_code (text : Text) :
    Between 0 (Token.code (tokens text)) (Extraction.codeEnd (tokens text)) := by
  have hpos : ∀ t ∈ Token.code (tokens text), t.start < t.stop := fun t ht =>
    start_lt_stop (List.mem_filter.mp ht).1
  have hordered := (tokens_ordered text).sublist (List.filter_sublist (p := Token.isCode))
  change (Token.code (tokens text)).Pairwise _ at hordered
  suffices ∀ (ts : List Token) (start : Nat), (∀ t ∈ ts, t.start < t.stop) →
      (∀ t ∈ ts, start ≤ t.start) → ts.Pairwise (fun a b => a.stop ≤ b.start) →
      Between start ts ((ts.getLast?.map (·.stop)).getD start) from
    this _ 0 hpos (fun _ _ => Nat.zero_le _) hordered
  intro ts
  induction ts with
  | nil => exact fun start _ _ _ => Nat.le_refl start
  | cons t ts ih =>
    intro start hpos hstart hordered
    obtain ⟨hfirst, hrest⟩ := List.pairwise_cons.mp hordered
    rw [List.forall_mem_cons] at hpos hstart
    refine ⟨hstart.1, hpos.1, ?_⟩
    have := ih t.stop hpos.2 hfirst hrest
    cases ts with
    | nil => exact this
    | cons u us => rwa [List.getLast?_cons_cons]

/-! ## The invariant -/

namespace Extraction

/-- An entity stands in its scope, as far as that is known when everything read so far ends at `stop`:
the scope has started before it, and it is either still open or ends after it. -/
structure Holds (x : Extraction) (stop : Nat) (e : Entity) (s : Scope) : Prop where
  scope : x.scopes[e.scope]? = some s
  stop_le : e.token.stop ≤ stop
  start_le : e.kind ≠ .namespace_ → s.start ≤ e.token.start
  within : e.scope ∈ x.opened ∨ e.scope = 0 ∨ e.token.stop ≤ s.stop

/-- What is known of the scopes and the entities when everything read so far ends at `stop`; `file` is
the scope of the file. -/
structure Placed (x : Extraction) (file : Scope) (stop : Nat) : Prop where
  file : x.scopes[0]? = some file
  opened : ∀ i ∈ x.opened, 0 < i ∧ i < x.scopes.size
  start_le : ∀ (i : Nat) (s : Scope), x.scopes[i]? = some s → s.start ≤ stop
  holds : ∀ e ∈ x.entities.toList, ∃ s, x.Holds stop e s

namespace Placed

variable {x y : Extraction} {file : Scope} {start stop : Nat}

theorem size_pos (h : x.Placed file stop) : 0 < x.scopes.size := by
  obtain ⟨hpos, -⟩ := Array.getElem?_eq_some_iff.mp h.file
  exact hpos

/-- The innermost open scope has started. -/
theorem current (h : x.Placed file stop) :
    (∃ s, x.scopes[x.currentIndex]? = some s ∧ s.start ≤ stop) ∧
      (x.currentIndex ∈ x.opened ∨ x.currentIndex = 0) := by
  have hcurrent : x.currentIndex < x.scopes.size ∧ (x.currentIndex ∈ x.opened ∨ x.currentIndex = 0) := by
    unfold currentIndex
    cases ho : x.opened with
    | nil => exact ⟨h.size_pos, Or.inr rfl⟩
    | cons i outer =>
      have hi : i ∈ x.opened := by
        rw [ho]
        exact List.mem_cons_self
      exact ⟨(h.opened i hi).2, Or.inl List.mem_cons_self⟩
  have hscope := Array.getElem?_eq_getElem hcurrent.1
  exact ⟨⟨_, hscope, h.start_le _ _ hscope⟩, hcurrent.2⟩

/-- A name that is declared in the current scope stands in it. -/
theorem holds_current (h : x.Placed file start)
    (hscopes : ∀ (i : Nat) (s : Scope), x.scopes[i]? = some s → y.scopes[i]? = some s)
    (hopened : ∀ i ∈ x.opened, i ∈ y.opened) {e : Entity} (hscope : e.scope = x.currentIndex)
    (hstart : e.kind ≠ .namespace_ → start ≤ e.token.start) (hstop : e.token.stop ≤ stop) :
    ∃ s, y.Holds stop e s := by
  obtain ⟨⟨s, hs, hle⟩, hopen⟩ := h.current
  rw [← hscope] at hs hopen
  refine ⟨s, hscopes _ _ hs, hstop, fun hkind => Nat.le_trans hle (hstart hkind), ?_⟩
  rcases hopen with hopen | hzero
  · exact Or.inl (hopened _ hopen)
  · exact Or.inr (Or.inl hzero)

/-- Names are declared, and nothing else happens. -/
theorem keep (h : x.Placed file start) (hle : start ≤ stop) (hscopes : y.scopes = x.scopes)
    (hopened : y.opened = x.opened) {es : List Entity}
    (hentities : y.entities.toList = x.entities.toList ++ es)
    (hes : ∀ e ∈ es, ∃ s, y.Holds stop e s) : y.Placed file stop := by
  refine ⟨?_, ?_, ?_, ?_⟩
  · rw [hscopes]
    exact h.file
  · rw [hscopes, hopened]
    exact h.opened
  · intro i s hs
    rw [hscopes] at hs
    exact Nat.le_trans (h.start_le i s hs) hle
  · intro e he
    rw [hentities] at he
    rcases List.mem_append.mp he with he | he
    · obtain ⟨s, hscope, hstop, hstart, hwithin⟩ := h.holds e he
      rw [← hscopes] at hscope
      rw [← hopened] at hwithin
      exact ⟨s, hscope, Nat.le_trans hstop hle, hstart, hwithin⟩
    · exact hes e he

theorem getElem?_push_of_some {scopes : Array Scope} {i : Nat} {s : Scope} (new : Scope)
    (h : scopes[i]? = some s) : (scopes.push new)[i]? = some s := by
  obtain ⟨hi, -⟩ := Array.getElem?_eq_some_iff.mp h
  rw [Array.getElem?_push, if_neg (by omega), h]

/-- A scope is added, and it may be entered. -/
theorem push (h : x.Placed file start) (hle : start ≤ stop) {new : Scope}
    (hscopes : y.scopes = x.scopes.push new) (hnew : new.start ≤ stop)
    (hopened : y.opened = x.opened ∨ y.opened = x.scopes.size :: x.opened) {es : List Entity}
    (hentities : y.entities.toList = x.entities.toList ++ es)
    (hes : ∀ e ∈ es, ∃ s, y.Holds stop e s) : y.Placed file stop := by
  have hpos := h.size_pos
  refine ⟨?_, ?_, ?_, ?_⟩
  · rw [hscopes]
    exact getElem?_push_of_some new h.file
  · intro i hi
    rw [hscopes, Array.size_push]
    rcases hopened with hopened | hopened
    · rw [hopened] at hi
      have := h.opened i hi
      omega
    · rw [hopened] at hi
      rcases List.mem_cons.mp hi with rfl | hi
      · omega
      · have := h.opened i hi
        omega
  · intro i s hs
    rw [hscopes, Array.getElem?_push] at hs
    split at hs
    · rw [← Option.some.inj hs]
      exact hnew
    · exact Nat.le_trans (h.start_le i s hs) hle
  · intro e he
    rw [hentities] at he
    rcases List.mem_append.mp he with he | he
    · obtain ⟨s, hscope, hstop, hstart, hwithin⟩ := h.holds e he
      refine ⟨s, ?_, Nat.le_trans hstop hle, hstart, ?_⟩
      · rw [hscopes]
        exact getElem?_push_of_some new hscope
      · rcases hwithin with hopen | hwithin
        · left
          rcases hopened with hopened | hopened <;> rw [hopened]
          · exact hopen
          · exact List.mem_cons_of_mem _ hopen
        · exact Or.inr hwithin
    · exact hes e he

/-- Some of the open scopes are left, the innermost first. -/
theorem leave {left kept : List Nat} (h : x.Placed file start) (hle : start ≤ stop)
    (hopened : x.opened = left ++ kept) :
    Placed { x with scopes := endScopes x.scopes left stop, opened := kept } file stop := by
  have hkept : ∀ i ∈ kept, i ∈ x.opened := fun i hi => by
    rw [hopened]
    exact List.mem_append_right left hi
  refine ⟨?_, ?_, ?_, ?_⟩
  · have hzero : 0 ∉ left := fun hmem => by
      have := (h.opened 0 (by rw [hopened]; exact List.mem_append_left kept hmem)).1
      omega
    rw [getElem?_endScopes, if_neg hzero]
    exact h.file
  · intro i hi
    rw [size_endScopes]
    exact h.opened i (hkept i hi)
  · intro i s hs
    rw [getElem?_endScopes] at hs
    split at hs
    · obtain ⟨s', hs', rfl⟩ := Option.map_eq_some_iff.mp hs
      exact Nat.le_trans (h.start_le i s' hs') hle
    · exact Nat.le_trans (h.start_le i s hs) hle
  · intro e he
    obtain ⟨s, hscope, hstop, hstart, hwithin⟩ := h.holds e he
    by_cases hleft : e.scope ∈ left
    · refine ⟨{ s with stop }, ?_, Nat.le_trans hstop hle, hstart, Or.inr (Or.inr ?_)⟩
      · rw [getElem?_endScopes, if_pos hleft, hscope]
        rfl
      · exact Nat.le_trans hstop hle
    · refine ⟨s, ?_, Nat.le_trans hstop hle, hstart, ?_⟩
      · rw [getElem?_endScopes, if_neg hleft]
        exact hscope
      · rcases hwithin with hopen | hwithin
        · rw [hopened] at hopen
          exact Or.inl ((List.mem_append.mp hopen).resolve_left hleft)
        · exact Or.inr hwithin

end Placed

/-! ## One step and all steps -/

variable {x y : Extraction} {file : Scope} {code ts : List Token} {start stop : Nat}

theorem Placed.mono (h : x.Placed file start) (hle : start ≤ stop) : x.Placed file stop :=
  h.keep hle rfl rfl (List.append_nil _).symm (by simp)

/-- The parameters of a function end before its scope does. -/
theorem stop_le_parameterStop {f : FunctionHead} (hts : Between start f.afterOpener stop) {t : Token}
    (ht : t ∈ parameterTokens f) : t.stop ≤ parameterStop f := by
  unfold parameterTokens at ht
  unfold parameterStop
  cases h : parenthesised? f.afterOpener with
  | some e =>
    rw [h] at ht
    rw [enclosed?_append h] at hts
    obtain ⟨middle, hinside, hcloser, hpos, -⟩ := Between.append_iff.mp hts
    have := hinside.mem ht
    show t.stop ≤ e.closer.stop
    omega
  | none =>
    rw [h] at ht
    change t ∈ f.afterOpener at ht
    cases hlast : f.afterOpener.getLast? with
    | none =>
      rw [List.getLast?_eq_none_iff.mp hlast] at ht
      exact absurd ht (by simp)
    | some last => exact hts.stop_le_getLast ht hlast

theorem placed_addFunction (h : x.Placed file start) {f : FunctionHead} (hasBody : Bool)
    (hts : Between start (f.name :: f.opener :: f.afterOpener) stop) :
    (x.addFunction f hasBody).Placed file stop := by
  have hscopes := scopes_addFunction x f hasBody
  have hopened := opened_addFunction x f hasBody
  have hopener := hts.mem (t := f.opener) (by simp)
  refine h.push hts.start_le_stop hscopes (by dsimp only; omega) ?_
    ((entities_addFunction x f hasBody).trans (List.append_assoc ..)) ?_
  · cases hasBody <;> simp [hopened]
  · intro e he
    rcases List.mem_append.mp he with he | he
    · -- a parameter stands between the brackets
      obtain ⟨p, hp, he⟩ := List.mem_filterMap.mp he
      obtain ⟨name, hname, rfl⟩ := Option.map_eq_some_iff.mp he
      have hmem : name ∈ parameterTokens f :=
        (Parameter.names_readAll_sublist _).1.subset (List.mem_filterMap.mpr ⟨p, hp, hname⟩)
      have hafter : name ∈ f.afterOpener := (parameterTokens_sublist f).subset hmem
      have hname := hts.2.2.2.2.mem hafter
      refine ⟨_, by rw [hscopes]; exact Array.getElem?_push_size, hname.2.2, fun _ => ?_, Or.inr (Or.inr ?_)⟩
      · show f.opener.start ≤ name.start
        omega
      · exact stop_le_parameterStop hts.2.2.2.2 hmem
    · obtain rfl := List.mem_singleton.mp he
      have hname := hts.mem (t := f.name) (by simp)
      refine h.holds_current (fun i s hs => ?_) (fun i hi => ?_) rfl (fun _ => hname.1) hname.2.2
      · rw [hscopes]
        exact Placed.getElem?_push_of_some _ hs
      · rw [hopened]
        cases hasBody
        · exact hi
        · exact List.mem_cons_of_mem _ hi

/-- What the entity of a type is, in so far as it matters where it stands. -/
theorem typeEntity_eq_some {keyword : Token} {head : TypeHead} {bodyScope : Option Nat} {e : Entity}
    (h : x.typeEntity? keyword head bodyScope = some e) :
    head.name = some e.token ∧ e.scope = x.currentIndex := by
  unfold typeEntity? at h
  split at h
  · exact absurd h (by simp)
  · obtain ⟨name, hname, rfl⟩ := Option.map_eq_some_iff.mp h
    exact ⟨hname, rfl⟩

theorem placed_openNamespaces {names : List Token} {chained : Bool} {brace : Nat} (h : x.Placed file stop)
    (hbrace : brace ≤ stop) (hnames : ∀ t ∈ names, t.stop ≤ stop) :
    (x.openNamespaces chained brace names).Placed file stop := by
  induction names generalizing x chained with
  | nil => exact h
  | cons name names ih =>
    rw [List.forall_mem_cons] at hnames
    obtain ⟨namespaceNames, hcons⟩ := openNamespaces_cons x chained brace name names
    rw [hcons]
    refine ih (h.push (Nat.le_refl stop) rfl hbrace (Or.inr rfl) Array.toList_push ?_) hnames.2
    intro e he
    obtain rfl := List.mem_singleton.mp he
    exact h.holds_current (fun i s hs => Placed.getElem?_push_of_some _ hs)
      (fun i hi => List.mem_cons_of_mem _ hi) rfl (fun hkind => absurd rfl hkind) hnames.1

/-- A step of reading keeps names in their scopes. -/
theorem placed_of_takes (h : Takes code ts x y) (hts : Between start ts stop) (hx : x.Placed file start) :
    y.Placed file stop := by
  induction h generalizing start stop with
  | note => exact hx.keep hts.start_le_stop rfl rfl (List.append_nil _).symm (by simp)
  | anomaly => exact hx.keep hts.start_le_stop rfl rfl (List.append_nil _).symm (by simp)
  | @declare x e t htoken hid hname hscope hbody hkeyword =>
    subst htoken
    have ht := hts.mem (List.mem_singleton.mpr rfl)
    refine hx.keep hts.start_le_stop rfl rfl (entities_add x e) fun a ha => ?_
    obtain rfl := List.mem_singleton.mp ha
    exact hx.holds_current (y := x.add a) (fun _ _ hs => hs) (fun _ hi => hi) hscope (fun _ => ht.1) ht.2.2
  | @declareType x keyword head hhead =>
    have hscopes : (x.addType keyword head none).scopes = x.scopes := by rw [addType_eq]
    have hopened : (x.addType keyword head none).opened = x.opened := by rw [addType_eq]
    refine hx.keep hts.start_le_stop hscopes hopened (entities_addType x keyword head none) fun a ha => ?_
    obtain ⟨hname, hscope⟩ := typeEntity_eq_some (Option.mem_toList.mp ha)
    have ht := hts.mem (t := a.token) (by simp [hname])
    exact hx.holds_current (fun _ _ hs => hscopes ▸ hs) (fun _ hi => hopened ▸ hi) hscope (fun _ => ht.1)
      ht.2.2
  | function hasBody hnamed => exact placed_addFunction hx hasBody hts
  | @opensType x keyword head inTypedef hhead hbrace =>
    -- the scope of the type starts at its brace, and the type is an entity of the scope around it
    obtain ⟨classNames, heq⟩ := openType_eq x inTypedef keyword head
    have hstart := hts.mem (t := head.terminator) (by simp)
    have hentities := entities_openType x inTypedef keyword head
    rw [heq] at hentities ⊢
    refine hx.push hts.start_le_stop rfl (by dsimp only; omega) (Or.inr rfl) hentities fun a ha => ?_
    obtain ⟨hname, hscope⟩ := typeEntity_eq_some (Option.mem_toList.mp ha)
    have ht := hts.mem (t := a.token) (by simp [hname])
    exact hx.holds_current (fun _ _ hs => Placed.getElem?_push_of_some _ hs)
      (fun _ hi => List.mem_cons_of_mem _ hi) hscope (fun _ => ht.1) ht.2.2
  | @opens x brace kind hkind hbrace =>
    have ht := hts.mem (List.mem_singleton.mpr rfl)
    exact hx.push hts.start_le_stop rfl (by dsimp only; omega) (Or.inr rfl) (List.append_nil _).symm (by simp)
  | @opensNamespaces x names brace hid hbrace =>
    have ht := hts.mem (t := brace) (by simp)
    refine placed_openNamespaces (hx.mono hts.start_le_stop) (by omega) fun t ht' => ?_
    exact (hts.mem (List.mem_append_left _ ht')).2.2
  | closes hbrace hleave =>
    obtain ⟨left, kept, hopened, -, rfl⟩ := leave_eq hleave
    obtain ⟨hstart, hpos, hstop⟩ := hts
    exact (hx.leave (by omega) hopened).mono hstop
  | append _ _ ihxy ihyz =>
    obtain ⟨middle, hfirst, hsecond⟩ := Between.append_iff.mp hts
    exact ihyz hsecond (ihxy hfirst hx)
  | within _ hsub ih => exact ih (hts.sublist hsub) hx

theorem placed_initial (fileEnd : Nat) :
    (initial fileEnd).Placed ⟨.file, none, none, 0, fileEnd, false, false⟩ 0 := by
  refine ⟨rfl, by simp [initial], fun i s hs => ?_, by simp [initial]⟩
  cases i with
  | zero =>
    obtain rfl := Option.some.inj hs
    exact Nat.le_refl 0
  | succ i => exact absurd hs (by simp [initial])

/-- Once the scopes that are still open have been ended, every name stands in its scope. -/
theorem Placed.within_endOpened (h : x.Placed file stop) (hfile : file.stop = stop) {e : Entity}
    (he : e ∈ x.entities.toList) :
    ∃ s, (x.endOpened stop).scopes[e.scope]? = some s ∧ e.token.stop ≤ s.stop ∧
      (e.kind ≠ .namespace_ → s.start ≤ e.token.start) := by
  obtain ⟨s, hscope, hstop, hstart, hwithin⟩ := h.holds e he
  rw [endOpened_eq]
  by_cases hopen : e.scope ∈ x.opened
  · refine ⟨{ s with stop }, ?_, hstop, hstart⟩
    rw [getElem?_endScopes, if_pos hopen, hscope]
    rfl
  · refine ⟨s, by rw [getElem?_endScopes, if_neg hopen, hscope], ?_, hstart⟩
    rcases hwithin with hmem | hzero | hle
    · exact absurd hmem hopen
    · rw [hzero, h.file] at hscope
      rw [← Option.some.inj hscope, hfile]
      exact hstop
    · exact hle

end Extraction

/-- The name of an entity stands in the scope that it is declared in. A macro is declared in the file,
and the name of a namespace may stand in front of its scope. -/
theorem token_within_scope {text : Text} {e : Entity} (he : e ∈ (extract (tokens text)).entities) :
    (∃ s, (extract (tokens text)).scopes[e.scope]? = some s ∧ e.token.stop ≤ s.stop ∧
        (e.kind ≠ .namespace_ → s.start ≤ e.token.start)) ∨
      ∃ directive ∈ tokens text, directive.isDirective = true ∧ Extraction.IsMacroOf e directive := by
  have hplaced := Extraction.placed_of_takes
    (Extraction.takes_run (.initial (Extraction.codeEnd (tokens text))) List.suffix_rfl)
    (between_code text) (Extraction.placed_initial _)
  obtain ⟨macros, hentities, hscopes, hmacros⟩ := Extraction.ofTokens_eq_readCode (tokens text)
  rw [mem_entities_extract, hentities] at he
  rcases List.mem_append.mp he with he | he
  · obtain ⟨s, hscope, hs⟩ := hplaced.within_endOpened rfl he
    refine Or.inl ⟨s, ?_, hs⟩
    rw [extract_eq, hscopes]
    exact hscope
  · exact Or.inr (hmacros e he)

end HouseStyle
