import HouseStyle.Proofs.Scopes
import Mathlib.Data.List.Chain

/-!
# The scopes of a file form a tree

Every scope but that of the file stands in its parent, which has been opened before it, and the scopes
inside one scope stand one after another. The end of a scope is known late: at its brace, at the brace of
a scope it is chained to, or at the end of the file. So as long as a file is read only this is known of a
scope that has been left (`Extraction.Nested`): it ends before its parent does, or its parent is still
open. The open scopes are a chain of parents (`Stacked`), which is why whatever is left encloses what is
in it, and why a new scope comes behind its siblings.

- `nested_of_takes`: a step of reading keeps the scopes nested.
- `scopes_form_tree`: the tree that they are at the end, for every text.
- `exists_name_before_scope`: the one kind of name that does not stand in the scope it is declared in. With
  `namespace a::b` the scope of `a` starts at the brace, and `b` stands in front of it.
-/

namespace HouseStyle

/-! ## Scopes that grow

Scopes are added and ended, and nothing else happens to them.
-/

/-- The same scopes, which may end elsewhere, and perhaps more of them. -/
def Grows (old new : Array Scope) : Prop :=
  ∀ (i : Nat) (s : Scope), old[i]? = some s → ∃ stop, new[i]? = some { s with stop }

theorem Grows.refl (scopes : Array Scope) : Grows scopes scopes := fun _ s hs => ⟨s.stop, hs⟩

theorem Grows.trans {a b c : Array Scope} (h : Grows a b) (h' : Grows b c) : Grows a c := by
  intro i s hs
  obtain ⟨_, hs'⟩ := h i s hs
  obtain ⟨stop, hs''⟩ := h' i _ hs'
  exact ⟨stop, hs''⟩

theorem grows_push (scopes : Array Scope) (new : Scope) : Grows scopes (scopes.push new) := fun _ s hs =>
  ⟨s.stop, Extraction.Placed.getElem?_push_of_some new hs⟩

theorem grows_endScopes (scopes : Array Scope) (indices : List Nat) (stop : Nat) :
    Grows scopes (Extraction.endScopes scopes indices stop) := by
  intro i s hs
  rw [Extraction.getElem?_endScopes, hs]
  split
  · exact ⟨stop, rfl⟩
  · exact ⟨s.stop, rfl⟩

/-- The second or a later name of `namespace a::b`. All their scopes start at the brace, so the name stands
in front of the scope it is declared in. -/
structure Entity.IsChained (scopes : Array Scope) (e : Entity) : Prop where
  kind : e.kind = .namespace_
  precedes : ∃ (i : Nat) (own outer : Scope), scopes[i]? = some own ∧ own.chained = true ∧
    own.kind = .namespace_ ∧ own.name = some e.name ∧ own.parent = some e.scope ∧
    scopes[e.scope]? = some outer ∧ own.start = outer.start ∧ e.token.stop ≤ outer.start

/-- An entity has the scope it is declared in, and the one it opens is a child of that. -/
structure Entity.Homed (scopes : Array Scope) (e : Entity) : Prop where
  start : (∃ s, scopes[e.scope]? = some s ∧ s.start ≤ e.token.start) ∨ e.IsChained scopes
  body : ∀ b, e.bodyScope = some b → ∃ s, scopes[b]? = some s ∧ s.parent = some e.scope

theorem Entity.Homed.mono {old new : Array Scope} {e : Entity} (h : e.Homed old) (hgrows : Grows old new) :
    e.Homed new := by
  refine ⟨?_, fun b hb => ?_⟩
  · rcases h.start with ⟨s, hs, hle⟩ | ⟨hkind, i, own, outer, hown, hfacts⟩
    · obtain ⟨stop, hs'⟩ := hgrows _ s hs
      exact Or.inl ⟨_, hs', hle⟩
    · obtain ⟨hchained, hownKind, hname, hparent, houter, hstart, hle⟩ := hfacts
      obtain ⟨_, hown'⟩ := hgrows _ own hown
      obtain ⟨_, houter'⟩ := hgrows _ outer houter
      exact Or.inr ⟨hkind, i, _, _, hown', hchained, hownKind, hname, hparent, houter', hstart, hle⟩
  · obtain ⟨s, hs, hparent⟩ := h.body b hb
    obtain ⟨stop, hs'⟩ := hgrows b s hs
    exact ⟨_, hs', hparent⟩

/-! ## Scopes that are open -/

/-- Open scopes, the innermost first: each has the next one as its parent, and the last one the file. -/
def Stacked (scopes : Array Scope) : List Nat → Prop
  | [] => True
  | i :: outer => scopes[i]?.bind (·.parent) = some (outer.headD 0) ∧ outer.headD 0 < i ∧ Stacked scopes outer

namespace Stacked

variable {scopes : Array Scope} {opened outer inner : List Nat} {i j p : Nat}

/-- The scopes around an open one have been opened before it. -/
theorem lt_of_mem (h : Stacked scopes (i :: outer)) (hj : j ∈ outer) : j < i := by
  induction outer generalizing i with
  | nil => exact absurd hj (by simp)
  | cons k outer ih =>
    obtain ⟨-, hlt, hrest⟩ := h
    rcases List.mem_cons.mp hj with rfl | hj
    · exact hlt
    · exact Nat.lt_trans (ih hrest hj) hlt

theorem le_head (h : Stacked scopes opened) (hi : i ∈ opened) : i ≤ opened.headD 0 := by
  cases opened with
  | nil => exact absurd hi (by simp)
  | cons j outer =>
    rcases List.mem_cons.mp hi with rfl | hi
    · exact Nat.le_refl _
    · exact Nat.le_of_lt (h.lt_of_mem hi)

/-- The file is not among the open scopes. -/
theorem pos_of_mem (h : Stacked scopes opened) (hi : i ∈ opened) : 0 < i := by
  induction opened with
  | nil => exact absurd hi (by simp)
  | cons j outer ih =>
    rcases List.mem_cons.mp hi with rfl | hi
    · exact Nat.zero_lt_of_lt h.2.1
    · exact ih h.2.2 hi

theorem of_append (h : Stacked scopes (inner ++ outer)) : Stacked scopes outer := by
  induction inner with
  | nil => exact h
  | cons i inner ih => exact ih h.2.2

/-- No scope is open twice. -/
theorem not_mem_of_append (h : Stacked scopes (inner ++ outer)) (hi : i ∈ inner) : i ∉ outer := by
  induction inner with
  | nil => exact absurd hi (by simp)
  | cons j inner ih =>
    rcases List.mem_cons.mp hi with rfl | hi
    · exact fun hmem => Nat.lt_irrefl i (h.lt_of_mem (List.mem_append_right inner hmem))
    · exact ih h.2.2 hi

/-- The parent of an open scope is open, if it is not the file. -/
theorem parent_lt_and_mem (h : Stacked scopes opened) (hi : i ∈ opened) {s : Scope}
    (hs : scopes[i]? = some s) (hp : s.parent = some p) : p < i ∧ (p ∈ opened ∨ p = 0) := by
  induction opened with
  | nil => exact absurd hi (by simp)
  | cons j outer ih =>
    rcases List.mem_cons.mp hi with rfl | hi
    · obtain ⟨hparent, hlt, -⟩ := h
      rw [hs, Option.bind_some, hp] at hparent
      obtain rfl := Option.some.inj hparent
      refine ⟨hlt, ?_⟩
      cases outer with
      | nil => exact Or.inr rfl
      | cons k outer => exact Or.inl (by simp)
    · obtain ⟨hlt, hmem⟩ := ih h.2.2 hi
      exact ⟨hlt, hmem.imp_left (List.mem_cons_of_mem j)⟩

/-- Where scopes end is nothing to their parents. -/
theorem mono {scopes' : Array Scope} (h : Stacked scopes opened) (hgrows : Grows scopes scopes') :
    Stacked scopes' opened := by
  induction opened with
  | nil => trivial
  | cons i outer ih =>
    obtain ⟨hparent, hlt, hrest⟩ := h
    obtain ⟨s, hs, hp⟩ := Option.bind_eq_some_iff.mp hparent
    obtain ⟨stop, hs'⟩ := hgrows i s hs
    refine ⟨?_, hlt, ih hrest⟩
    rw [hs', Option.bind_some]
    exact hp

end Stacked

/-! ## The invariant -/

namespace Extraction

/-- What is known of the scopes when everything read so far ends at `stop`. -/
structure Nested (x : Extraction) (stop : Nat) : Prop where
  file : ∃ s, x.scopes[0]? = some s ∧ s.kind = .file ∧ s.parent = none ∧ s.start = 0
  stacked : Stacked x.scopes x.opened
  /-- A scope that has been left ends in its parent, if that has been left too. -/
  parent : ∀ (i : Nat) (s : Scope), x.scopes[i]? = some s → i ≠ 0 → s.kind ≠ .file ∧
    ∃ (p : Nat) (outer : Scope), s.parent = some p ∧ p < i ∧ x.scopes[p]? = some outer ∧
      outer.start ≤ s.start ∧ (p ∈ x.opened ∨ p = 0 ∨ i ∉ x.opened ∧ s.stop ≤ outer.stop)
  span : ∀ (i : Nat) (s : Scope), x.scopes[i]? = some s → i ≠ 0 → s.start ≤ s.stop ∧ s.stop ≤ stop
  /-- A scope is left before the next one in the same parent is opened. -/
  apart : ∀ (i j : Nat) (s t : Scope), x.scopes[i]? = some s → x.scopes[j]? = some t → i < j →
    s.parent = t.parent → i ∉ x.opened ∧ s.stop ≤ t.start
  homed : ∀ e ∈ x.entities.toList, e.Homed x.scopes

namespace Nested

variable {x y : Extraction} {start stop : Nat}

theorem size_pos (h : x.Nested stop) : 0 < x.scopes.size := by
  obtain ⟨s, hs, -⟩ := h.file
  exact (Array.getElem?_eq_some_iff.mp hs).1

/-- Every scope has started. -/
theorem start_le (h : x.Nested stop) {i : Nat} {s : Scope} (hs : x.scopes[i]? = some s) : s.start ≤ stop := by
  by_cases hi : i = 0
  · obtain ⟨file, hfile, -, -, hzero⟩ := h.file
    rw [hi, hfile] at hs
    obtain rfl := Option.some.inj hs
    omega
  · have := h.span i s hs hi
    omega

/-- The innermost open scope is there, and it is open or the file. -/
theorem current (h : x.Nested stop) :
    (∃ s, x.scopes[x.currentIndex]? = some s) ∧ (x.currentIndex ∈ x.opened ∨ x.currentIndex = 0) := by
  unfold currentIndex
  have hstacked := h.stacked
  cases ho : x.opened with
  | nil =>
    obtain ⟨s, hs, -⟩ := h.file
    exact ⟨⟨s, hs⟩, Or.inr rfl⟩
  | cons i outer =>
    rw [ho] at hstacked
    obtain ⟨s, hs, -⟩ := Option.bind_eq_some_iff.mp hstacked.1
    exact ⟨⟨s, hs⟩, Or.inl List.mem_cons_self⟩

/-- A name that is declared in the current scope stands behind its start. -/
theorem homed_current (h : x.Nested stop) {scopes : Array Scope} (hgrows : Grows x.scopes scopes) {e : Entity}
    (hscope : e.scope = x.currentIndex) (hstart : stop ≤ e.token.start)
    (hbody : ∀ b, e.bodyScope = some b → ∃ s, scopes[b]? = some s ∧ s.parent = some e.scope) :
    e.Homed scopes := by
  obtain ⟨⟨s, hs⟩, -⟩ := h.current
  have hle := h.start_le hs
  obtain ⟨_, hs'⟩ := hgrows _ s hs
  rw [← hscope] at hs'
  exact ⟨Or.inl ⟨_, hs', Nat.le_trans hle hstart⟩, hbody⟩

/-- Names are declared, and nothing happens to the scopes. -/
theorem keep (h : x.Nested start) (hle : start ≤ stop) (hscopes : y.scopes = x.scopes)
    (hopened : y.opened = x.opened) {es : List Entity} (hentities : y.entities.toList = x.entities.toList ++ es)
    (hes : ∀ e ∈ es, e.Homed x.scopes) : y.Nested stop := by
  refine ⟨?_, ?_, ?_, ?_, ?_, ?_⟩
  · rw [hscopes]
    exact h.file
  · rw [hscopes, hopened]
    exact h.stacked
  · rw [hscopes, hopened]
    exact h.parent
  · rw [hscopes]
    intro i s hs hi
    have := h.span i s hs hi
    omega
  · rw [hscopes, hopened]
    exact h.apart
  · rw [hscopes, hentities]
    intro e he
    exact (List.mem_append.mp he).elim (h.homed e) (hes e)

theorem mono (h : x.Nested start) (hle : start ≤ stop) : x.Nested stop :=
  h.keep hle rfl rfl (List.append_nil _).symm (by simp)

/-- A scope with the last index is the new one, any other one is old. -/
theorem getElem?_push_cases {scopes : Array Scope} {new s : Scope} {i : Nat}
    (h : (scopes.push new)[i]? = some s) : (i = scopes.size ∧ s = new) ∨ (i < scopes.size ∧ scopes[i]? = some s) := by
  rw [Array.getElem?_push] at h
  split at h
  · next hi => exact Or.inl ⟨hi, (Option.some.inj h).symm⟩
  · exact Or.inr ⟨(Array.getElem?_eq_some_iff.mp h).1, h⟩

/-- A scope is added behind everything read so far, and it may be entered. -/
theorem push (h : x.Nested start) {new : Scope} (hscopes : y.scopes = x.scopes.push new)
    (hkind : new.kind ≠ .file) (hparent : new.parent = some x.currentIndex) (hstart : start ≤ new.start)
    (hspan : new.start ≤ new.stop) (hstop : new.stop ≤ stop)
    (hopened : y.opened = x.opened ∨ y.opened = x.scopes.size :: x.opened) {es : List Entity}
    (hentities : y.entities.toList = x.entities.toList ++ es) (hes : ∀ e ∈ es, e.Homed y.scopes) :
    y.Nested stop := by
  have hpos := h.size_pos
  obtain ⟨⟨current, hcurrent⟩, hcurrentOpen⟩ := h.current
  have hcurrentLt : x.currentIndex < x.scopes.size := (Array.getElem?_eq_some_iff.mp hcurrent).1
  have hgrows : Grows x.scopes y.scopes := hscopes ▸ grows_push x.scopes new
  -- what was there keeps its index and its data
  have hold : ∀ {i : Nat} {s : Scope}, x.scopes[i]? = some s → y.scopes[i]? = some s := fun hs => by
    rw [hscopes]
    exact Placed.getElem?_push_of_some new hs
  have hkept : ∀ i ∈ x.opened, i ∈ y.opened := fun i hi => by
    rcases hopened with hopened | hopened <;> rw [hopened]
    · exact hi
    · exact List.mem_cons_of_mem _ hi
  have hclosed : ∀ i, i < x.scopes.size → i ∉ x.opened → i ∉ y.opened := fun i hi hnot => by
    rcases hopened with hopened | hopened <;> rw [hopened]
    · exact hnot
    · rw [List.mem_cons]
      rintro (rfl | hmem)
      · exact Nat.lt_irrefl _ hi
      · exact hnot hmem
  refine ⟨?_, ?_, ?_, ?_, ?_, ?_⟩
  · obtain ⟨s, hs, hfile⟩ := h.file
    exact ⟨s, hold hs, hfile⟩
  · have hstacked := h.stacked.mono hgrows
    rcases hopened with hopened | hopened <;> rw [hopened]
    · exact hstacked
    · refine ⟨?_, hcurrentLt, hstacked⟩
      rw [hscopes, Array.getElem?_push_size, Option.bind_some]
      exact hparent
  · intro i s hs hi
    rw [hscopes] at hs
    rcases getElem?_push_cases hs with ⟨rfl, rfl⟩ | ⟨hlt, hs⟩
    · -- the new scope lies in the current one, which is open
      have := h.start_le hcurrent
      exact ⟨hkind, _, current, hparent, hcurrentLt, hold hcurrent, by omega,
        hcurrentOpen.imp (hkept _) Or.inl⟩
    · obtain ⟨hfile, p, outer, hp, hpi, houter, hle, hin⟩ := h.parent i s hs hi
      exact ⟨hfile, p, outer, hp, hpi, hold houter, hle, hin.imp (hkept p)
        (Or.imp_right (And.imp_left (hclosed i hlt)))⟩
  · intro i s hs hi
    rw [hscopes] at hs
    rcases getElem?_push_cases hs with ⟨rfl, rfl⟩ | ⟨hlt, hs⟩
    · exact ⟨hspan, hstop⟩
    · have := h.span i s hs hi
      omega
  · intro i j s t hs ht hij hsame
    rw [hscopes] at hs ht
    rcases getElem?_push_cases ht with ⟨rfl, rfl⟩ | ⟨hjlt, ht⟩
    · -- an open scope with the same parent would have the current one as its parent, and be inside it
      rcases getElem?_push_cases hs with ⟨rfl, -⟩ | ⟨hilt, hs⟩
      · omega
      · rw [hparent] at hsame
        have hnot : i ∉ x.opened := fun hmem => by
          have hlt := (h.stacked.parent_lt_and_mem hmem hs hsame).1
          have hle := h.stacked.le_head hmem
          unfold currentIndex at hlt
          omega
        have hi : i ≠ 0 := by
          rintro rfl
          obtain ⟨file, hfile, -, hnone, -⟩ := h.file
          rw [hfile] at hs
          rw [← Option.some.inj hs, hnone] at hsame
          exact absurd hsame (by simp)
        have := h.span i s hs hi
        exact ⟨hclosed i hilt hnot, by omega⟩
    · rcases getElem?_push_cases hs with ⟨rfl, -⟩ | ⟨hilt, hs⟩
      · omega
      · obtain ⟨hnot, hle⟩ := h.apart i j s t hs ht hij hsame
        exact ⟨hclosed i hilt hnot, hle⟩
  · rw [hentities]
    intro e he
    rcases List.mem_append.mp he with he | he
    · exact (h.homed e he).mono hgrows
    · exact hes e he

/-- Some of the open scopes are left, the innermost first. -/
theorem leave {left kept : List Nat} (h : x.Nested start) (hle : start ≤ stop) (hopened : x.opened = left ++ kept) :
    Nested { x with scopes := endScopes x.scopes left stop, opened := kept } stop := by
  have hstacked := h.stacked
  rw [hopened] at hstacked
  have hgrows := grows_endScopes x.scopes left stop
  -- a scope is as it was, but if it has been left it ends here
  have hscope : ∀ {i : Nat} {s : Scope}, (endScopes x.scopes left stop)[i]? = some s →
      ∃ s', x.scopes[i]? = some s' ∧ s.kind = s'.kind ∧ s.parent = s'.parent ∧ s.start = s'.start ∧
        (i ∈ left ∧ s.stop = stop ∨ i ∉ left ∧ s.stop = s'.stop) := by
    intro i s hs
    rw [getElem?_endScopes] at hs
    split at hs
    · next hmem =>
      obtain ⟨s', hs', rfl⟩ := Option.map_eq_some_iff.mp hs
      exact ⟨s', hs', rfl, rfl, rfl, Or.inl ⟨hmem, rfl⟩⟩
    · next hmem => exact ⟨s, hs, rfl, rfl, rfl, Or.inr ⟨hmem, rfl⟩⟩
  have hzero : 0 ∉ left := fun hmem =>
    Nat.lt_irrefl 0 (hstacked.pos_of_mem (List.mem_append_left kept hmem))
  -- what was closed before stays so
  have hclosed : ∀ {i : Nat}, i ∉ x.opened → i ∉ kept := fun hnot hmem =>
    hnot (hopened ▸ List.mem_append_right left hmem)
  have hleft : ∀ {i : Nat}, i ∈ left → i ∉ kept := hstacked.not_mem_of_append
  refine ⟨?_, hstacked.of_append.mono hgrows, ?_, ?_, ?_, ?_⟩
  · obtain ⟨s, hs, hfile⟩ := h.file
    refine ⟨s, ?_, hfile⟩
    rw [getElem?_endScopes, if_neg hzero]
    exact hs
  · intro i s hs hi
    obtain ⟨s', hs', hkind, hparent, hstart, hstop⟩ := hscope hs
    obtain ⟨hfile, p, outer, hp, hpi, houter, houterStart, hin⟩ := h.parent i s' hs' hi
    have hspan := h.span i s' hs' hi
    rw [hkind, hparent, hstart]
    by_cases hpLeft : p ∈ left
    · -- the parent is left, and with it the scope at the latest
      refine ⟨hfile, p, { outer with stop }, hp, hpi, ?_, houterStart, Or.inr (Or.inr ⟨?_, ?_⟩)⟩
      · rw [getElem?_endScopes, if_pos hpLeft, houter]
        rfl
      · intro hiKept
        rcases (hstacked.of_append.parent_lt_and_mem hiKept hs' hp).2 with hpKept | rfl
        · exact hleft hpLeft hpKept
        · exact hzero hpLeft
      · show s.stop ≤ stop
        omega
    · refine ⟨hfile, p, outer, hp, hpi, ?_, houterStart, ?_⟩
      · rw [getElem?_endScopes, if_neg hpLeft]
        exact houter
      · rcases hin with hpOpen | hzero | ⟨hclosedBefore, hle⟩
        · rw [hopened] at hpOpen
          exact Or.inl ((List.mem_append.mp hpOpen).resolve_left hpLeft)
        · exact Or.inr (Or.inl hzero)
        · have hiLeft : i ∉ left := fun hmem => hclosedBefore (hopened ▸ List.mem_append_left kept hmem)
          refine Or.inr (Or.inr ⟨hclosed hclosedBefore, ?_⟩)
          have := hstop.resolve_left fun hmem => hiLeft hmem.1
          omega
  · intro i s hs hi
    obtain ⟨s', hs', -, -, hstart, hstop⟩ := hscope hs
    have := h.span i s' hs' hi
    omega
  · intro i j s t hs ht hij hsame
    obtain ⟨s', hs', -, hparent, -, hstop⟩ := hscope hs
    obtain ⟨t', ht', -, hparent', hstart', -⟩ := hscope ht
    obtain ⟨hnot, hle⟩ := h.apart i j s' t' hs' ht' hij (by rw [← hparent, ← hparent', hsame])
    have hiLeft : i ∉ left := fun hmem => hnot (hopened ▸ List.mem_append_left kept hmem)
    have := hstop.resolve_left fun hmem => hiLeft hmem.1
    exact ⟨hclosed hnot, by omega⟩
  · exact fun e he => (h.homed e he).mono hgrows

end Nested

/-! ## One step and all steps -/

variable {x y : Extraction} {code ts : List Token} {start stop : Nat}

theorem nested_initial (fileEnd : Nat) : (initial fileEnd).Nested 0 := by
  have hzero : ∀ {i : Nat} {s : Scope}, (initial fileEnd).scopes[i]? = some s → i = 0 := by
    intro i s hs
    cases i with
    | zero => rfl
    | succ i => exact absurd hs (by simp [initial])
  refine ⟨⟨_, rfl, rfl, rfl, rfl⟩, trivial, ?_, ?_, ?_, by simp [initial]⟩
  · exact fun i s hs hi => absurd (hzero hs) hi
  · exact fun i s hs hi => absurd (hzero hs) hi
  · intro i j s t _ ht hij _
    have := hzero ht
    omega

/-- The scope of a function ends behind its opening bracket. -/
theorem parameterStop_bounds {f : FunctionHead} (hts : Between start (f.opener :: f.afterOpener) stop) :
    f.opener.start ≤ parameterStop f ∧ parameterStop f ≤ stop := by
  obtain ⟨-, hpos, hafter⟩ := hts
  unfold parameterStop
  cases h : parenthesised? f.afterOpener with
  | some e =>
    have hcloser := hafter.mem (t := e.closer) (by rw [enclosed?_append h]; simp)
    simp only [Option.map_some, Option.getD_some]
    omega
  | none =>
    have hstop := hafter.start_le_stop
    cases hlast : f.afterOpener.getLast? with
    | none =>
      simp only [Option.map_none, Option.getD_none]
      omega
    | some last =>
      have hmem := hafter.mem (List.mem_of_getLast? hlast)
      simp only [Option.map_none, Option.getD_none, Option.getD_some]
      omega

theorem nested_addFunction (h : x.Nested start) {f : FunctionHead} (hasBody : Bool)
    (hts : Between start (f.name :: f.opener :: f.afterOpener) stop) : (x.addFunction f hasBody).Nested stop := by
  have hscopes := scopes_addFunction x f hasBody
  have hopened := opened_addFunction x f hasBody
  have hopener := hts.mem (t := f.opener) (by simp)
  obtain ⟨hstart, hstop⟩ := parameterStop_bounds hts.2.2
  refine h.push hscopes (by simp) rfl hopener.1 hstart hstop ?_
    ((entities_addFunction x f hasBody).trans (List.append_assoc ..)) ?_
  · cases hasBody <;> simp [hopened]
  · obtain ⟨own, hown, hparent, hownStart⟩ : ∃ s, (x.addFunction f hasBody).scopes[x.scopes.size]? = some s ∧
        s.parent = some x.currentIndex ∧ s.start = f.opener.start :=
      ⟨_, by rw [hscopes]; exact Array.getElem?_push_size, rfl, rfl⟩
    intro e he
    rcases List.mem_append.mp he with he | he
    · -- a parameter stands between the brackets
      obtain ⟨p, hp, he⟩ := List.mem_filterMap.mp he
      obtain ⟨name, hname, rfl⟩ := Option.map_eq_some_iff.mp he
      have hmem : name ∈ parameterTokens f :=
        (Parameter.names_readAll_sublist _).1.subset (List.mem_filterMap.mpr ⟨p, hp, hname⟩)
      have hname := hts.2.2.2.2.mem ((parameterTokens_sublist f).subset hmem)
      refine ⟨Or.inl ⟨own, hown, ?_⟩, by simp⟩
      show own.start ≤ name.start
      omega
    · obtain rfl := List.mem_singleton.mp he
      refine h.homed_current (hscopes ▸ grows_push _ _) rfl (hts.mem (t := f.name) (by simp)).1 fun b hb => ?_
      obtain rfl := Option.some.inj hb
      exact ⟨own, hown, hparent⟩

/-- A type is declared in the current scope, and opens the scope that comes with it. -/
theorem homed_typeEntity (h : x.Nested start) {keyword : Token} {head : TypeHead} {bodyScope : Option Nat}
    {scopes : Array Scope} (hgrows : Grows x.scopes scopes)
    (hts : Between start (keyword :: head.name.toList) stop)
    (hbody : ∀ b, bodyScope = some b → ∃ s, scopes[b]? = some s ∧ s.parent = some x.currentIndex)
    {e : Entity} (he : e ∈ (x.typeEntity? keyword head bodyScope).toList) : e.Homed scopes := by
  have he := Option.mem_toList.mp he
  obtain ⟨hname, hscope⟩ := typeEntity_eq_some he
  have hbodyScope : e.bodyScope = bodyScope := by
    unfold typeEntity? at he
    split at he
    · exact absurd he (by simp)
    · obtain ⟨name, -, rfl⟩ := Option.map_eq_some_iff.mp he
      rfl
  refine h.homed_current hgrows hscope (hts.mem (t := e.token) (by simp [hname])).1 ?_
  rw [hbodyScope, hscope]
  exact hbody

/-- The names of `namespace a::b` stand in front of the brace, where their scopes start one in another. -/
theorem nested_openNamespaces {names : List Token} {brace : Nat} (h : x.Nested brace)
    (hcurrent : ∃ s, x.scopes[x.currentIndex]? = some s ∧ s.start = brace)
    (hnames : ∀ t ∈ names, t.stop ≤ brace) : (x.openNamespaces true brace names).Nested brace := by
  induction names generalizing x with
  | nil => exact h
  | cons name names ih =>
    rw [List.forall_mem_cons] at hnames
    obtain ⟨namespaceNames, hcons⟩ := openNamespaces_cons x true brace name names
    rw [hcons]
    refine ih (h.push rfl (by simp) rfl (Nat.le_refl _) (Nat.le_refl _) (Nat.le_refl _) (Or.inr rfl)
      Array.toList_push ?_) ⟨_, Array.getElem?_push_size, rfl⟩ hnames.2
    intro e he
    obtain rfl := List.mem_singleton.mp he
    obtain ⟨s, hs, hstart⟩ := hcurrent
    refine ⟨Or.inr ⟨rfl, x.scopes.size, _, s, Array.getElem?_push_size, rfl, rfl, rfl, rfl,
      Placed.getElem?_push_of_some _ hs, hstart.symm, ?_⟩, by simp⟩
    rw [hstart]
    exact hnames.1

/-- A step of reading keeps the scopes nested. -/
theorem nested_of_takes (h : Takes code ts x y) (hts : Between start ts stop) (hx : x.Nested start) :
    y.Nested stop := by
  induction h generalizing start stop with
  | note => exact hx.keep hts.start_le_stop rfl rfl (List.append_nil _).symm (by simp)
  | anomaly => exact hx.keep hts.start_le_stop rfl rfl (List.append_nil _).symm (by simp)
  | @declare x e t htoken hid hname hscope hbody hkeyword =>
    subst htoken
    have ht := hts.mem (List.mem_singleton.mpr rfl)
    refine hx.keep hts.start_le_stop rfl rfl (entities_add x e) fun a ha => ?_
    obtain rfl := List.mem_singleton.mp ha
    exact hx.homed_current (.refl _) hscope ht.1 (by simp [hbody])
  | @declareType x keyword head hhead =>
    have hscopes : (x.addType keyword head none).scopes = x.scopes := by rw [addType_eq]
    have hopened : (x.addType keyword head none).opened = x.opened := by rw [addType_eq]
    exact hx.keep hts.start_le_stop hscopes hopened (entities_addType x keyword head none) fun a ha =>
      homed_typeEntity hx (.refl _) hts (by simp) ha
  | function hasBody hnamed => exact nested_addFunction hx hasBody hts
  | @opensType x keyword head inTypedef hhead hbrace =>
    obtain ⟨classNames, heq⟩ := openType_eq x inTypedef keyword head
    have hbraceAt := hts.mem (t := head.terminator) (by simp)
    have hentities := entities_openType x inTypedef keyword head
    rw [heq] at hentities ⊢
    refine hx.push rfl (by dsimp only; split <;> decide) rfl hbraceAt.1 (Nat.le_refl _)
      (by dsimp only; omega) (Or.inr rfl) hentities fun a ha => ?_
    refine homed_typeEntity hx (grows_push _ _) (hts.sublist (List.sublist_append_left _ _)) (fun b hb => ?_) ha
    obtain rfl := Option.some.inj hb
    exact ⟨_, Array.getElem?_push_size, rfl⟩
  | @opens x brace kind hkind hbrace =>
    have ht := hts.mem (List.mem_singleton.mpr rfl)
    exact hx.push rfl hkind rfl ht.1 (Nat.le_refl _) (by dsimp only; omega) (Or.inr rfl)
      (List.append_nil _).symm (by simp)
  | @opensNamespaces x names brace hid hbrace =>
    obtain ⟨middle, hnames, hbraceAt⟩ := Between.append_iff.mp hts
    have ht := hbraceAt.mem (List.mem_singleton.mpr rfl)
    cases names with
    | nil => exact hx.mono hts.start_le_stop
    | cons name names =>
      -- the first name stands in the scope that is current, and the others in front of theirs
      have hall : ∀ t ∈ name :: names, start ≤ t.start ∧ t.stop ≤ brace.start := fun t hmem => by
        have := hnames.mem hmem
        omega
      rw [List.forall_mem_cons] at hall
      have hstart : start ≤ brace.start := Nat.le_trans hnames.start_le_stop ht.1
      obtain ⟨namespaceNames, hcons⟩ := openNamespaces_cons x false brace.start name names
      rw [hcons]
      refine Nested.mono (nested_openNamespaces ?_ ⟨_, Array.getElem?_push_size, rfl⟩
        fun t hmem => (hall.2 t hmem).2) (Nat.le_of_lt (Nat.lt_of_lt_of_le ht.2.1 ht.2.2))
      refine hx.push rfl (by simp) rfl hstart (Nat.le_refl _) (Nat.le_refl _) (Or.inr rfl)
        Array.toList_push fun e he => ?_
      obtain rfl := List.mem_singleton.mp he
      exact hx.homed_current (grows_push _ _) rfl hall.1.1 (by simp)
  | closes hbrace hleave =>
    obtain ⟨left, kept, hopened, -, rfl⟩ := leave_eq hleave
    obtain ⟨hstart, hpos, hstop⟩ := hts
    exact (hx.leave (by omega) hopened).mono hstop
  | append _ _ ihxy ihyz =>
    obtain ⟨middle, hfirst, hsecond⟩ := Between.append_iff.mp hts
    exact ihyz hsecond (ihxy hfirst hx)
  | within _ hsub ih => exact ih (hts.sublist hsub) hx

/-- At the end of a file all scopes are left. -/
theorem Nested.endOpened (h : x.Nested stop) : Nested { x.endOpened stop with opened := [] } stop := by
  rw [endOpened_eq]
  exact h.leave (Nat.le_refl stop) (List.append_nil x.opened).symm

/-- The scope of the file ends where the file does. -/
theorem Placed.file_endOpened {file : Scope} (h : x.Placed file stop) :
    (x.endOpened stop).scopes[0]? = some file := by
  rw [endOpened_eq, getElem?_endScopes, if_neg fun hmem => Nat.lt_irrefl 0 (h.opened 0 hmem).1]
  exact h.file

end Extraction

/-! ## The tree -/

/-- Scopes that stand one in another. -/
structure ScopeTree (scopes : Array Scope) : Prop where
  /-- The first scope is the file, which has no parent. -/
  file : ∃ s, scopes[0]? = some s ∧ s.kind = .file ∧ s.parent = none
  /-- Any other scope is no file and stands in its parent, which comes before it. -/
  nested : ∀ (i : Nat) (s : Scope), scopes[i]? = some s → i ≠ 0 → s.kind ≠ .file ∧
    ∃ (p : Nat) (outer : Scope), s.parent = some p ∧ p < i ∧ scopes[p]? = some outer ∧
      outer.start ≤ s.start ∧ s.stop ≤ outer.stop
  start_le_stop : ∀ (i : Nat) (s : Scope), scopes[i]? = some s → s.start ≤ s.stop
  /-- The scopes in one parent stand one after another. -/
  apart : ∀ (i j : Nat) (s t : Scope), scopes[i]? = some s → scopes[j]? = some t → i < j →
    s.parent = t.parent → s.stop ≤ t.start

/-- Scopes of which none is open any more are a tree. -/
theorem Extraction.Nested.scopeTree {x : Extraction} {stop : Nat} {file : Scope} (h : x.Nested stop)
    (hopened : x.opened = []) (hfile : x.scopes[0]? = some file) (hstop : file.stop = stop) :
    ScopeTree x.scopes := by
  refine ⟨?_, ?_, ?_, ?_⟩
  · obtain ⟨s, hs, hkind, hnone, -⟩ := h.file
    exact ⟨s, hs, hkind, hnone⟩
  · intro i s hs hi
    obtain ⟨hkind, p, outer, hp, hlt, houter, hstart, hin⟩ := h.parent i s hs hi
    refine ⟨hkind, p, outer, hp, hlt, houter, hstart, ?_⟩
    rcases hin with hmem | rfl | ⟨-, hle⟩
    · rw [hopened] at hmem
      exact absurd hmem (by simp)
    · rw [hfile] at houter
      rw [← Option.some.inj houter, hstop]
      exact (h.span i s hs hi).2
    · exact hle
  · intro i s hs
    by_cases hi : i = 0
    · rw [hi, hfile] at hs
      have hle := h.start_le hfile
      rw [← Option.some.inj hs, hstop]
      exact hle
    · exact (h.span i s hs hi).1
  · exact fun i j s t hs ht hij hsame => (h.apart i j s t hs ht hij hsame).2

/-- Going from scope to parent ends at the file, since every parent comes before its scopes. -/
theorem ScopeTree.chainFrom_ends {scopes : Array Scope} (h : ScopeTree scopes) {room i : Nat} (hroom : i < room)
    (hi : i < scopes.size) :
    ∃ outer, Model.chainFrom scopes room i = i :: outer ∧ (i :: outer).getLast? = some 0 ∧
      (i :: outer).IsChain fun inner p => scopes[inner]?.bind (·.parent) = some p := by
  induction i using Nat.strongRecOn generalizing room with
  | _ i ih =>
    obtain ⟨room, rfl⟩ := Nat.exists_eq_succ_of_ne_zero (Nat.ne_of_gt (Nat.zero_lt_of_lt hroom))
    have hs := Array.getElem?_eq_getElem hi
    rw [Model.chainFrom]
    by_cases hzero : i = 0
    · subst hzero
      obtain ⟨file, hfile, -, hnone⟩ := h.file
      rw [hfile, Option.bind_some, hnone]
      exact ⟨[], rfl, rfl, .singleton 0⟩
    · obtain ⟨-, p, -, hp, hlt, -⟩ := h.nested i _ hs hzero
      have hstep : scopes[i]?.bind (·.parent) = some p := by
        rw [hs, Option.bind_some, hp]
      have hroom' : p < room := by omega
      obtain ⟨outer, houter, hlast, hchain⟩ := ih p hlt hroom' (Nat.lt_trans hlt hi)
      rw [hstep]
      dsimp only
      rw [houter]
      refine ⟨p :: outer, rfl, ?_, hchain.cons_cons hstep⟩
      rw [List.getLast?_cons_cons]
      exact hlast

/-- A model of which the scopes are a tree, with the entities in it. -/
structure Model.WellScoped (m : Model) : Prop where
  tree : ScopeTree m.scopes
  /-- The scopes around a scope are found by going from parent to parent until the file is reached. -/
  chain : ∀ i < m.scopes.size, ∃ outer, m.chain i = i :: outer ∧ (i :: outer).getLast? = some 0 ∧
    (i :: outer).IsChain fun inner p => (m.scope? inner).bind (·.parent) = some p
  /-- An entity has a scope, and what its braces or its parameters open is a child of that. -/
  home : ∀ e ∈ m.entities, (∃ s, m.scopes[e.scope]? = some s) ∧
    ∀ b, e.bodyScope = some b → ∃ s, m.scopes[b]? = some s ∧ s.parent = some e.scope
  /-- The name of an entity stands in its scope. A later name of `namespace a::b` stands in front of it. -/
  name : ∀ e ∈ m.entities, e.kind ≠ .macro_ →
    (∃ s, m.scopes[e.scope]? = some s ∧ s.start ≤ e.token.start ∧ e.token.stop ≤ s.stop) ∨
      e.IsChained m.scopes

/-- An item of a chain is the last one or stands in relation to another. -/
theorem eq_getLast_or_exists_of_isChain {α : Type} {r : α → α → Prop} {a : α} {as : List α} (h : as.IsChain r)
    (ha : a ∈ as) : as.getLast? = some a ∨ ∃ b, r a b := by
  induction as with
  | nil => exact absurd ha List.not_mem_nil
  | cons c cs ih =>
    cases cs with
    | nil => exact .inl (List.mem_singleton.mp ha ▸ rfl)
    | cons d ds =>
      obtain ⟨hfirst, hrest⟩ := List.isChain_cons_cons.mp h
      rcases List.mem_cons.mp ha with rfl | ha
      · exact .inr ⟨d, hfirst⟩
      · rw [List.getLast?_cons_cons]
        exact ih hrest ha

namespace Model.WellScoped

variable {m : Model} (h : m.WellScoped) {e : Entity} (he : e ∈ m.entities)
include h he

theorem exists_scope : ∃ s, m.scope? e.scope = some s := (h.home e he).1

theorem exists_bodyScope {b : Nat} (hb : e.bodyScope = some b) : ∃ s, m.scope? b = some s := by
  obtain ⟨s, hs, -⟩ := (h.home e he).2 b hb
  exact ⟨s, hs⟩

/-- Going outward from the scope of an entity meets no index without a scope. -/
theorem exists_scope_of_mem_chain {i : Nat} (hi : i ∈ m.chain e.scope) : ∃ s, m.scope? i = some s := by
  obtain ⟨s, hs⟩ := h.exists_scope he
  obtain ⟨hlt, -⟩ := Array.getElem?_eq_some_iff.mp hs
  obtain ⟨outer, hchain, hlast, hlinked⟩ := h.chain e.scope hlt
  rw [hchain] at hi
  rcases eq_getLast_or_exists_of_isChain hlinked hi with hend | ⟨p, hp⟩
  · -- the chain ends at the file
    obtain rfl := Option.some.inj (hlast.symm.trans hend)
    obtain ⟨file, hfile, -⟩ := h.tree.file
    exact ⟨file, hfile⟩
  · obtain ⟨s, hs, -⟩ := Option.bind_eq_some_iff.mp hp
    exact ⟨s, hs⟩

end Model.WellScoped

/-- The entities of a file have their homes in its scopes, but for macros, which stand in directives. -/
theorem homed_of_mem_entities {text : Text} {e : Entity} (he : e ∈ (extract (tokens text)).entities) :
    e.Homed (extract (tokens text)).scopes ∨ ∃ directive, Extraction.IsMacroOf e directive := by
  have htakes : Extraction.Takes (Token.code (tokens text)) (Token.code (tokens text)) _
      (Extraction.readCode (tokens text)) := Extraction.takes_run _ List.suffix_rfl
  have hnested := Extraction.nested_of_takes htakes (between_code text) (Extraction.nested_initial _)
  obtain ⟨macros, hentities, hscopes, hmacros⟩ := Extraction.ofTokens_eq_readCode (tokens text)
  rw [mem_entities_extract, hentities] at he
  rcases List.mem_append.mp he with he | he
  · left
    show e.Homed (Extraction.ofTokens (tokens text)).scopes
    rw [hscopes, Extraction.endOpened_eq]
    exact (hnested.homed e he).mono (grows_endScopes _ _ _)
  · obtain ⟨directive, -, -, hof⟩ := hmacros e he
    exact Or.inr ⟨directive, hof⟩

/-- The scope of a file is there. -/
theorem exists_file_scope (text : Text) : ∃ s, (extract (tokens text)).scopes[0]? = some s := by
  have htakes : Extraction.Takes (Token.code (tokens text)) (Token.code (tokens text)) _
      (Extraction.readCode (tokens text)) := Extraction.takes_run _ List.suffix_rfl
  have hplaced := Extraction.placed_of_takes htakes (between_code text) (Extraction.placed_initial _)
  obtain ⟨_, -, hscopes, -⟩ := Extraction.ofTokens_eq_readCode (tokens text)
  have hfile := hplaced.file_endOpened
  rw [← hscopes] at hfile
  exact ⟨_, hfile⟩

/-- The scope of an entity is there, and the one that it opens is a child of that. -/
theorem home_of_mem_entities {text : Text} {e : Entity} (he : e ∈ (extract (tokens text)).entities) :
    (∃ s, (extract (tokens text)).scopes[e.scope]? = some s) ∧
      ∀ b, e.bodyScope = some b → ∃ s, (extract (tokens text)).scopes[b]? = some s ∧ s.parent = some e.scope := by
  rcases homed_of_mem_entities he with hhome | ⟨directive, hof⟩
  · refine ⟨?_, hhome.body⟩
    rcases hhome.start with ⟨s, hs, -⟩ | ⟨-, _, _, outer, -, -, -, -, -, houter, -⟩
    · exact ⟨s, hs⟩
    · exact ⟨outer, houter⟩
  · rw [hof.scope, hof.bodyScope]
    exact ⟨exists_file_scope text, by simp⟩

/-- The scopes of every text are a tree, whatever braces it lacks or has too many. -/
theorem scopes_form_tree (text : Text) : (extract (tokens text)).WellScoped := by
  have htakes : Extraction.Takes (Token.code (tokens text)) (Token.code (tokens text)) _
      (Extraction.readCode (tokens text)) := Extraction.takes_run _ List.suffix_rfl
  have hplaced := Extraction.placed_of_takes htakes (between_code text) (Extraction.placed_initial _)
  have hnested := Extraction.nested_of_takes htakes (between_code text) (Extraction.nested_initial _)
  obtain ⟨-, -, hscopes, -⟩ := Extraction.ofTokens_eq_readCode (tokens text)
  have hfile := hplaced.file_endOpened
  have htree := hnested.endOpened.scopeTree rfl hfile rfl
  change ScopeTree ((Extraction.readCode (tokens text)).endOpened _).scopes at htree
  rw [← hscopes] at htree
  refine ⟨htree, fun i hi => htree.chainFrom_ends hi hi, fun e he => home_of_mem_entities he,
    fun e he hkind => ?_⟩
  rcases homed_of_mem_entities he with hhome | ⟨directive, hof⟩
  · rcases hhome.start with ⟨s, hs, hstart⟩ | hchained
    · rcases token_within_scope he with ⟨s', hs', hstop, -⟩ | ⟨directive, -, -, hof⟩
      · have hsame := hs.symm.trans hs'
        obtain rfl := Option.some.inj hsame
        exact Or.inl ⟨s, hs, hstart, hstop⟩
      · exact absurd hof.kind hkind
    · exact Or.inr hchained
  · exact absurd hof.kind hkind

set_option maxRecDepth 10000 in
/-- The name of the inner one of two namespaces opened together stands in front of the outer one. -/
theorem exists_name_before_scope :
    ¬∀ e ∈ (extract (tokens (Text.ofString "namespace a::b \x7b \x7d"))).entities, e.kind ≠ .macro_ →
      ∃ s, (extract (tokens (Text.ofString "namespace a::b \x7b \x7d"))).scopes[e.scope]? = some s ∧
        s.start ≤ e.token.start ∧ e.token.stop ≤ s.stop := by
  have horder : InOrder (Text.ofString "namespace a::b \x7b \x7d") := by decide +kernel
  rw [extract_eq_asRead horder.1]
  intro h
  obtain ⟨e, he, hkind, s, hs, hlt⟩ : ∃ e ∈ (Extraction.ofTokens (tokens
      (Text.ofString "namespace a::b \x7b \x7d"))).asRead.entities, e.kind ≠ .macro_ ∧
      ∃ s ∈ (Extraction.ofTokens (tokens (Text.ofString "namespace a::b \x7b \x7d"))).asRead.scopes[e.scope]?,
        e.token.start < s.start := by
    decide +kernel
  obtain ⟨s', hs', hle, -⟩ := h e he hkind
  rw [Option.mem_def.mp hs] at hs'
  obtain rfl := Option.some.inj hs'
  omega

end HouseStyle
