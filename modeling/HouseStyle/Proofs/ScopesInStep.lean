import HouseStyle.Proofs.ScopeBraces

/-!
# Scopes in step with braces

Where the brackets of the code are nested, the scopes of a file are in step with its braces (`InStep`): no
closing brace is stray, all scopes have been left at the end, and each scope that a statement has entered at a
brace ends at the partner of that brace. This is so just if no statement passes the brace of a body without a
scope (`Reading.passesBody`).

The open scopes fall into groups, each of which one brace will leave (`Grouped`). As long as scopes and braces
are in step there are as many groups as closing braces without an opening one. A body that is passed leaves
one brace more, and there it stays (`length_braces_le`), until a closing brace finds no scope.

- `exists_turn`: what one statement does to the groups.
- `length_braces_le`: without stray braces, no group is missing at any time.
- `runs_of_not_passes`: where no body is passed, how the scopes end.
- `scopes_in_step_iff`: the condition for a whole file.
- `exists_stray_brace`: a function behind the brace of a class.
-/

namespace HouseStyle

namespace Extraction

variable {x y : Extraction} {ts : List Token} {groups : List (List Nat)}

/-! ## Groups of open scopes -/

/-- The open scopes in groups, the innermost first. -/
structure Grouped (x : Extraction) (groups : List (List Nat)) : Prop where
  opened : x.opened = groups.flatten
  group : ∀ g ∈ groups, IsGroup x.scopes g
  bound : ∀ i ∈ x.opened, i < x.scopes.size
  sorted : x.opened.Pairwise (· > ·)

theorem Grouped.kept (h : Grouped x groups) (hkept : Kept x y) : Grouped y groups := by
  refine ⟨hkept.opened.trans h.opened, fun g hg => (h.group g hg).mono fun i hi s hs => ⟨s, ?_, rfl⟩, ?_, ?_⟩
  · have hopen : i ∈ x.opened := by
      rw [h.opened]
      exact List.mem_flatten.mpr ⟨g, hg, hi⟩
    rw [hkept.old i (h.bound i hopen), hs]
  · rw [hkept.opened]
    exact fun i hi => Nat.lt_of_lt_of_le (h.bound i hi) hkept.size
  · rw [hkept.opened]
    exact h.sorted

theorem Grouped.enters (h : Grouped x groups) {g : List Nat} (henters : Enters x y g) : Grouped y (g :: groups) := by
  refine ⟨by rw [henters.opened, h.opened]; rfl, fun g' hg' => ?_, fun i hi => ?_, ?_⟩
  · rcases List.mem_cons.mp hg' with rfl | hg'
    · exact henters.group
    · refine (h.group g' hg').mono fun i hi s hs => ⟨s, ?_, rfl⟩
      have hopen : i ∈ x.opened := by
        rw [h.opened]
        exact List.mem_flatten.mpr ⟨g', hg', hi⟩
      rw [henters.old i (h.bound i hopen), hs]
  · rw [henters.opened] at hi
    rcases List.mem_append.mp hi with hi | hi
    · exact (henters.bounds i hi).2
    · exact Nat.lt_of_lt_of_le (h.bound i hi) henters.size
  · rw [henters.opened]
    refine List.pairwise_append.mpr ⟨henters.sorted, h.sorted, fun i hi j hj => ?_⟩
    exact Nat.lt_of_lt_of_le (h.bound j hj) (henters.bounds i hi).1

/-- The innermost group has been left, and its scopes end at an offset. -/
def left (x : Extraction) (g : List Nat) (outer : List (List Nat)) (stop : Nat) : Extraction :=
  { x with scopes := endScopes x.scopes g stop, opened := outer.flatten }

theorem Grouped.left {g : List Nat} {outer : List (List Nat)} (h : Grouped x (g :: outer)) (stop : Nat) :
    Grouped (x.left g outer stop) outer := by
  have hopened : x.opened = g ++ outer.flatten := h.opened
  refine ⟨rfl, fun g' hg' => (h.group g' (List.mem_cons_of_mem g hg')).mono fun i _ s hs => ?_, fun i hi => ?_, ?_⟩
  · show ∃ s', (endScopes x.scopes g stop)[i]? = some s' ∧ _
    rw [getElem?_endScopes, hs]
    split
    · exact ⟨_, rfl, rfl⟩
    · exact ⟨_, rfl, rfl⟩
  · show i < (endScopes x.scopes g stop).size
    rw [size_endScopes]
    refine h.bound i ?_
    rw [hopened]
    exact List.mem_append_right g hi
  · have hsorted := h.sorted
    rw [hopened] at hsorted
    exact (List.pairwise_append.mp hsorted).2.1

/-- A brace leaves the whole of the innermost group. -/
theorem leave_go_group (stop : Nat) {front : List Nat} {i : Nat} (outer : List Nat)
    (hfront : ∀ j ∈ front, ∃ s, x.scopes[j]? = some s ∧ s.chained = true)
    (hlast : ∃ s, x.scopes[i]? = some s ∧ s.chained = false) :
    ∃ closed, leave.go stop x (front ++ i :: outer) =
      some (closed, { x with scopes := endScopes x.scopes (front ++ [i]) stop, opened := outer }) := by
  induction front generalizing x with
  | nil =>
    obtain ⟨s, hs, hchained⟩ := hlast
    have hget : x.scopes.getD i ⟨.file, none, none, 0, 0, false, false⟩ = s := by
      rw [Array.getD_eq_getD_getElem?, hs]
      rfl
    refine ⟨s, ?_⟩
    rw [List.nil_append, leave.go]
    dsimp only
    rw [hget, hchained, if_neg Bool.false_ne_true]
    rfl
  | cons j front ih =>
    obtain ⟨s, hs, hchained⟩ := hfront j List.mem_cons_self
    have hget : x.scopes.getD j ⟨.file, none, none, 0, 0, false, false⟩ = s := by
      rw [Array.getD_eq_getD_getElem?, hs]
      rfl
    -- ending a scope changes no other field of a scope
    have hkept : ∀ (k : Nat) (flag : Bool), (∃ s, x.scopes[k]? = some s ∧ s.chained = flag) →
        ∃ s, (x.endScope j stop).scopes[k]? = some s ∧ s.chained = flag := by
      intro k flag hk
      obtain ⟨s, hs, hflag⟩ := hk
      show ∃ s, (x.scopes.modify j _)[k]? = some s ∧ _
      rw [Array.getElem?_modify, hs]
      split
      · exact ⟨_, rfl, hflag⟩
      · exact ⟨_, rfl, hflag⟩
    obtain ⟨closed, hgo⟩ := ih (x := { x.endScope j stop with opened := front ++ i :: outer })
      (fun k hk => hkept k true (hfront k (List.mem_cons_of_mem j hk))) (hkept i false hlast)
    refine ⟨closed, ?_⟩
    rw [List.cons_append, leave.go]
    dsimp only
    rw [hget, hchained, if_pos rfl, hgo]
    rfl

theorem leave_of_grouped {g : List Nat} {outer : List (List Nat)} (h : Grouped x (g :: outer)) (stop : Nat) :
    ∃ closed, x.leave stop = some (closed, x.left g outer stop) := by
  obtain ⟨front, i, rfl, hfront, hlast⟩ := h.group g List.mem_cons_self
  have hopened : x.opened = front ++ i :: outer.flatten := by
    rw [h.opened, List.flatten_cons, List.append_assoc]
    rfl
  obtain ⟨closed, hgo⟩ := leave_go_group stop outer.flatten hfront hlast
  refine ⟨closed, ?_⟩
  unfold leave
  rw [hopened, hgo]
  rfl

/-! ## One statement -/

/-- What a statement does to the groups of open scopes. -/
inductive Turn (r : Reading) (groups : List (List Nat)) : List (List Nat) → Prop
  | keeps (hno : r.passesBody = false) (h : Kept r.state r.result.1) (hbraces : braces r.result.2 = braces r.tokens) :
    Turn r groups groups
  | enters {g : List Nat} {brace closer : Token} (hno : r.passesBody = false) (h : Enters r.state r.result.1 g)
    (hts : ∃ front, r.tokens = front ++ brace :: r.result.2) (hbrace : brace.isPunct .lbrace = true)
    (hcloser : (closers r.result.2).head? = some closer) (hbraces : braces r.result.2 = closer :: braces r.tokens) :
    Turn r groups (g :: groups)
  | leaves {g : List Nat} {outer : List (List Nat)} (hno : r.passesBody = false) (hgroups : groups = g :: outer)
    (h : Kept (r.state.left g outer r.first.stop) r.result.1)
    (hbraces : braces r.tokens = r.first :: braces r.result.2) : Turn r groups outer
  | stray (hno : r.passesBody = false) (hgroups : groups = []) (hfirst : r.first.isPunct .rbrace = true)
    (hbraces : braces r.tokens = r.first :: braces r.result.2) : Turn r groups groups
  | passes (hpasses : r.passesBody = true) {outer : List (List Nat)}
    (hcount : outer.length + (braces r.tokens).length < groups.length + (braces r.result.2).length) :
    Turn r groups outer

/-- A closing brace leaves the innermost group, if there is one. -/
theorem exists_turn_of_closing (r : Reading) (h : paired r.tokens = true) (hgroups : Grouped r.state groups)
    (hfirst : r.first.isPunct .rbrace = true) : ∃ groups', Turn r groups groups' ∧ Grouped r.result.1 groups' := by
  have hkind : r.first.kind = .punct .rbrace := by simpa [Token.isPunct] using hfirst
  have hresult : r.result = r.state.closeScope r.first r.behind := by
    unfold Reading.result statement
    rw [hkind]
  have hpasses : r.passesBody = (r.closesType && declaratorsPassBody r.behind) := by
    unfold Reading.passesBody
    rw [hkind]
  have hclosing : braces r.tokens = r.first :: braces r.behind := braces_closing hfirst
  cases groups with
  -- no group is open: the brace is stray and is noted
  | nil =>
    have hleave : r.state.leave r.first.stop = none := by
      unfold leave
      rw [hgroups.opened]
      rfl
    have hcloses : r.closesType = false := by
      unfold Reading.closesType
      rw [hleave]
      rfl
    have hstray : r.result = (r.state.noteAnomaly [r.first], r.behind) := by
      rw [hresult, closeScope, hleave]
    refine ⟨[], .stray (by rw [hpasses, hcloses]; rfl) rfl hfirst (by rw [hstray, hclosing]), ?_⟩
    rw [hstray]
    exact hgroups.kept (kept_noteAnomaly r.state [r.first])
  | cons g outer =>
    -- the brace ends the innermost group; a type may have variables behind it
    obtain ⟨closed, hleave⟩ := leave_of_grouped hgroups r.first.stop
    have hleft := hgroups.left r.first.stop
    obtain ⟨hkept, hbody, hplain⟩ := kept_trailingDeclarators (r.state.left g outer r.first.stop) closed
      (paired_tail h)
    have hcloses : r.closesType = (closed.kind == .class_ || closed.kind == .enum) := by
      unfold Reading.closesType
      rw [hleave]
      rfl
    have hclose : r.result = if r.closesType then
        (r.state.left g outer r.first.stop).trailingDeclarators closed r.behind
        else (r.state.left g outer r.first.stop, r.behind) := by
      rw [hresult, closeScope, hleave, hcloses]
    by_cases htype : r.closesType = true
    · rw [if_pos htype] at hclose
      rw [htype, Bool.true_and] at hpasses
      refine ⟨outer, ?_, by rw [hclose]; exact hleft.kept hkept⟩
      by_cases hdeclarators : declaratorsPassBody r.behind = true
      · obtain ⟨closer, hbraces⟩ := hbody hdeclarators
        refine .passes (hpasses.trans hdeclarators) ?_
        rw [hclosing, hclose, hbraces, List.length_cons, List.length_cons, List.length_cons]
        omega
      · rw [Bool.not_eq_true] at hdeclarators
        refine .leaves (hpasses.trans hdeclarators) rfl (by rw [hclose]; exact hkept) ?_
        rw [hclosing, hclose, hplain hdeclarators]
    · rw [if_neg htype] at hclose
      rw [Bool.not_eq_true] at htype
      refine ⟨outer, .leaves (by rw [hpasses, htype]; rfl) rfl (by rw [hclose]; exact .refl _)
        (by rw [hclose, hclosing]), ?_⟩
      rw [hclose]
      exact hleft

/-- A `typedef` that passes a body leaves the groups as they are. -/
theorem exists_turn_of_passing (r : Reading) (h : paired r.tokens = true) (hgroups : Grouped r.state groups)
    (hfirst : r.first.isPunct .rbrace = false) (hpasses : r.passesBody = true) :
    ∃ groups', Turn r groups groups' ∧ Grouped r.result.1 groups' := by
  obtain ⟨htypedef, henum, hplain⟩ : r.first.kind = .keyword .typedefKw ∧
      (r.state.current.kind == .enum) = false ∧
      (!r.isTypedefOfClass && endsInBody (Head.read r.tokens)) = true := by
    unfold Reading.passesBody at hpasses
    split at hpasses
    · next hkind => exact absurd hfirst (by simp [Token.isPunct, hkind])
    · next hkind =>
      rw [Bool.and_assoc, Bool.and_eq_true] at hpasses
      exact ⟨hkind, by simpa [bne] using hpasses.1, hpasses.2⟩
    · exact absurd hpasses (by simp)
  have hresult : r.result = r.state.typedefStatement (r.first :: r.behind) := by
    unfold Reading.result statement
    simp only [htypedef, henum]
    rfl
  obtain ⟨hkept, closer, hbraces⟩ := kept_typedefStatement r.state h hplain
  rw [← hresult] at hkept hbraces
  refine ⟨groups, .passes hpasses ?_, hgroups.kept hkept⟩
  rw [hbraces, List.length_cons]
  exact Nat.lt_succ_self _

theorem exists_turn (r : Reading) (h : paired r.tokens = true) (hgroups : Grouped r.state groups) :
    ∃ groups', Turn r groups groups' ∧ Grouped r.result.1 groups' := by
  by_cases hfirst : r.first.isPunct .rbrace = true
  · exact exists_turn_of_closing r h hgroups hfirst
  rw [Bool.not_eq_true] at hfirst
  by_cases hpasses : r.passesBody = true
  · exact exists_turn_of_passing r h hgroups hfirst hpasses
  rw [Bool.not_eq_true] at hpasses
  cases outcome_statement r h hfirst hpasses with
  | keeps hkept hbraces => exact ⟨groups, .keeps hpasses hkept hbraces, hgroups.kept hkept⟩
  | @enters g brace closer henters hts hbrace hcloser hbraces =>
    exact ⟨g :: groups, .enters hpasses henters hts hbrace hcloser hbraces, hgroups.enters henters⟩

/-- As long as no brace is stray, a statement makes up by a group for each brace that it opens, unless it
passes a body. -/
theorem Turn.count {r : Reading} {groups' : List (List Nat)} (h : Turn r groups groups')
    (hstray : r.first.isPunct .rbrace = true → groups ≠ []) :
    groups'.length + (braces r.tokens).length ≤ groups.length + (braces r.result.2).length ∧
      (r.passesBody = true →
        groups'.length + (braces r.tokens).length < groups.length + (braces r.result.2).length) := by
  have different : r.passesBody = false → ∀ {n m : Nat}, r.passesBody = true → n < m := by
    intro hno _ _ hyes
    rw [hno] at hyes
    exact absurd hyes (by decide)
  cases h with
  | keeps hno _ hbraces => exact ⟨Nat.le_of_eq (by rw [hbraces]), different hno⟩
  | enters hno _ _ _ _ hbraces =>
    refine ⟨?_, different hno⟩
    rw [hbraces, List.length_cons, List.length_cons]
    omega
  | leaves hno hgroups _ hbraces =>
    refine ⟨?_, different hno⟩
    rw [hgroups, hbraces, List.length_cons, List.length_cons]
    omega
  | stray _ hgroups hfirst _ => exact absurd hgroups (hstray hfirst)
  | passes _ hcount => exact ⟨Nat.le_of_lt hcount, fun _ => hcount⟩

/-! ## A whole file -/

/-- The statements of some tokens, each with the state in which it is read. -/
def readings (x : Extraction) (ts : List Token) : List Reading :=
  match ts with
  | [] => []
  | t :: rest =>
    let r := Reading.mk x t rest
    r :: readings r.result.1 r.result.2
termination_by ts.length
decreasing_by
  have := (suffix_statement x t rest).length_le
  simp only [List.length_cons, Reading.result]
  omega

theorem readings_cons (x : Extraction) (t : Token) (rest : List Token) :
    readings x (t :: rest) =
      ⟨x, t, rest⟩ :: readings (x.statement t rest).1 (x.statement t rest).2 := by
  rw [readings]
  rfl

/-- Statement after statement. -/
@[elab_as_elim]
theorem statement_induction {motive : Extraction → List Token → Prop} (nil : ∀ x, motive x [])
    (cons : ∀ x t rest, motive (x.statement t rest).1 (x.statement t rest).2 → motive x (t :: rest))
    (x : Extraction) (ts : List Token) : motive x ts :=
  run.induct motive nil cons x ts

/-- If no brace is stray, no group is missing. If besides a body is passed, there are groups to spare. -/
theorem length_braces_le (hpaired : paired ts = true) (hgroups : Grouped x groups)
    (hstray : ∀ r ∈ readings x ts, r.first.isPunct .rbrace = true → r.state.opened ≠ []) :
    (braces ts).length ≤ groups.length ∧
      ((∃ r ∈ readings x ts, r.passesBody = true) → (braces ts).length < groups.length) := by
  induction x, ts using statement_induction generalizing groups with
  | nil x => exact ⟨Nat.zero_le _, by simp [readings]⟩
  | cons x t rest ih =>
    rw [readings_cons] at hstray ⊢
    rw [List.forall_mem_cons] at hstray
    obtain ⟨groups', hturn, hgroups'⟩ := exists_turn ⟨x, t, rest⟩ hpaired hgroups
    have hsuffix := paired_of_suffix (paired_tail hpaired) (suffix_statement x t rest)
    obtain ⟨hle, hlt⟩ := ih hsuffix hgroups' hstray.2
    obtain ⟨hcount, hmore⟩ := hturn.count fun hfirst hnil =>
      hstray.1 hfirst (by rw [hgroups.opened, hnil]; rfl)
    change groups'.length + (braces (t :: rest)).length ≤
      groups.length + (braces (x.statement t rest).2).length at hcount
    change _ → groups'.length + (braces (t :: rest)).length <
      groups.length + (braces (x.statement t rest).2).length at hmore
    refine ⟨by omega, ?_⟩
    rintro ⟨r, hr, hpasses⟩
    rcases List.mem_cons.mp hr with rfl | hr
    · have := hmore hpasses
      omega
    · have := hlt ⟨r, hr, hpasses⟩
      omega

/-- A statement enters a scope. -/
def Reading.Enters (r : Reading) (i : Nat) : Prop :=
  r.state.scopes.size ≤ i ∧ i ∈ r.result.1.opened

/-- A statement ends in an opening brace, and this is the partner of that brace. -/
def Reading.EndsAt (r : Reading) (closer : Token) : Prop :=
  (∃ front brace, r.tokens = front ++ brace :: r.result.2 ∧ brace.isPunct .lbrace = true) ∧
    (closers r.result.2).head? = some closer ∧ closer.isPunct .rbrace = true

/-- The scopes are in step with the braces in some statements: what has been read when they are over, given
what had been read before, with the open scopes in groups and the closing braces that end them. -/
structure Runs (x : Extraction) (rs : List Reading) (groups : List (List Nat)) (closing : List Token)
    (y : Extraction) : Prop where
  closed : y.opened = []
  stray : ∀ r ∈ rs, r.first.isPunct .rbrace = true → r.state.opened ≠ []
  /-- The scopes that have been left stay as they are. -/
  left : ∀ i < x.scopes.size, i ∉ x.opened → y.scopes[i]? = x.scopes[i]?
  /-- The open scopes end at the closing braces to come. -/
  opened : ∀ p ∈ groups.zip closing, ∀ i ∈ p.1, ∃ s, y.scopes[i]? = some s ∧ s.stop = p.2.stop
  /-- The scopes to come end at the partners of the braces at which they are entered. -/
  ends : ∀ r ∈ rs, ∀ i, r.Enters i →
    ∃ s closer, y.scopes[i]? = some s ∧ r.EndsAt closer ∧ s.stop = closer.stop
  /-- All of them are entered but those of functions without a body. -/
  entered : ∀ (i : Nat) (s : Scope), x.scopes.size ≤ i → y.scopes[i]? = some s → s.kind ≠ .function →
    ∃ r ∈ rs, r.Enters i

namespace Runs

variable {z : Extraction} {r : Reading} {rs : List Reading} {closing : List Token}

/-- A statement that enters no scope. -/
theorem of_kept (hgroups : Grouped x groups) (hkept : Kept x y) (h : Runs y rs groups closing z) :
    Runs x rs groups closing z := by
  refine ⟨h.closed, h.stray, fun i hi hout => ?_, h.opened, h.ends, fun i s hi hs hkind => ?_⟩
  · rw [h.left i (Nat.lt_of_lt_of_le hi hkept.size) (by rw [hkept.opened]; exact hout), hkept.old i hi]
  · by_cases hlt : i < y.scopes.size
    · have hout : i ∉ y.opened := by
        rw [hkept.opened]
        exact fun hmem => Nat.not_lt.mpr hi (hgroups.bound i hmem)
      rw [h.left i hlt hout] at hs
      exact absurd (hkept.new i s hi hs) hkind
    · exact h.entered i s (Nat.le_of_not_lt hlt) hs hkind

/-- A closing brace ends the scopes of the innermost group. -/
theorem of_left {g : List Nat} {outer : List (List Nat)} {closer : Token} (hgroups : Grouped x (g :: outer))
    (h : Runs (x.left g outer closer.stop) rs outer closing z) : Runs x rs (g :: outer) (closer :: closing) z := by
  have hsize : (x.left g outer closer.stop).scopes.size = x.scopes.size := size_endScopes _ _ _
  have hopened : x.opened = g ++ outer.flatten := hgroups.opened
  have hsorted := hgroups.sorted
  rw [hopened] at hsorted
  have hafter := (List.pairwise_append.mp hsorted).2.2
  refine ⟨h.closed, h.stray, fun i hi hout => ?_, fun p hp i hi => ?_, h.ends, fun i s hi => ?_⟩
  · rw [hopened, List.mem_append, not_or] at hout
    rw [h.left i (by rw [hsize]; exact hi) hout.2]
    show (endScopes x.scopes g closer.stop)[i]? = _
    rw [getElem?_endScopes, if_neg hout.1]
  · rw [List.zip_cons_cons, List.mem_cons] at hp
    rcases hp with rfl | hp
    · have hbound : i < x.scopes.size := hgroups.bound i (by rw [hopened]; exact List.mem_append_left _ hi)
      have hout : i ∉ outer.flatten := fun hmem => Nat.lt_irrefl i (hafter i hi i hmem)
      rw [h.left i (by rw [hsize]; exact hbound) hout]
      show ∃ s, (endScopes x.scopes g closer.stop)[i]? = some s ∧ _
      rw [getElem?_endScopes, if_pos hi, Array.getElem?_eq_getElem hbound]
      exact ⟨_, rfl, rfl⟩
    · exact h.opened p hp i hi
  · exact h.entered i s (by rw [hsize]; exact hi)

/-- A statement that enters no scope is one more statement. -/
theorem cons_kept (hgroups : Grouped x groups) (hr : r.state.scopes.size = x.scopes.size) (hkept : Kept x r.result.1)
    (hstray : r.first.isPunct .rbrace = true → r.state.opened ≠ []) (h : Runs x rs groups closing y) :
    Runs x (r :: rs) groups closing y := by
  refine ⟨h.closed, List.forall_mem_cons.mpr ⟨hstray, h.stray⟩, h.left, h.opened,
    List.forall_mem_cons.mpr ⟨fun i henters => ?_, h.ends⟩, fun i s hi hs hkind => ?_⟩
  · obtain ⟨hi, hmem⟩ := henters
    rw [hkept.opened] at hmem
    exact absurd (hgroups.bound i hmem) (Nat.not_lt.mpr (hr ▸ hi))
  · obtain ⟨r', hr', henters⟩ := h.entered i s hi hs hkind
    exact ⟨r', List.mem_cons_of_mem r hr', henters⟩

/-- A statement that enters a group of scopes. -/
theorem cons_enters {g : List Nat} {closer : Token} (hgroups : Grouped r.state groups)
    (henters : Extraction.Enters r.state r.result.1 g) (hends : r.EndsAt closer)
    (hstray : r.first.isPunct .rbrace = true → r.state.opened ≠ [])
    (h : Runs r.result.1 rs (g :: groups) (closer :: closing) y) : Runs r.state (r :: rs) groups closing y := by
  have hnew : ∀ i, r.Enters i → i ∈ g := by
    rintro i ⟨hi, hmem⟩
    rw [henters.opened, List.mem_append] at hmem
    exact hmem.resolve_right fun hopen => Nat.not_lt.mpr hi (hgroups.bound i hopen)
  have hopened : ∀ i ∈ g, ∃ s, y.scopes[i]? = some s ∧ s.stop = closer.stop :=
    h.opened (g, closer) List.mem_cons_self
  refine ⟨h.closed, List.forall_mem_cons.mpr ⟨hstray, h.stray⟩, fun i hi hout => ?_, fun p hp => ?_,
    List.forall_mem_cons.mpr ⟨fun i hi => ?_, h.ends⟩, fun i s hi hs hkind => ?_⟩
  · have hout' : i ∉ r.result.1.opened := by
      rw [henters.opened, List.mem_append, not_or]
      exact ⟨fun hmem => Nat.not_lt.mpr (henters.bounds i hmem).1 hi, hout⟩
    rw [h.left i (Nat.lt_of_lt_of_le hi henters.size) hout', henters.old i hi]
  · exact h.opened p (List.mem_cons_of_mem _ hp)
  · obtain ⟨s, hs, hstop⟩ := hopened i (hnew i hi)
    exact ⟨s, closer, hs, hends, hstop⟩
  · by_cases hlt : i < r.result.1.scopes.size
    · by_cases hmem : i ∈ g
      · refine ⟨r, List.mem_cons_self, hi, ?_⟩
        rw [henters.opened]
        exact List.mem_append_left _ hmem
      · have hout : i ∉ r.result.1.opened := by
          rw [henters.opened, List.mem_append, not_or]
          exact ⟨hmem, fun hopen => Nat.not_lt.mpr hi (hgroups.bound i hopen)⟩
        rw [h.left i hlt hout] at hs
        exact absurd ((henters.new i s hi hs).resolve_left hmem) hkind
    · obtain ⟨r', hr', hr'i⟩ := h.entered i s (Nat.le_of_not_lt hlt) hs hkind
      exact ⟨r', List.mem_cons_of_mem r hr', hr'i⟩

end Runs

/-- Where a closing brace is to come, a scope is open. -/
theorem Grouped.opened_ne_nil (h : Grouped x groups) (hgroups : groups ≠ []) : x.opened ≠ [] := by
  cases groups with
  | nil => exact absurd rfl hgroups
  | cons g outer =>
    obtain ⟨front, i, rfl, -⟩ := h.group g List.mem_cons_self
    rw [h.opened]
    simp

/-- Where no body is passed, scopes stay in step with braces. -/
theorem runs_of_not_passes (hpaired : paired ts = true) (hgroups : Grouped x groups)
    (hcount : groups.length = (braces ts).length) (hpasses : ∀ r ∈ readings x ts, r.passesBody = false) :
    Runs x (readings x ts) groups (braces ts) (run x ts) := by
  induction x, ts using statement_induction generalizing groups with
  | nil x =>
    obtain rfl : groups = [] := List.length_eq_zero_iff.mp hcount
    rw [run, readings]
    refine ⟨hgroups.opened, by simp, fun _ _ _ => rfl, by simp, by simp, fun i s hi hs => ?_⟩
    exact absurd (Array.getElem?_eq_some_iff.mp hs).1 (Nat.not_lt.mpr hi)
  | cons x t rest ih =>
    rw [readings_cons, List.forall_mem_cons] at hpasses
    obtain ⟨groups', hturn, hgroups'⟩ := exists_turn ⟨x, t, rest⟩ hpaired hgroups
    have hnext := ih (paired_of_suffix (paired_tail hpaired) (suffix_statement x t rest)) hgroups'
    -- there are as many groups as braces, so a brace that closes finds one
    have hstray : t.isPunct .rbrace = true → x.opened ≠ [] := by
      intro hfirst
      refine hgroups.opened_ne_nil fun hnil => ?_
      rw [braces_closing hfirst, hnil] at hcount
      exact absurd hcount (by simp)
    rw [readings_cons, run]
    cases hturn with
    | keeps _ hkept hbraces =>
      change braces (x.statement t rest).2 = braces (t :: rest) at hbraces
      rw [← hbraces] at hcount ⊢
      exact ((hnext hcount hpasses.2).of_kept hgroups hkept).cons_kept (r := ⟨x, t, rest⟩) hgroups rfl hkept hstray
    | @enters g brace closer _ henters hts hbrace hcloser hbraces =>
      change braces (x.statement t rest).2 = closer :: braces (t :: rest) at hbraces
      rw [hbraces] at hnext
      have hends : (Reading.mk x t rest).EndsAt closer := by
        obtain ⟨front, hfront⟩ := hts
        have hmem : closer ∈ braces (x.statement t rest).2 := by
          rw [hbraces]
          exact List.mem_cons_self
        exact ⟨⟨front, brace, hfront, hbrace⟩, hcloser, (List.mem_filter.mp hmem).2⟩
      exact .cons_enters hgroups henters hends hstray
        (hnext (by rw [List.length_cons, List.length_cons, hcount]) hpasses.2)
    | @leaves g outer _ hsame hkept hbraces =>
      subst hsame
      change braces (t :: rest) = t :: braces (x.statement t rest).2 at hbraces
      change Kept (x.left g groups' t.stop) (x.statement t rest).1 at hkept
      rw [hbraces, List.length_cons, List.length_cons] at hcount
      rw [hbraces]
      have hleft := hgroups.left t.stop
      have hrun := ((hnext (Nat.succ.inj hcount) hpasses.2).of_kept hleft hkept).cons_kept (r := ⟨x, t, rest⟩)
        hleft (size_endScopes _ _ _).symm hkept hstray
      exact .of_left hgroups hrun
    | stray _ hnil hfirst =>
      exact absurd (hgroups.opened.trans (by rw [hnil]; rfl)) (hstray hfirst)
    | passes hyes => exact absurd hyes (by rw [hpasses.1]; decide)

/-- The scopes of a file are in step with its braces. -/
structure InStep (tokens : List Token) : Prop where
  /-- No closing brace is stray. -/
  stray : ∀ r ∈ readings (initial (codeEnd tokens)) (Token.code tokens),
    r.first.isPunct .rbrace = true → r.state.opened ≠ []
  /-- All scopes have been left at the end. -/
  closed : (readCode tokens).opened = []
  /-- A scope that a statement enters at a brace ends at the partner of that brace. -/
  ends : ∀ r ∈ readings (initial (codeEnd tokens)) (Token.code tokens), ∀ i, r.Enters i →
    ∃ s closer, (extract tokens).scopes[i]? = some s ∧ r.EndsAt closer ∧ s.stop = closer.stop
  /-- Every scope is entered by a statement but that of the file and those of functions without a body. -/
  entered : ∀ (i : Nat) (s : Scope), 0 < i → (extract tokens).scopes[i]? = some s → s.kind ≠ .function →
    ∃ r ∈ readings (initial (codeEnd tokens)) (Token.code tokens), r.Enters i

/-- Where all brackets are properly nested, scopes are in step with braces just if no statement passes the
brace of a body without a scope. -/
theorem scopes_in_step_iff (tokens : List Token) (h : IsNested (Token.code tokens)) :
    InStep tokens ↔
      ∀ r ∈ readings (initial (codeEnd tokens)) (Token.code tokens), r.passesBody = false := by
  obtain ⟨hpaired, hclosers⟩ := h
  have hbraces : braces (Token.code tokens) = [] := by rw [braces, hclosers]; rfl
  have hgroups : Grouped (initial (codeEnd tokens)) [] := ⟨rfl, by simp, by simp [initial], by simp [initial]⟩
  constructor
  · intro hstep r hr
    rw [← Bool.not_eq_true]
    intro hpasses
    have hlt := (length_braces_le hpaired hgroups hstep.stray).2 ⟨r, hr, hpasses⟩
    exact absurd hlt (Nat.not_lt_zero _)
  · intro hpasses
    have hruns := runs_of_not_passes hpaired hgroups (by rw [hbraces]; rfl) hpasses
    have hclosed : (readCode tokens).opened = [] := hruns.closed
    have hscopes : (extract tokens).scopes = (readCode tokens).scopes := by
      obtain ⟨-, -, hof, -⟩ := ofTokens_eq_readCode tokens
      rw [extract_eq]
      change (ofTokens tokens).scopes = _
      rw [hof, endOpened_eq, hclosed]
      rfl
    exact ⟨hruns.stray, hclosed, by rw [hscopes]; exact hruns.ends, by rw [hscopes]; exact hruns.entered⟩

set_option maxRecDepth 10000 in
/-- A block in a function of a class in two namespaces: no body is passed, and the scopes are in step. -/
theorem scopes_in_step_nested_namespaces :
    IsNested (Token.code (tokens (Text.ofString
      "namespace a::b \x7b class C \x7b void f() \x7b if (x) \x7b g(); \x7d \x7d \x7d c; \x7d"))) ∧
      InStep (tokens (Text.ofString
        "namespace a::b \x7b class C \x7b void f() \x7b if (x) \x7b g(); \x7d \x7d \x7d c; \x7d")) := by
  obtain ⟨ts, rfl, hnested, hpasses⟩ : ∃ ts, tokens (Text.ofString
      "namespace a::b \x7b class C \x7b void f() \x7b if (x) \x7b g(); \x7d \x7d \x7d c; \x7d") = ts ∧
        IsNested (Token.code ts) ∧ ∀ r ∈ readings (initial (codeEnd ts)) (Token.code ts), r.passesBody = false := by
    refine ⟨_, rfl, ?_⟩
    rw [Text.ofString_ofList]
    decide +kernel
  exact ⟨hnested, (scopes_in_step_iff _ hnested).mpr hpasses⟩

set_option maxRecDepth 10000 in
/-- A function behind the brace of a class: the class is its type, so its head is read as that of a variable,
and reading goes on inside its body. The closing brace of the body finds no scope. -/
theorem exists_stray_brace :
    IsNested (Token.code (tokens (Text.ofString "class A \x7b \x7d f() \x7b \x7d"))) ∧
      ¬ InStep (tokens (Text.ofString "class A \x7b \x7d f() \x7b \x7d")) := by
  obtain ⟨hnested, r, hr, hfirst, hopened⟩ :
      IsNested (Token.code (tokens (Text.ofString "class A \x7b \x7d f() \x7b \x7d"))) ∧
        ∃ r ∈ readings (initial (codeEnd (tokens (Text.ofString "class A \x7b \x7d f() \x7b \x7d"))))
          (Token.code (tokens (Text.ofString "class A \x7b \x7d f() \x7b \x7d"))),
          r.first.isPunct .rbrace = true ∧ r.state.opened = [] := by
    rw [Text.ofString_ofList]
    decide +kernel
  exact ⟨hnested, fun hstep => hstep.stray r hr hfirst hopened⟩

end Extraction

end HouseStyle
