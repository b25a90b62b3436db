import HouseStyle.Proofs.PositionedHeads
import HouseStyle.Proofs.Steps

/-!
# Statements by positions

Each kind of statement starts at a position and gives back the state after it and the position from which reading goes
on. Both are those of the statement that takes its tokens from the front (`resume`).

- `skipStatement_eq`: a statement that is passed over.
- `closeScope_eq`: a closing brace, which leaves one scope after another.
- `namespaceStatement_eq`, `templateStatement_eq`, `usingStatement_eq`.
- `typeStatement_eq`, `typedefStatement_eq`: a `typedef` goes back to its keyword if no class or enumeration is read
  behind it.
- `enumeratorStatement_eq`, `controlStatement_eq`.
-/

namespace HouseStyle

namespace ByPosition

open Extraction (TypeHead)

variable {ts rest : List Token} {i : Nat} {x y : Extraction}

/-- The state after a statement, and the position from which reading goes on. -/
def resume (ts : List Token) (r : Extraction × List Token) : Extraction × Nat := (r.1, position ts r.2)

/-- The position behind the statement at a position, its body included. -/
def skipStatement (ts : List Token) (i : Nat) : Except Fault Nat := do
  let head ← scan ts i
  match head.terminator with
  | .body =>
    match ← partner ts head.stop with
    | none => return ts.length
    | some close => return close + 1
  | _ => return head.next

theorem skipStatement_eq (h : At ts i rest) : skipStatement ts i = .ok (position ts (afterStatement rest)) := by
  rw [skipStatement, scan_eq h, ok_bind]
  unfold afterStatement Head.afterStatement
  cases hending : (Head.read rest).ending with
  | body brace =>
    obtain ⟨hbody, hbrace⟩ := h.body hending
    rw [Scan.ofHead, hending]
    dsimp only [Terminator.ofEnding]
    rw [partner_lbrace hbody hbrace, ok_bind]
    cases he : braced? (Head.read rest).rest with
    | none => rfl
    | some e =>
      dsimp only [Option.map_some, Option.getD_some]
      rw [position_closer_add_one hbody.succ he]
      rfl
  | _ =>
    rw [Scan.ofHead, hending]
    rfl

/-! ## Scopes that close -/

/-- Notes a stretch of tokens that was not understood. -/
def noteAnomaly (x : Extraction) (tokens : List Token) : Except Fault Extraction :=
  if tokens.isEmpty then return x
  else do return { x with anomalies := x.anomalies.push (← itemAt tokens 0, ← lastItem tokens) }

theorem noteAnomaly_eq (x : Extraction) (tokens : List Token) :
    noteAnomaly x tokens = .ok (x.noteAnomaly tokens) := by
  unfold noteAnomaly Extraction.noteAnomaly
  cases tokens with
  | nil => rfl
  | cons t tokens =>
    rw [if_neg (by simp), (at_zero (t :: tokens)).itemAt, lastItem_eq List.getLast?_cons, List.getLast?_cons]
    rfl

/-- The state after the innermost open scope has been left. -/
def leaving (x : Extraction) (index stop : Nat) : Extraction :=
  { x.endScope index stop with opened := x.opened.drop 1 }

/-- Leaves the innermost scope, and its parents as long as it is chained to them. -/
def leaveFrom (stop : Nat) : (fuel : Nat) → (x : Extraction) → Except Fault (Scope × Extraction)
  | 0, _ => .error .endless
  | fuel + 1, x => do
    let index ← lastItem (stack x)
    let closed ← itemAt x.scopes.toList index
    let y := leaving x index stop
    if closed.chained && decide (1 < (stack y).length) then leaveFrom stop fuel y else return (closed, y)

theorem Sound.leaving (hx : Sound x) (index stop : Nat) : Sound (leaving x index stop) := by
  have hsize : (ByPosition.leaving x index stop).scopes.size = x.scopes.size := Array.size_modify
  refine ⟨hsize ▸ hx.file, fun k hk => ?_⟩
  rw [hsize]
  exact hx.opened k (List.mem_of_mem_drop hk)

theorem leaveFrom_eq {outer : List Nat} {index fuel : Nat} (hx : Sound x) (hopened : x.opened = index :: outer)
    (hfuel : outer.length < fuel) (stop : Nat) :
    ∃ closed y, Extraction.leave.go stop x (index :: outer) = some (closed, y) ∧
      leaveFrom stop fuel x = .ok (closed, y) ∧ Sound y := by
  induction outer generalizing x index fuel
  all_goals
    obtain ⟨fuel, rfl⟩ := Nat.exists_eq_add_one.mpr (Nat.zero_lt_of_lt hfuel)
    have hindex : x.currentIndex = index := by rw [Extraction.currentIndex, hopened]; rfl
    have hscope := itemAt_scopes (hindex ▸ hx.current)
    have hy := hx.leaving index stop
    generalize hclosed : x.scopes.getD index ⟨.file, none, none, 0, 0, false, false⟩ = closed at hscope
    rw [leaveFrom, lastItem_stack, hindex, ok_bind, hscope, ok_bind, Extraction.leave.go, hclosed]
    dsimp only
  case nil =>
    have hsole : ¬ (closed.chained && decide (1 < (stack (leaving x index stop)).length)) = true := by
      simp [stack, leaving, hopened]
    rw [if_neg hsole]
    refine ⟨closed, leaving x index stop, ?_, rfl, hy⟩
    rw [leaving, hopened]
    split <;> rfl
  case cons next outer ih =>
    have hopened' : (leaving x index stop).opened = next :: outer := by rw [leaving, hopened]; rfl
    have hmore : decide (1 < (stack (leaving x index stop)).length) = true := by simp [stack, hopened']
    have hfuel' : outer.length < fuel := Nat.lt_of_succ_lt_succ hfuel
    obtain ⟨closed', y, hgo, hfrom, hy'⟩ := ih hy hopened' hfuel'
    rw [hmore, Bool.and_true, hfrom]
    rw [leaving, hopened, List.drop_succ_cons, List.drop_zero] at hgo
    split
    · exact ⟨closed', y, by rw [hgo]; rfl, rfl, hy'⟩
    · refine ⟨closed, leaving x index stop, ?_, rfl, hy⟩
      rw [leaving, hopened]
      rfl

/-- The first name of a part. -/
def firstName (part : List Token) : Except Fault (Option Token) := do
  let names := part.filter (·.isIdentifier)
  if names.isEmpty then return none else return some (← itemAt names 0)

/-- Reads the declarators behind the closing brace of a class or an enumeration, if a position is that of one. -/
def trailingDeclarators (x : Extraction) (closed : Scope) (ts : List Token) (i : Nat) :
    Except Fault (Extraction × Nat) := do
  if ← holdsAt ts i (fun t => t.isIdentifier || t.isOneOf [.star, .amp]) then
    let head ← scan ts i
    let header := ts.extract i head.stop
    if closed.trailingAlias then
      return (x.addNames .typeAlias (← collect firstName (allCommaParts header)), head.next)
    else
      return (← emitVariables x {} [] (closed.name.getD []) (← declarators header 0), head.next)
  else return (x, i)

/-- Reads a closing brace in front of a position. -/
def closeScope (x : Extraction) (brace : Token) (ts : List Token) (i : Nat) : Except Fault (Extraction × Nat) := do
  if (stack x).length == 1 then return (← noteAnomaly x [brace], i)
  else
    let (closed, y) ← leaveFrom brace.stop (stack x).length x
    if closed.kind == .class_ || closed.kind == .enum then trailingDeclarators y closed ts i else return (y, i)

theorem firstName_eq (part : List Token) : firstName part = .ok (part.find? (·.isIdentifier)) := by
  rw [firstName, ← List.head?_filter]
  cases part.filter (·.isIdentifier) <;> rfl

theorem trailingDeclarators_eq (hx : Sound x) (closed : Scope) (h : At ts i rest) :
    trailingDeclarators x closed ts i = .ok (resume ts (x.trailingDeclarators closed rest)) := by
  rw [trailingDeclarators, holdsAt_eq h, ok_bind, scan_eq h]
  dsimp only [Scan.ofHead, ok_bind]
  rw [h.head]
  unfold Extraction.trailingDeclarators
  cases rest with
  | nil => rw [resume, h.position_eq]; rfl
  | cons t rest =>
    rw [List.head?_cons, Option.any_some]
    dsimp only
    cases hstarts : (t.isIdentifier || t.isOneOf [.star, .amp]) with
    | false => rw [resume, if_neg Bool.false_ne_true, if_pos (by rfl), h.position_eq]; rfl
    | true =>
      have hread : ¬ (!true) = true := by decide
      rw [if_pos rfl, if_neg hread]
      by_cases halias : closed.trailingAlias = true
      · rw [if_pos halias, if_pos halias, collect_eq firstName_eq]
        rfl
      · rw [if_neg halias, if_neg halias, declarators_eq (at_zero _), ok_bind, emitVariables_eq hx]
        rfl

theorem closeScope_eq (hx : Sound x) (brace : Token) (h : At ts i rest) :
    closeScope x brace ts i = .ok (resume ts (x.closeScope brace rest)) := by
  unfold closeScope Extraction.closeScope Extraction.leave
  cases hopened : x.opened with
  | nil =>
    rw [stack, hopened, if_pos (by rfl), noteAnomaly_eq, Extraction.leave.go, resume, h.position_eq]
    rfl
  | cons index outer =>
    have hlength : (stack x).length = outer.length + 2 := by
      rw [stack, hopened, List.length_cons, List.length_reverse, List.length_cons]
    have hmore : ¬ ((stack x).length == 1) = true := by simp [hlength]
    obtain ⟨closed, y, hgo, hfrom, hy⟩ :=
      leaveFrom_eq hx hopened (show outer.length < (stack x).length by omega) brace.stop
    rw [if_neg hmore, hfrom, hgo, ok_bind]
    dsimp only
    split
    · exact trailingDeclarators_eq hy closed h
    · rw [resume, h.position_eq]
      rfl

/-! ## Namespaces, templates and aliases -/

/-- The position from which the name of a namespace goes on behind a `::`. -/
def pastNamespaceSign (ts : List Token) (j : Nat) : Except Fault (Option Nat) := do
  if ← holdsAt ts j (·.isPunct .scope) then
    return some (if ← holdsAt ts (j + 1) (·.isKeyword .inlineKw) then j + 2 else j + 1)
  else return none

/-- The names between the `::` of a namespace, from a position on, and the position behind them. -/
def namespaceNamesFrom (ts : List Token) : (fuel : Nat) → (j : Nat) → Except Fault (List Token × Nat)
  | 0, _ => .error .endless
  | fuel + 1, j => do
    if ← holdsAt ts j (·.isIdentifier) then
      let name ← itemAt ts j
      match ← pastNamespaceSign ts (j + 1) with
      | some next =>
        let (names, stop) ← namespaceNamesFrom ts fuel next
        return (name :: names, stop)
      | none => return ([name], j + 1)
    else return ([], j)

/-- Reads a namespace or a namespace alias, from the position behind its keyword. -/
def namespaceStatement (x : Extraction) (ts : List Token) (j : Nat) : Except Fault (Extraction × Nat) := do
  let (names, stop) ← namespaceNamesFrom ts (rounds ts) j
  if stop < ts.length then
    let t ← itemAt ts stop
    if t.isPunct .eq then
      let y := x.addNames .namespace_ names
      return ({ y with namespaceNames := names.map (·.text) ++ y.namespaceNames }, ← skipStatement ts stop)
    else if t.isPunct .lbrace then
      if names.isEmpty then return (x.openScope .namespace_ none t.start, stop + 1)
      else return (x.openNamespaces false t.start names, stop + 1)
    else return (x, ← skipStatement ts stop)
  else return (x, ← skipStatement ts stop)

theorem pastNamespaceSign_eq (h : At ts i rest) :
    pastNamespaceSign ts i = .ok ((Extraction.afterNamespaceSign? rest).map (position ts)) := by
  rw [pastNamespaceSign, holdsAt_eq h, ok_bind]
  unfold Extraction.afterNamespaceSign?
  cases rest with
  | nil => rfl
  | cons c rest =>
    rw [List.head?_cons, Option.any_some, holdsAt_eq h.succ]
    dsimp only [ok_bind]
    split
    · cases hinline : rest.head?.any (·.isKeyword .inlineKw) with
      | false =>
        rw [if_neg Bool.false_ne_true, if_neg Bool.false_ne_true, Option.map_some, h.succ.position_eq]
        rfl
      | true =>
        obtain ⟨u, more, rfl⟩ := List.exists_cons_of_ne_nil (l := rest) (by rintro rfl; simp at hinline)
        rw [if_pos rfl, if_pos rfl, Option.map_some, List.drop_succ_cons, List.drop_zero, h.succ.succ.position_eq]
        rfl
    · rfl

theorem namespaceNamesFrom_eq {fuel : Nat} (h : At ts i rest) (hfuel : rest.length < fuel) :
    namespaceNamesFrom ts fuel i =
      .ok ((Extraction.namespaceNamesAt rest).1, position ts (Extraction.namespaceNamesAt rest).2) := by
  fun_induction Extraction.namespaceNamesAt rest generalizing i fuel <;>
    obtain ⟨fuel, rfl⟩ := Nat.exists_eq_add_one.mpr (Nat.zero_lt_of_lt hfuel) <;>
    rw [namespaceNamesFrom, holdsAt_eq h, ok_bind]
  case case1 => rw [h.position_eq]; rfl
  all_goals rw [List.head?_cons, Option.any_some]
  case case2 t rest hname next hsign ih =>
    have hshorter := Extraction.length_afterNamespaceSign_lt hsign
    rw [List.length_cons] at hfuel
    rw [if_pos hname, h.itemAt, ok_bind, pastNamespaceSign_eq h.succ, hsign, Option.map_some, ok_bind]
    dsimp only
    rw [ih (h.succ.suffix (Extraction.suffix_afterNamespaceSign hsign)) (by omega)]
    rfl
  case case3 t rest hname hsign =>
    rw [if_pos hname, h.itemAt, ok_bind, pastNamespaceSign_eq h.succ, hsign, h.succ.position_eq]
    rfl
  case case4 t rest hname =>
    rw [if_neg hname, h.position_eq]
    rfl

theorem namespaceStatement_eq (x : Extraction) (h : At ts i rest) :
    namespaceStatement x ts i = .ok (resume ts (x.namespaceStatement rest)) := by
  have hstop := h.suffix (Extraction.suffix_namespaceNamesAt rest)
  rw [namespaceStatement, namespaceNamesFrom_eq h h.length_lt_rounds, ok_bind]
  unfold Extraction.namespaceStatement
  dsimp only
  cases hafter : (Extraction.namespaceNamesAt rest).2 with
  | nil =>
    rw [hafter] at hstop
    rw [if_neg hstop.not_lt, skipStatement_eq hstop]
    simp [resume, afterStatement, Head.read, Head.readFrom, Head.afterStatement]
  | cons t more =>
    rw [hafter] at hstop
    dsimp only
    rw [if_pos hstop.lt, hstop.itemAt, ok_bind, skipStatement_eq hstop]
    split
    · rfl
    split
    · rw [← hstop.succ.position_eq]
      cases (Extraction.namespaceNamesAt rest).1.isEmpty <;> rfl
    · rfl

/-- The name that a part of a template parameter list declares. -/
def templateParameter (part : List Token) : Except Fault (Option Token) := do
  let head := part.takeWhile (!·.isPunct .eq)
  if head.isEmpty then return none
  else
    let first ← itemAt head 0
    let last ← lastItem head
    return if last.isIdentifier && (first.isKeyword .templateKw || 1 < head.length) then some last else none

/-- Reads a template header or an explicit instantiation; its keyword stands at the position. -/
def templateStatement (x : Extraction) (ts : List Token) (i : Nat) : Except Fault (Extraction × Nat) := do
  if ← holdsAt ts (i + 1) (·.isPunct .less) then
    match ← pastAngles ts (i + 1) with
    | none => return (x, i + 2)
    | some after =>
      let names ← collect templateParameter (allCommaParts (ts.extract (i + 2) (after - 1)))
      return (x.addNames .templateParameter names, after)
  else return (x, ← skipStatement ts i)

/-- Reads a `using` declaration; its keyword stands at the position. -/
def usingStatement (x : Extraction) (ts : List Token) (i : Nat) : Except Fault (Extraction × Nat) := do
  let next ← skipStatement ts i
  if i + 2 < ts.length then
    let name ← itemAt ts (i + 1)
    let sign ← itemAt ts (i + 2)
    return (if name.isIdentifier && sign.isPunct .eq then x.addName .typeAlias name else x, next)
  else return (x, next)

theorem templateParameter_eq (part : List Token) : templateParameter part = .ok (templateParameter? part) := by
  unfold templateParameter templateParameter?
  dsimp only
  cases part.takeWhile (!·.isPunct .eq) with
  | nil => rfl
  | cons first more =>
    rw [if_neg (by simp), (at_zero (first :: more)).itemAt, lastItem_eq List.getLast?_cons, List.getLast?_cons]
    simp

theorem templateStatement_eq (x : Extraction) {keyword : Token} (h : At ts i (keyword :: rest)) :
    templateStatement x ts i = .ok (resume ts (x.templateStatement (keyword :: rest))) := by
  rw [templateStatement, holdsAt_eq h.succ, ok_bind, skipStatement_eq h]
  unfold Extraction.templateStatement
  cases rest with
  | nil => rfl
  | cons t rest =>
    rw [List.head?_cons, Option.any_some]
    dsimp only
    by_cases hless : t.isPunct .less = true
    · rw [if_pos hless, if_pos hless, pastAngles_eq h.succ hless, ok_bind]
      cases ha : angled? 0 rest with
      | none => rw [resume, h.succ.succ.position_eq]; rfl
      | some a =>
        obtain ⟨closer, hrest⟩ := angled_append ha
        have hclose := h.succ.succ.suffix ⟨a.inside, hrest.symm⟩
        dsimp only [Option.map_some]
        rw [hclose.succ.position_eq, Nat.add_sub_cancel, h.succ.succ.extract hrest, collect_eq templateParameter_eq, ok_bind,
          ← hclose.succ.position_eq]
        rfl
    · rw [if_neg hless, if_neg hless]
      rfl

theorem usingStatement_eq (x : Extraction) {keyword : Token} (h : At ts i (keyword :: rest)) :
    usingStatement x ts i = .ok (resume ts (x.usingStatement (keyword :: rest))) := by
  have hlength := h.length_eq
  rw [usingStatement, skipStatement_eq h, ok_bind]
  unfold Extraction.usingStatement
  match rest, h with
  | name :: sign :: rest, h =>
    rw [if_pos (by simp at hlength; omega), h.succ.itemAt, h.succ.succ.itemAt]
    rfl
  | [], h | [_], h =>
    rw [if_neg (by simp at hlength; omega)]
    rfl

/-! ## Classes and enumerations -/

/-- The position of the last of several identifiers in a row; `final` is not one of them. -/
def pastExportMacrosFrom (ts : List Token) : (fuel : Nat) → (j : Nat) → Except Fault Nat
  | 0, _ => .error .endless
  | fuel + 1, j =>
    if j + 1 < ts.length then do
      let t ← itemAt ts j
      let u ← itemAt ts (j + 1)
      if t.isIdentifier && u.isIdentifier && !u.isWord "final" then pastExportMacrosFrom ts fuel (j + 1) else return j
    else return j

/-- The last segment of the name of a class that starts with `name` in front of a position, and the position behind
it. -/
def lastSegmentFrom (ts : List Token) : (fuel : Nat) → (name : Token) → (j : Nat) → Except Fault (Token × Nat)
  | 0, _, _ => .error .endless
  | fuel + 1, name, j =>
    if j + 1 < ts.length then do
      let c ← itemAt ts j
      let u ← itemAt ts (j + 1)
      if c.isPunct .scope && u.isIdentifier then lastSegmentFrom ts fuel u (j + 2) else return (name, j)
    else return (name, j)

theorem length_lt_two (h : ∀ (t u : Token) (more : List Token), rest = t :: u :: more → False) : rest.length < 2 := by
  match rest, h with
  | [], _ => exact Nat.zero_lt_two
  | [_], _ => exact Nat.one_lt_two
  | t :: u :: more, h => exact (h t u more rfl).elim

theorem pastExportMacrosFrom_eq {fuel : Nat} (h : At ts i rest) (hfuel : rest.length < fuel) :
    pastExportMacrosFrom ts fuel i = .ok (position ts (Extraction.afterExportMacros rest)) := by
  have hlength := h.length_eq
  fun_induction Extraction.afterExportMacros rest generalizing i fuel <;>
    obtain ⟨fuel, rfl⟩ := Nat.exists_eq_add_one.mpr (Nat.zero_lt_of_lt hfuel) <;>
    rw [pastExportMacrosFrom]
  case case1 t u rest hmacro ih =>
    simp only [List.length_cons] at hfuel hlength
    rw [if_pos (by omega), h.itemAt, h.succ.itemAt]
    dsimp only [ok_bind]
    rw [if_pos hmacro]
    exact ih h.succ (by simp; omega) (by simp; omega)
  case case2 t u rest hmacro =>
    simp only [List.length_cons] at hlength
    rw [if_pos (by omega), h.itemAt, h.succ.itemAt, h.position_eq]
    dsimp only [ok_bind]
    rw [if_neg hmacro]
    rfl
  case case3 ts' hshort =>
    have hlt := length_lt_two hshort
    rw [if_neg (by omega), h.position_eq]
    rfl

theorem lastSegmentFrom_eq {fuel : Nat} (h : At ts i rest) (hfuel : rest.length < fuel) (name : Token) :
    lastSegmentFrom ts fuel name i =
      .ok ((Extraction.lastSegment name rest).1, position ts (Extraction.lastSegment name rest).2) := by
  have hlength := h.length_eq
  fun_induction Extraction.lastSegment name rest generalizing i fuel <;>
    obtain ⟨fuel, rfl⟩ := Nat.exists_eq_add_one.mpr (Nat.zero_lt_of_lt hfuel) <;>
    rw [lastSegmentFrom]
  case case1 name c u rest hscope ih =>
    simp only [List.length_cons] at hfuel hlength
    rw [if_pos (by omega), h.itemAt, h.succ.itemAt]
    dsimp only [ok_bind]
    rw [if_pos hscope]
    exact ih h.succ.succ (by omega) (by omega)
  case case2 name c u rest hscope =>
    simp only [List.length_cons] at hlength
    rw [if_pos (by omega), h.itemAt, h.succ.itemAt, h.position_eq]
    dsimp only [ok_bind]
    rw [if_neg hscope]
    rfl
  case case3 name ts' hshort =>
    have hlt := length_lt_two hshort
    rw [if_neg (by omega), h.position_eq]
    rfl

/-- The position behind the word `final`, if it stands at a position. -/
def pastFinal (ts : List Token) (j : Nat) : Except Fault Nat := do
  if ← holdsAt ts j (·.isWord "final") then return j + 1 else return j

/-- The position behind the bases of a class or the underlying type of an enumeration. -/
def pastBases (ts : List Token) (j : Nat) : Except Fault Nat := do
  if ← holdsAt ts j (·.isPunct .colon) then pastWhile ts (!·.isOneOf [.lbrace, .semicolon, .rbrace]) j else return j

/-- The end of the head of a class or an enumeration, behind its bases or its underlying type. -/
def finishHead (ts : List Token) (name : Option Token) (isSpecialization isScopedEnum : Bool) (j : Nat) :
    Except Fault (Option (TypeHead × Nat)) := do
  let k ← pastBases ts j
  if k < ts.length then
    let terminator ← itemAt ts k
    return some ({ name, isSpecialization, isScopedEnum, terminator, rest := ts.drop (k + 1) }, k + 1)
  else return none

/-- The head of a class from the position behind its keyword, and the position behind it. -/
def classHead (ts : List Token) (j : Nat) : Except Fault (Option (TypeHead × Nat)) := do
  let (_, p) ← pastSpecifiers ts j
  let q ← pastExportMacrosFrom ts (rounds ts) p
  if ← holdsAt ts q (·.isIdentifier) then
    let (name, stop) ← lastSegmentFrom ts (rounds ts) (← itemAt ts q) (q + 1)
    if ← holdsAt ts stop (·.isPunct .less) then
      match ← pastAngles ts stop with
      | none => return none
      | some after => finishHead ts (some name) true false (← pastFinal ts after)
    else finishHead ts (some name) false false (← pastFinal ts stop)
  else finishHead ts none false false (← pastFinal ts q)

/-- The head of an enumeration from the position where its specifiers start, and the position behind it. -/
def enumHeadFrom (ts : List Token) (isScoped : Bool) (j : Nat) : Except Fault (Option (TypeHead × Nat)) := do
  let (_, p) ← pastSpecifiers ts j
  if ← holdsAt ts p (·.isIdentifier) then finishHead ts (some (← itemAt ts p)) false isScoped (p + 1)
  else finishHead ts none false isScoped p

/-- The head of an enumeration from the position behind its keyword, and the position behind it. -/
def enumHead (ts : List Token) (j : Nat) : Except Fault (Option (TypeHead × Nat)) := do
  if ← holdsAt ts j fun t => t.isKeyword .classKw || t.isKeyword .structKw then enumHeadFrom ts true (j + 1)
  else enumHeadFrom ts false j

/-- The head of a class or an enumeration from the position behind its keyword, and the position behind it. -/
def typeHead (keyword : Token) (ts : List Token) (j : Nat) : Except Fault (Option (TypeHead × Nat)) :=
  if keyword.isKeyword .enumKw then enumHead ts j else classHead ts j

/-- A class or an enumeration from the position behind its keyword; none if it is part of another declaration. -/
def typeStatement (x : Extraction) (inTypedef : Bool) (keyword : Token) (ts : List Token) (j : Nat) :
    Except Fault (Option (Extraction × Nat)) := do
  match ← typeHead keyword ts j with
  | none => return none
  | some (head, next) => return (x.readType? inTypedef keyword head).map fun y => (y, next)

theorem pastFinal_eq (h : At ts i rest) : pastFinal ts i = .ok (position ts (Extraction.afterFinal rest)) := by
  rw [pastFinal, holdsAt_eq h, ok_bind, Extraction.afterFinal, (h.passing _).position_eq]
  split <;> rfl

/-- The head of a type and the position behind it. -/
def headAndNext (ts : List Token) (head : TypeHead) : TypeHead × Nat := (head, position ts head.rest)

theorem pastBases_eq (h : At ts i rest) : pastBases ts i = .ok (position ts (Extraction.afterBases rest)) := by
  rw [pastBases, holdsAt_eq h, ok_bind, Extraction.afterBases]
  split
  · exact pastWhile_eq h _
  · rw [h.position_eq]
    rfl

theorem finishHead_eq (h : At ts i rest) (name : Option Token) (isSpecialization isScopedEnum : Bool) :
    finishHead ts name isSpecialization isScopedEnum i =
      .ok ((TypeHead.finish? name isSpecialization isScopedEnum rest).map (headAndNext ts)) := by
  have hafter := h.suffix (Extraction.suffix_afterBases rest)
  rw [finishHead, pastBases_eq h, ok_bind, TypeHead.finish?]
  cases hrest : Extraction.afterBases rest with
  | nil =>
    rw [hrest] at hafter
    rw [if_neg hafter.not_lt]
    rfl
  | cons terminator more =>
    rw [hrest] at hafter
    rw [if_pos hafter.lt, hafter.itemAt, ok_bind, hafter.succ.drop, ← hafter.succ.position_eq]
    rfl

/-- The word `final` may stand in front of the end of a head. -/
theorem finishHead_pastFinal (h : At ts i rest) (name : Option Token) (isSpecialization isScopedEnum : Bool) :
    (do finishHead ts name isSpecialization isScopedEnum (← pastFinal ts i)) =
      .ok ((TypeHead.finish? name isSpecialization isScopedEnum (Extraction.afterFinal rest)).map
        (headAndNext ts)) := by
  rw [pastFinal_eq h, ok_bind]
  exact finishHead_eq (h.suffix (Extraction.suffix_afterFinal rest)) ..

theorem classHead_eq (h : At ts i rest) :
    classHead ts i = .ok ((Extraction.classHead? rest).map (headAndNext ts)) := by
  have hspecifiers := h.suffix (suffix_specifiers rest)
  have hmacros := hspecifiers.suffix (Extraction.suffix_afterExportMacros _)
  rw [classHead, pastSpecifiers_eq h, ok_bind]
  dsimp only
  rw [pastExportMacrosFrom_eq hspecifiers hspecifiers.length_lt_rounds, ok_bind, holdsAt_eq hmacros, ok_bind]
  unfold Extraction.classHead?
  rw [show afterSpecifiers rest = (specifiers rest).2 from rfl]
  cases hrest : Extraction.afterExportMacros (specifiers rest).2 with
  | nil =>
    rw [hrest] at hmacros
    exact finishHead_pastFinal hmacros none false false
  | cons t more =>
    rw [hrest] at hmacros
    rw [List.head?_cons, Option.any_some]
    dsimp only
    by_cases hname : t.isIdentifier = true
    · have hsegment := hmacros.succ.suffix (Extraction.suffix_lastSegment t more)
      rw [if_pos hname, if_pos hname, hmacros.itemAt, ok_bind,
        lastSegmentFrom_eq hmacros.succ hmacros.succ.length_lt_rounds, ok_bind]
      dsimp only
      rw [holdsAt_eq hsegment, ok_bind]
      by_cases hless : (Extraction.lastSegment t more).2.head?.any (·.isPunct .less) = true
      · rw [if_pos hless, if_pos hless]
        cases hafter : (Extraction.lastSegment t more).2 with
        | nil => simp [hafter] at hless
        | cons opener arguments =>
          rw [hafter] at hsegment hless
          rw [pastAngles_eq hsegment (by simpa using hless), ok_bind, List.drop_succ_cons, List.drop_zero]
          cases ha : angled? 0 arguments with
          | none => rfl
          | some a => exact finishHead_pastFinal (hsegment.succ.suffix (suffix_angled ha)) ..
      · rw [if_neg hless, if_neg hless]
        exact finishHead_pastFinal hsegment ..
    · rw [if_neg hname, if_neg hname]
      exact finishHead_pastFinal hmacros ..

theorem enumHeadFrom_eq (h : At ts i rest) (isScoped : Bool) :
    enumHeadFrom ts isScoped i = .ok ((Extraction.enumHeadFrom? isScoped rest).map (headAndNext ts)) := by
  have hspecifiers := h.suffix (suffix_specifiers rest)
  rw [enumHeadFrom, pastSpecifiers_eq h, ok_bind]
  dsimp only
  rw [holdsAt_eq hspecifiers, ok_bind]
  unfold Extraction.enumHeadFrom?
  rw [show afterSpecifiers rest = (specifiers rest).2 from rfl]
  cases hrest : (specifiers rest).2 with
  | nil =>
    rw [hrest] at hspecifiers
    exact finishHead_eq hspecifiers ..
  | cons t more =>
    rw [hrest] at hspecifiers
    rw [List.head?_cons, Option.any_some]
    dsimp only
    split
    · rw [hspecifiers.itemAt, ok_bind]
      exact finishHead_eq hspecifiers.succ ..
    · exact finishHead_eq hspecifiers ..

theorem enumHead_eq (h : At ts i rest) :
    enumHead ts i = .ok ((Extraction.enumHead? rest).map (headAndNext ts)) := by
  rw [enumHead, holdsAt_eq h, ok_bind, Extraction.enumHead?]
  cases rest with
  | nil => exact enumHeadFrom_eq h false
  | cons t rest =>
    rw [List.head?_cons, Option.any_some]
    split
    · exact enumHeadFrom_eq h.succ true
    · exact enumHeadFrom_eq h false

theorem typeHead_eq (keyword : Token) (h : At ts i rest) :
    typeHead keyword ts i = .ok ((Extraction.typeHead? keyword rest).map (headAndNext ts)) := by
  unfold typeHead Extraction.typeHead?
  split
  · exact enumHead_eq h
  · exact classHead_eq h

theorem typeStatement_eq (x : Extraction) (inTypedef : Bool) (keyword : Token) (h : At ts i rest) :
    typeStatement x inTypedef keyword ts i = .ok ((x.typeStatement? inTypedef keyword rest).map (resume ts)) := by
  rw [typeStatement, typeHead_eq keyword h, ok_bind, Extraction.typeStatement?]
  cases Extraction.typeHead? keyword rest with
  | none => rfl
  | some head =>
    dsimp only [Option.map_some, headAndNext]
    rw [Option.map_map]
    rfl

/-- The name of a function pointer type, looked for at some positions. -/
def pointerAliasAt (header : List Token) : List Nat → Except Fault (Option Token)
  | [] => return none
  | k :: ks => do
    let a ← itemAt header k
    let b ← itemAt header (k + 1)
    let c ← itemAt header (k + 2)
    if a.isPunct .lparen && b.isPunct .star && c.isIdentifier then return some c else pointerAliasAt header ks

/-- The name that a `typedef` declares, given the tokens behind its keyword. -/
def aliasName (header : List Token) : Except Fault (Option Token) := do
  match ← pointerAliasAt header (List.range' 0 (header.length - 2)) with
  | some name => return some name
  | none =>
    let names := (← itemAt (allCommaParts header) 0).filter (·.isIdentifier)
    if 1 < header.length && !names.isEmpty then return some (← lastItem names) else return none

/-- Reads a `typedef` of something other than a class with braces; its keyword stands at the position. -/
def plainTypedef (x : Extraction) (ts : List Token) (i : Nat) : Except Fault (Extraction × Nat) := do
  let head ← scan ts i
  let name? ← aliasName (ts.extract (i + 1) head.stop)
  return (x.addNames .typeAlias name?.toList, head.next)

/-- Reads a `typedef`; its keyword stands at the position. -/
def typedefStatement (x : Extraction) (ts : List Token) (i : Nat) : Except Fault (Extraction × Nat) := do
  if ← holdsAt ts (i + 1) (·.isKeywordIn [.structKw, .classKw, .unionKw, .enumKw]) then
    match ← typeStatement x true (← itemAt ts (i + 1)) ts (i + 2) with
    | some r => return r
    | none => plainTypedef x ts i
  else plainTypedef x ts i

theorem pointerAliasAt_eq (h : At ts i rest) :
    pointerAliasAt ts (List.range' i (rest.length - 2)) = .ok (Extraction.pointerAlias? rest) := by
  fun_induction Extraction.pointerAlias? rest generalizing i
  case case1 a b c rest hpointer =>
    rw [show (a :: b :: c :: rest).length - 2 = rest.length + 1 from rfl, List.range'_succ, pointerAliasAt, h.itemAt,
      h.succ.itemAt, h.succ.succ.itemAt]
    exact if_pos hpointer
  case case2 a b c rest hpointer ih =>
    rw [show (a :: b :: c :: rest).length - 2 = rest.length + 1 from rfl, List.range'_succ, pointerAliasAt, h.itemAt,
      h.succ.itemAt, h.succ.succ.itemAt]
    exact (if_neg hpointer).trans (ih h.succ)
  case case3 ts' hshort =>
    have hlength : ts'.length - 2 = 0 := by
      rcases ts' with _ | ⟨a, _ | ⟨b, _ | ⟨c, more⟩⟩⟩
      · rfl
      · rfl
      · rfl
      · exact (hshort a b c more rfl).elim
    rw [hlength]
    rfl

theorem aliasName_eq (header : List Token) :
    aliasName header = .ok (match Extraction.pointerAlias? header with
      | some name => some name
      | none => if 1 < header.length then ((commaParts header).1.filter Token.isIdentifier).getLast? else none) := by
  have hpointer := pointerAliasAt_eq (at_zero header)
  rw [aliasName, hpointer, ok_bind]
  cases Extraction.pointerAlias? header with
  | some name => rfl
  | none =>
    dsimp only
    rw [show itemAt (allCommaParts header) 0 = .ok (commaParts header).1 from rfl, ok_bind]
    cases hnames : ((commaParts header).1.filter Token.isIdentifier).getLast? with
    | none =>
      rw [List.getLast?_eq_none_iff.mp hnames]
      simp
    | some name =>
      have hsome : ((commaParts header).1.filter Token.isIdentifier).isEmpty = false := by
        simp [List.ne_nil_of_mem (List.mem_of_getLast? hnames)]
      rw [hsome, lastItem_eq hnames]
      by_cases hlong : 1 < header.length
      · rw [if_pos hlong, if_pos (by simpa using hlong)]
        rfl
      · rw [if_neg hlong, if_neg (by simpa using hlong)]
        rfl

theorem plainTypedef_eq (x : Extraction) (h : At ts i rest) :
    plainTypedef x ts i = .ok (resume ts (x.plainTypedef rest)) := by
  have hheader : ts.extract (i + 1) (i + (Head.read rest).tokens.length) = (Head.read rest).tokens.drop 1 := by
    have hhead := h.head
    rw [List.extract_eq_take_drop, Nat.add_sub_cancel_left] at hhead
    rw [List.extract_eq_take_drop, ← hhead, List.drop_take, List.drop_drop, hhead]
    congr 1
    omega
  rw [plainTypedef, scan_eq h]
  dsimp only [ok_bind, Scan.ofHead]
  rw [hheader, aliasName_eq]
  rfl

theorem typedefStatement_eq (x : Extraction) {keyword : Token} (h : At ts i (keyword :: rest)) :
    typedefStatement x ts i = .ok (resume ts (x.typedefStatement (keyword :: rest))) := by
  rw [typedefStatement, holdsAt_eq h.succ, ok_bind]
  unfold Extraction.typedefStatement
  cases rest with
  | nil => exact plainTypedef_eq x h
  | cons t rest =>
    rw [List.head?_cons, Option.any_some]
    dsimp only
    split
    · rw [h.succ.itemAt, ok_bind, typeStatement_eq x true t h.succ.succ, ok_bind]
      cases x.typeStatement? true t rest with
      | none => exact plainTypedef_eq x h
      | some r => rfl
    · exact plainTypedef_eq x h

/-! ## Enumerators and control flow -/

/-- The position behind the comma that ends an enumerator, or that of the brace that ends the enumeration. -/
def pastEnumeratorFrom (ts : List Token) : (fuel : Nat) → (depth : Nat) → (j : Nat) → Except Fault Nat
  | 0, _, _ => .error .endless
  | fuel + 1, depth, j =>
    if j < ts.length then do
      let t ← itemAt ts j
      if t.isOneOf [.lparen, .lbracket, .lbrace] then pastEnumeratorFrom ts fuel (depth + 1) (j + 1)
      else if t.isOneOf [.rparen, .rbracket] then pastEnumeratorFrom ts fuel (depth - 1) (j + 1)
      else if t.isPunct .rbrace then
        if depth == 0 then return j else pastEnumeratorFrom ts fuel (depth - 1) (j + 1)
      else if t.isPunct .comma && depth == 0 then return j + 1
      else pastEnumeratorFrom ts fuel depth (j + 1)
    else return j

/-- Reads an enumerator, whose first token stands at the position. -/
def enumeratorStatement (x : Extraction) (t : Token) (ts : List Token) (i : Nat) :
    Except Fault (Extraction × Nat) := do
  let next ← pastEnumeratorFrom ts (rounds ts) 0 (i + 1)
  return (if t.isIdentifier then x.addName .enumVariant t else x, next)

/-- The position from which a label goes on behind `case` or `default`. -/
def pastLabel (ts : List Token) (j : Nat) : Except Fault Nat := do
  let k ← pastWhile ts (!·.isOneOf [.colon, .semicolon, .lbrace, .rbrace]) j
  if ← holdsAt ts k (·.isPunct .colon) then return k + 1 else return k

/-- The first part of the header of a `for`: up to the semicolon, or up to the colon if there is no semicolon. -/
def forInitializer (inside : List Token) : Except Fault (List Token) := do
  let (first, others) := partsFrom .semicolon false 0 0 inside
  let init ← itemAt (first :: others) 0
  if init.length == inside.length then
    let (first, others) := partsFrom .colon false 0 0 inside
    itemAt (first :: others) 0
  else return init

/-- Reads the condition of a statement of control flow, from the position behind its keyword. -/
def conditionStatement (x : Extraction) (isFor : Bool) (ts : List Token) (j : Nat) :
    Except Fault (Extraction × Nat) := do
  let j := if ← holdsAt ts j (·.isKeyword .constexprKw) then j + 1 else j
  if ← holdsAt ts j (·.isPunct .lparen) then
    match ← partner ts j with
    | none => return (x, ts.length)
    | some close =>
      if isFor then
        match ← classify x true (← forInitializer (ts.extract (j + 1) close)) false with
        | some (_, y) => return (y, close + 1)
        | none => return (x, close + 1)
      else return (x, close + 1)
  else return (x, j)

/-- Reads a statement of control flow, from the position behind its keyword; none if the keyword begins no such
statement. -/
def controlStatement (x : Extraction) (keyword : Keyword) (ts : List Token) (j : Nat) :
    Except Fault (Option (Extraction × Nat)) :=
  match keyword with
  | .elseKw | .doKw | .tryKw => return some (x, j)
  | .caseKw | .defaultKw => do return some (x, ← pastLabel ts j)
  | .forKw => do return some (← conditionStatement x true ts j)
  | .ifKw | .whileKw | .switchKw | .catchKw => do return some (← conditionStatement x false ts j)
  | _ => return none

theorem pastEnumeratorFrom_eq {fuel : Nat} (h : At ts i rest) (hfuel : rest.length < fuel) (depth : Nat) :
    pastEnumeratorFrom ts fuel depth i = .ok (position ts (Extraction.afterEnumerator depth rest)) := by
  induction rest generalizing i fuel depth with
  | nil =>
    obtain ⟨fuel, rfl⟩ := Nat.exists_eq_add_one.mpr (Nat.zero_lt_of_lt hfuel)
    rw [pastEnumeratorFrom, if_neg h.not_lt, Extraction.afterEnumerator, h.position_eq]
    rfl
  | cons t rest ih =>
    obtain ⟨fuel, rfl⟩ := Nat.exists_eq_add_one.mpr (Nat.zero_lt_of_lt hfuel)
    rw [List.length_cons] at hfuel
    have hgo := fun depth => ih h.succ (Nat.lt_of_succ_lt_succ hfuel) depth
    rw [pastEnumeratorFrom, if_pos h.lt, h.itemAt, ok_bind]
    unfold Extraction.afterEnumerator
    split
    · exact hgo (depth + 1)
    split
    · exact hgo (depth - 1)
    split
    · cases depth with
      | zero => exact congrArg Except.ok h.position_eq.symm
      | succ depth => exact hgo depth
    split
    · rw [h.succ.position_eq]
      rfl
    · exact hgo depth

theorem enumeratorStatement_eq (x : Extraction) {t : Token} (h : At ts i (t :: rest)) :
    enumeratorStatement x t ts i = .ok (resume ts (x.enumeratorStatement t rest)) := by
  rw [enumeratorStatement, pastEnumeratorFrom_eq h.succ h.succ.length_lt_rounds]
  rfl

theorem pastLabel_eq (h : At ts i rest) : pastLabel ts i = .ok (position ts (Extraction.afterLabel rest)) := by
  have hstop := h.suffix (List.dropWhile_suffix (l := rest) (!·.isOneOf [.colon, .semicolon, .lbrace, .rbrace]))
  rw [pastLabel, pastWhile_eq h, ok_bind, holdsAt_eq hstop, ok_bind]
  unfold Extraction.afterLabel
  cases hlater : rest.dropWhile (!·.isOneOf [.colon, .semicolon, .lbrace, .rbrace]) with
  | nil => rfl
  | cons t more =>
    rw [hlater] at hstop
    rw [List.head?_cons, Option.any_some]
    dsimp only
    split
    · rw [hstop.succ.position_eq]
      rfl
    · rfl

theorem forInitializer_eq (inside : List Token) :
    forInitializer inside = .ok (Extraction.forInitializer inside) := by
  have hlength := length_partsFrom .semicolon false 0 0 inside
  unfold forInitializer Extraction.forInitializer
  dsimp only
  rw [show itemAt ((partsFrom .semicolon false 0 0 inside).1 :: (partsFrom .semicolon false 0 0 inside).2) 0 =
    .ok (partsFrom .semicolon false 0 0 inside).1 from rfl, ok_bind]
  cases hothers : (partsFrom .semicolon false 0 0 inside).2 with
  | nil =>
    rw [hothers] at hlength
    rw [if_pos (by simpa using hlength), if_pos (by rfl)]
    rfl
  | cons other others =>
    rw [hothers, List.length_cons] at hlength
    rw [if_neg (by simp; omega), if_neg (by simp)]
    rfl

theorem conditionStatement_eq (hx : Sound x) (isFor : Bool) (h : At ts i rest) :
    conditionStatement x isFor ts i = .ok (resume ts (x.conditionStatement isFor rest)) := by
  have hstart := h.passing (·.isKeyword .constexprKw)
  rw [conditionStatement, holdsAt_eq h, ok_bind]
  unfold Extraction.conditionStatement
  dsimp only
  generalize (if rest.head?.any (·.isKeyword .constexprKw) then i + 1 else i) = j at hstart ⊢
  rw [holdsAt_eq hstart, ok_bind]
  cases hlater : (if rest.head?.any (·.isKeyword .constexprKw) then rest.drop 1 else rest) with
  | nil =>
    rw [hlater] at hstart
    rw [resume, hstart.position_eq]
    rfl
  | cons t more =>
    rw [hlater] at hstart
    rw [List.head?_cons, Option.any_some]
    dsimp only
    by_cases hparen : t.isPunct .lparen = true
    · rw [if_pos hparen, if_neg (by simp [hparen]), partner_lparen hstart hparen, ok_bind]
      cases he : parenthesised? more with
      | none => rfl
      | some e =>
        dsimp only [Option.map_some]
        rw [hstart.succ.extract (enclosed?_append he), forInitializer_eq, ok_bind, classify_eq hx,
          position_closer_add_one hstart.succ he]
        cases isFor with
        | false => rfl
        | true =>
          rw [if_pos rfl, if_pos rfl, ok_bind]
          cases Declaration.read? x.current true (Extraction.forInitializer e.inside) <;> rfl
    · rw [if_neg hparen, if_pos (by simp [hparen]), resume, hstart.position_eq]
      rfl

theorem controlStatement_eq (hx : Sound x) (keyword : Keyword) (h : At ts i rest) :
    controlStatement x keyword ts i = .ok ((x.controlStatement? keyword rest).map (resume ts)) := by
  have hhere : some (x, i) = some (resume ts (x, rest)) := by rw [resume, h.position_eq]
  cases keyword
  case elseKw | doKw | tryKw => exact congrArg Except.ok hhere
  case caseKw | defaultKw =>
    rw [controlStatement, pastLabel_eq h]
    rfl
  case forKw | ifKw | whileKw | switchKw | catchKw =>
    rw [controlStatement, conditionStatement_eq hx _ h]
    rfl
  all_goals rfl

end ByPosition

end HouseStyle
