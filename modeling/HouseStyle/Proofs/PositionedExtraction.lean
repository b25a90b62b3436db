import HouseStyle.Proofs.PositionedStatements
import HouseStyle.Proofs.ScopeBraces

/-!
# Reading declarations goes forward and never goes wrong

Read by positions, a file is a run of statements, each of which has to end behind the position where it starts; that
it does not is one more `Fault`. There is none, whatever the tokens are:

> `extract_goes_forward`: any list of tokens has a model, and each statement of it goes forward and stays in the list.

- `statement_eq`: the statement at a position is the one that is read off the tokens from there on.
- `Sound.takes`: the open scopes stay in range.
- `extract_eq`: the model that is read by positions is the one that is read off the tokens.
-/

namespace HouseStyle

namespace ByPosition

variable {ts rest : List Token} {i : Nat} {x y : Extraction}

/-! ## One statement -/

/-- Reads a declaration or an expression, whose first token stands at the position. -/
def declarationOrExpression (x : Extraction) (ts : List Token) (i : Nat) : Except Fault (Extraction × Nat) := do
  let head ← scan ts i
  let header := ts.extract i head.stop
  let inFunction := (← currentScope x).kind.isLocal
  match head.terminator with
  | .body =>
    let brace ← itemAt ts head.stop
    match ← classify x inFunction header true with
    | some (true, y) => return (y, head.next)
    | some (false, y) => return (y.openScope .block none brace.start, head.next)
    | none => return (x.openScope .block none brace.start, head.next)
  | _ =>
    match ← classify x inFunction header false with
    | some (_, y) => return (y, head.next)
    | none => if inFunction then return (x, head.next) else return (← noteAnomaly x header, head.next)

/-- Reads a linkage specification, from the position behind its two tokens. -/
def linkage (x : Extraction) (ts : List Token) (j : Nat) : Except Fault (Extraction × Nat) := do
  if ← holdsAt ts j (·.isPunct .lbrace) then
    return (x.openScope .linkage none (← itemAt ts j).start, j + 1)
  else return (x, j)

/-- Reads a statement of no other kind that starts with a keyword. -/
def otherStatement (x : Extraction) (keyword : Keyword) (ts : List Token) (i : Nat) :
    Except Fault (Extraction × Nat) := do
  if (← currentScope x).kind.isLocal then
    match ← controlStatement x keyword ts (i + 1) with
    | some r => return r
    | none => declarationOrExpression x ts i
  else declarationOrExpression x ts i

/-- Reads a statement that starts with the keyword `t`, which stands at the position. -/
def keywordStatement (x : Extraction) (keyword : Keyword) (t : Token) (ts : List Token) (i : Nat) :
    Except Fault (Extraction × Nat) :=
  match keyword with
  | .inlineKw => do
    if ← holdsAt ts (i + 1) (·.isKeyword .namespaceKw) then namespaceStatement x ts (i + 2)
    else otherStatement x keyword ts i
  | .namespaceKw => namespaceStatement x ts (i + 1)
  | .templateKw => templateStatement x ts i
  | .usingKw => usingStatement x ts i
  | .typedefKw => typedefStatement x ts i
  | .publicKw | .privateKw | .protectedKw => do
    if ← holdsAt ts (i + 1) (·.isPunct .colon) then return (x, i + 2) else otherStatement x keyword ts i
  | .externKw => do
    if ← holdsAt ts (i + 1) fun u => u.isLiteral && u.text.head? == some (.scalar '"') then linkage x ts (i + 2)
    else otherStatement x keyword ts i
  | .staticAssertKw | .friendKw | .conceptKw | .asmKw | .exportKw => do return (x, ← skipStatement ts i)
  | .classKw | .structKw | .unionKw | .enumKw => do
    match ← typeStatement x false t ts (i + 1) with
    | some r => return r
    | none => otherStatement x keyword ts i
  | _ => otherStatement x keyword ts i

/-- Reads the statement at a position: the state after it, and the position from which reading goes on. -/
def statement (x : Extraction) (ts : List Token) (i : Nat) : Except Fault (Extraction × Nat) := do
  let t ← itemAt ts i
  let scope ← currentScope x
  match t.kind with
  | .punct .rbrace => closeScope x t ts (i + 1)
  | .punct .semicolon => return (x, i + 1)
  | .punct .lbrace => return (x.openScope .block none t.start, i + 1)
  | kind =>
    if scope.kind == .enum then enumeratorStatement x t ts i
    else
      match kind with
      | .keyword keyword => keywordStatement x keyword t ts i
      | _ => declarationOrExpression x ts i

theorem declarationOrExpression_eq (hx : Sound x) (h : At ts i rest) :
    declarationOrExpression x ts i = .ok (resume ts (x.declarationOrExpression rest)) := by
  rw [declarationOrExpression, scan_eq h]
  unfold Extraction.declarationOrExpression
  dsimp only [ok_bind, Scan.ofHead]
  rw [h.head, currentScope_eq hx, ok_bind, show x.current.kind.isLocal = x.inFunction from rfl]
  cases hending : (Head.read rest).ending with
  | body brace =>
    obtain ⟨hbody, -⟩ := h.body hending
    dsimp only [Terminator.ofEnding]
    rw [hbody.itemAt, ok_bind, classify_eq hx, ok_bind]
    match Declaration.read? x.current x.inFunction (Head.read rest).tokens with
    | none => rfl
    | some (.function f) => rfl
    | some (.variables specifiers type ds) => rfl
  | _ =>
    dsimp only [Terminator.ofEnding]
    rw [classify_eq hx, ok_bind]
    cases Declaration.read? x.current x.inFunction (Head.read rest).tokens with
    | none =>
      dsimp only [Option.map_none]
      rw [noteAnomaly_eq]
      cases x.inFunction <;> rfl
    | some d => rfl

theorem linkage_eq (x : Extraction) (h : At ts i rest) : linkage x ts i = .ok (resume ts (x.linkage rest)) := by
  rw [linkage, holdsAt_eq h, ok_bind]
  unfold Extraction.linkage
  cases rest with
  | nil => rw [resume, h.position_eq]; rfl
  | cons t rest =>
    rw [List.head?_cons, Option.any_some, h.itemAt, ok_bind, resume]
    dsimp only
    split
    · rw [h.succ.position_eq]
      rfl
    · rw [h.position_eq]
      rfl

theorem otherStatement_eq (hx : Sound x) (keyword : Keyword) {t : Token} (h : At ts i (t :: rest)) :
    otherStatement x keyword ts i = .ok (resume ts (if x.inFunction then
      (x.controlStatement? keyword rest).getD (x.declarationOrExpression (t :: rest))
      else x.declarationOrExpression (t :: rest))) := by
  rw [otherStatement, currentScope_eq hx, ok_bind, controlStatement_eq hx keyword h.succ, ok_bind,
    declarationOrExpression_eq hx h, show x.current.kind.isLocal = x.inFunction from rfl]
  split
  · cases x.controlStatement? keyword rest <;> rfl
  · rfl

/-- Where a test has found a second token, the tokens behind it follow. -/
theorem At.behind_second {t : Token} (h : At ts i (t :: rest)) {test : Token → Bool}
    (hsecond : rest.head?.any test = true) : At ts (i + 2) (rest.drop 1) := by
  cases rest with
  | nil => simp at hsecond
  | cons u rest => exact h.succ.succ

theorem keywordStatement_eq (hx : Sound x) (keyword : Keyword) {t : Token} (h : At ts i (t :: rest)) :
    keywordStatement x keyword t ts i = .ok (resume ts (x.keywordStatement keyword t rest)) := by
  have hother := otherStatement_eq hx keyword h
  cases keyword
  case inlineKw =>
    rw [keywordStatement, holdsAt_eq h.succ, ok_bind]
    dsimp only [Extraction.keywordStatement]
    split
    · next hsecond => exact namespaceStatement_eq x (h.behind_second hsecond)
    · exact hother
  case namespaceKw => exact namespaceStatement_eq x h.succ
  case templateKw => exact templateStatement_eq x h
  case usingKw => exact usingStatement_eq x h
  case typedefKw => exact typedefStatement_eq x h
  case publicKw | privateKw | protectedKw =>
    rw [keywordStatement, holdsAt_eq h.succ, ok_bind]
    dsimp only [Extraction.keywordStatement]
    split
    · next hsecond => rw [resume, (h.behind_second hsecond).position_eq]; rfl
    · exact hother
  case externKw =>
    rw [keywordStatement, holdsAt_eq h.succ, ok_bind]
    dsimp only [Extraction.keywordStatement]
    split
    · next hsecond => exact linkage_eq x (h.behind_second hsecond)
    · exact hother
  case staticAssertKw | friendKw | conceptKw | asmKw | exportKw =>
    rw [keywordStatement, skipStatement_eq h]
    rfl
  case classKw | structKw | unionKw | enumKw =>
    rw [keywordStatement, typeStatement_eq x false t h.succ, ok_bind]
    dsimp only [Extraction.keywordStatement]
    cases x.typeStatement? false t rest with
    | none => exact hother
    | some r => rfl
  all_goals exact hother

/-- The statement at a position is the one that is read off the tokens from there on. -/
theorem statement_eq (hx : Sound x) {t : Token} (h : At ts i (t :: rest)) :
    statement x ts i = .ok (resume ts (x.statement t rest)) := by
  have hplain : (if x.current.kind == .enum then enumeratorStatement x t ts i else declarationOrExpression x ts i) =
      .ok (resume ts
        (if x.current.kind == .enum then x.enumeratorStatement t rest else x.declarationOrExpression (t :: rest))) := by
    split
    · exact enumeratorStatement_eq x h
    · exact declarationOrExpression_eq hx h
  rw [statement, h.itemAt, ok_bind, currentScope_eq hx, ok_bind]
  unfold Extraction.statement
  generalize t.kind = kind
  cases kind with
  | punct p =>
    cases p
    case rbrace => exact closeScope_eq hx t h.succ
    case semicolon | lbrace =>
      rw [resume, h.succ.position_eq]
      rfl
    all_goals exact hplain
  | keyword keyword =>
    dsimp only
    split
    · exact enumeratorStatement_eq x h
    · exact keywordStatement_eq hx keyword h
  | _ => exact hplain

/-! ## Open scopes stay in range -/

theorem sound_initial (fileEnd : Nat) : Sound (Extraction.initial fileEnd) :=
  ⟨Nat.one_pos, by simp [Extraction.initial]⟩

theorem Sound.of_kept (hx : Sound x) (h : Extraction.Kept x y) : Sound y := by
  refine ⟨Nat.lt_of_lt_of_le hx.file h.size, fun k hk => ?_⟩
  rw [h.opened] at hk
  exact ⟨(hx.opened k hk).1, Nat.lt_of_lt_of_le (hx.opened k hk).2 h.size⟩

theorem Sound.of_enters {g : List Nat} (hx : Sound x) (h : Extraction.Enters x y g) : Sound y := by
  refine ⟨Nat.lt_of_lt_of_le hx.file h.size, fun k hk => ?_⟩
  rw [h.opened] at hk
  rcases List.mem_append.mp hk with hk | hk
  · exact ⟨Nat.lt_of_lt_of_le hx.file (h.bounds k hk).1, (h.bounds k hk).2⟩
  · exact ⟨(hx.opened k hk).1, Nat.lt_of_lt_of_le (hx.opened k hk).2 h.size⟩

/-- Whatever tokens do, the open scopes are in range behind them, and the file is as it was. -/
theorem Sound.takes {code us : List Token} (hx : Sound x) (h : Extraction.Takes code us x y) :
    Sound y ∧ y.scopes[0]? = x.scopes[0]? := by
  have of_kept : ∀ {x y : Extraction}, Sound x → Extraction.Kept x y → Sound y ∧ y.scopes[0]? = x.scopes[0]? :=
    fun hx h => ⟨hx.of_kept h, h.old 0 hx.file⟩
  have of_enters : ∀ {x y : Extraction} {g : List Nat}, Sound x → Extraction.Enters x y g →
      Sound y ∧ y.scopes[0]? = x.scopes[0]? := fun hx h => ⟨hx.of_enters h, h.old 0 hx.file⟩
  induction h with
  | note => exact of_kept hx (.of_eq rfl rfl)
  | anomaly => exact of_kept hx (.of_eq rfl rfl)
  | declare => exact of_kept hx (.of_eq rfl rfl)
  | declareType => exact of_kept hx (Extraction.kept_addType ..)
  | function hasBody =>
    cases hasBody with
    | false => exact of_kept hx (Extraction.kept_addFunction ..)
    | true => exact of_enters hx (Extraction.enters_addFunction ..)
  | opensType => exact of_enters hx (Extraction.enters_openType ..)
  | opens => exact of_enters hx (Extraction.enters_openScope ..)
  | @opensNamespaces x names =>
    cases names with
    | nil => exact ⟨hx, rfl⟩
    | cons name names =>
      obtain ⟨g, henters⟩ := Extraction.enters_openNamespaces x _ name names
      exact of_enters hx henters
  | closes _ hleave =>
    obtain ⟨left, kept, hopened, -, rfl⟩ := Extraction.leave_eq hleave
    -- the scope of the file is never left
    have hsize := Extraction.size_endScopes
    refine ⟨⟨?_, fun k hk => ?_⟩, ?_⟩
    · rw [hsize]
      exact hx.file
    · rw [hsize]
      exact hx.opened k (by rw [hopened]; exact List.mem_append_right left hk)
    · refine (Extraction.getElem?_endScopes ..).trans (if_neg fun hfile => ?_)
      exact Nat.lt_irrefl 0 (hx.opened 0 (by rw [hopened]; exact List.mem_append_left kept hfile)).1
  | append _ _ ih ih' =>
    obtain ⟨hy, hfile⟩ := ih hx
    obtain ⟨hz, hfile'⟩ := ih' hy
    exact ⟨hz, hfile'.trans hfile⟩
  | within _ _ ih => exact ih hx

theorem Sound.statement (hx : Sound x) (t : Token) (rest : List Token) :
    Sound (x.statement t rest).1 ∧ (x.statement t rest).1.scopes[0]? = x.scopes[0]? := by
  have hreads : Extraction.Reads (t :: rest) x (t :: rest) (x.statement t rest) := Extraction.reads_statement x t rest
  obtain ⟨front, -, htakes⟩ := hreads List.suffix_rfl
  exact hx.takes htakes

/-! ## The whole file -/

/-- Reads statement by statement. Each one has to go forward. -/
def runFrom (ts : List Token) : (fuel : Nat) → (x : Extraction) → (i : Nat) → Except Fault Extraction
  | 0, _, _ => .error .endless
  | fuel + 1, x, i =>
    if i < ts.length then do
      let (y, j) ← statement x ts i
      if i < j then runFrom ts fuel y j else .error .noProgress
    else return x

/-- Sets where some scopes end. -/
def endScopes (stop : Nat) : (indices : List Nat) → (x : Extraction) → Except Fault Extraction
  | [], x => return x
  | k :: ks, x => if k < x.scopes.size then endScopes stop ks (x.endScope k stop) else .error .outOfRange

/-- Where the last token ends. -/
def codeEnd (code : List Token) : Except Fault Nat :=
  if code.isEmpty then return 0 else do return (← lastItem code).stop

/-- The declaration model of a file, given its tokens. -/
def extract (tokens : List Token) : Except Fault Model := do
  let code := Token.code tokens
  let fileEnd ← codeEnd code
  let x ← runFrom code (rounds code) (Extraction.initial fileEnd) 0
  let read ← endScopes fileEnd (stack x) x
  let all := (tokens.filter (·.isDirective)).foldl (·.addMacro ·) read
  return {
    entities := all.entities.toList.mergeSort Entity.precedes
    scopes := all.scopes
    anomalies := all.anomalies.toList }

/-- A statement ends behind the position where it starts. -/
theorem lt_position_statement (x : Extraction) {t : Token} (h : At ts i (t :: rest)) :
    i < position ts (x.statement t rest).2 := by
  have hsuffix := Extraction.suffix_statement x t rest
  have hlength := h.succ.length_eq
  have hlength' := (h.succ.suffix hsuffix).length_eq
  have hshorter := hsuffix.length_le
  omega

theorem runFrom_eq {fuel : Nat} (hx : Sound x) (h : At ts i rest) (hfuel : rest.length < fuel) :
    runFrom ts fuel x i = .ok (x.run rest) := by
  fun_induction Extraction.run x rest generalizing i fuel <;>
    obtain ⟨fuel, rfl⟩ := Nat.exists_eq_add_one.mpr (Nat.zero_lt_of_lt hfuel)
  case case1 =>
    rw [runFrom, if_neg h.not_lt]
    rfl
  case case2 x t rest read ih =>
    have hsuffix := Extraction.suffix_statement x t rest
    have hshorter : read.2.length ≤ rest.length := hsuffix.length_le
    rw [List.length_cons] at hfuel
    rw [runFrom, if_pos h.lt, statement_eq hx h, ok_bind, resume]
    dsimp only
    rw [if_pos (lt_position_statement x h)]
    exact ih (hx.statement t rest).1 (h.succ.suffix hsuffix) (Nat.lt_of_le_of_lt hshorter (by omega))

theorem endScopes_of_forall {ks : List Nat} (h : ∀ k ∈ ks, k < x.scopes.size) (stop : Nat) :
    endScopes stop ks x = .ok (ks.foldl (·.endScope · stop) x) := by
  induction ks generalizing x with
  | nil => rfl
  | cons k ks ih =>
    rw [List.forall_mem_cons] at h
    have hsize : (x.endScope k stop).scopes.size = x.scopes.size := Array.size_modify
    rw [endScopes, if_pos h.1, List.foldl_cons, ih (hsize ▸ h.2)]

/-- The file ends where it has ended from the start, so that only the scopes inside it are changed. -/
theorem endScopes_stack {file : Scope} (hx : Sound x) (hfile : x.scopes[0]? = some file) :
    endScopes file.stop (stack x) x = .ok (x.endOpened file.stop) := by
  have hrange : ∀ k ∈ stack x, k < x.scopes.size := by
    intro k hk
    rcases List.mem_cons.mp hk with rfl | hk
    · exact hx.file
    · exact (hx.opened k (List.mem_reverse.mp hk)).2
  have hscopes : Extraction.endScopes x.scopes (stack x) file.stop =
      Extraction.endScopes x.scopes x.opened file.stop := by
    refine Array.ext_getElem? fun k => ?_
    rw [Extraction.getElem?_endScopes, Extraction.getElem?_endScopes]
    by_cases hk : k = 0
    · subst hk
      have hopened : 0 ∉ x.opened := fun hmem => Nat.lt_irrefl 0 (hx.opened 0 hmem).1
      have hstack : 0 ∈ stack x := List.mem_cons_self
      rw [if_pos hstack, if_neg hopened, hfile]
      rfl
    · have hiff : k ∈ stack x ↔ k ∈ x.opened := by simp [stack, hk]
      simp only [hiff]
  rw [endScopes_of_forall hrange, Extraction.foldl_endScope, Extraction.endOpened_eq, hscopes]

theorem codeEnd_eq (code : List Token) : codeEnd code = .ok ((code.getLast?.map (·.stop)).getD 0) := by
  unfold codeEnd
  cases hlast : code.getLast? with
  | none => rw [List.getLast?_eq_none_iff.mp hlast]; rfl
  | some last =>
    rw [if_neg (by simp [List.ne_nil_of_mem (List.mem_of_getLast? hlast)]), lastItem_eq hlast]
    rfl

/-- The model that is read by positions is the one that is read off the tokens. -/
theorem extract_eq (tokens : List Token) : extract tokens = .ok (HouseStyle.extract tokens) := by
  unfold extract HouseStyle.extract
  dsimp only
  rw [codeEnd_eq, ok_bind]
  generalize ((Token.code tokens).getLast?.map (·.stop)).getD 0 = fileEnd
  have hinitial := sound_initial fileEnd
  have hstart := at_zero (Token.code tokens)
  obtain ⟨hsound, hfile⟩ := hinitial.takes (Extraction.takes_run _ (List.suffix_rfl (l := Token.code tokens)))
  have hfile' : ((Extraction.initial fileEnd).run (Token.code tokens)).scopes[0]? =
      some ⟨.file, none, none, 0, fileEnd, false, false⟩ := hfile
  have hend := endScopes_stack hsound hfile'
  dsimp only at hend
  rw [runFrom_eq hinitial hstart hstart.length_lt_rounds, ok_bind, hend]
  rfl

/-- Whatever the tokens are, they have a model: no token is looked up that is not there, no partner is asked for of a
token that is no opening bracket, and no loop goes on for ever or stays where it is. Each statement ends behind the
position where it starts, and at most behind the last token, in every state whose open scopes are in range; the first
state is one, and so are those after a statement. -/
theorem extract_goes_forward :
    (∀ tokens, extract tokens = .ok (HouseStyle.extract tokens)) ∧
      (∀ fileEnd, Sound (Extraction.initial fileEnd)) ∧
      ∀ (ts : List Token) (x : Extraction) (i : Nat), Sound x → i < ts.length →
        ∃ y j, statement x ts i = .ok (y, j) ∧ i < j ∧ j ≤ ts.length ∧ Sound y := by
  refine ⟨extract_eq, sound_initial, fun ts x i hx hi => ?_⟩
  have h : At ts i (ts[i] :: ts.drop (i + 1)) := ⟨Nat.le_of_lt hi, List.drop_eq_getElem_cons hi⟩
  have hafter := h.succ.suffix (Extraction.suffix_statement x ts[i] (ts.drop (i + 1)))
  exact ⟨_, _, statement_eq hx h, lt_position_statement x h, hafter.le, (hx.statement _ _).1⟩

/-- A `typedef` of a class without braces: reading goes back to the keyword, and then on behind the semicolon. -/
theorem extract_goes_forward_typedef :
    ∃ ts x, ts = Token.code (tokens (Text.ofString "typedef struct a b; c")) ∧ Sound x ∧ 0 < ts.length ∧
      ∃ y j, statement x ts 0 = .ok (y, j) ∧ 0 < j ∧ j ≤ ts.length ∧ Sound y := by
  have hts : 0 < (Token.code (tokens (Text.ofString "typedef struct a b; c"))).length := by decide +kernel
  have hx := extract_goes_forward.2.1 21
  exact ⟨_, _, rfl, hx, hts, extract_goes_forward.2.2 _ _ 0 hx hts⟩

end ByPosition

end HouseStyle
