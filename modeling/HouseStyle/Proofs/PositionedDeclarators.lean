import HouseStyle.Proofs.Positions
import HouseStyle.Proofs.Recording

/-!
# Declarators by positions

Variables, parameters and functions are read from positions of the head that declares them, and recorded in the scope
that is open. That scope is looked up, too: the stack of open scopes has the file at its bottom (`stack`), and its
indices are in range (`Sound`).

- `declarators_eq`, `emitVariables_eq`: the variables of a head.
- `parametersInside_eq`: the parameters of a list in round brackets.
- `emitFunction_eq`: a function, whose parameter list may not be closed.
-/

namespace HouseStyle

namespace ByPosition

variable {ts rest : List Token} {i : Nat}

/-! ## The open scopes -/

/-- The stack of open scopes, the file at its bottom. -/
def stack (x : Extraction) : List Nat := 0 :: x.opened.reverse

/-- The innermost open scope. -/
def currentScope (x : Extraction) : Except Fault Scope := do itemAt x.scopes.toList (← lastItem (stack x))

/-- The scopes that are open are there, and so is the file, which is not one of them. -/
structure Sound (x : Extraction) : Prop where
  file : 0 < x.scopes.size
  opened : ∀ k ∈ x.opened, 0 < k ∧ k < x.scopes.size

theorem lastItem_eq {α : Type} {xs : List α} {a : α} (h : xs.getLast? = some a) : lastItem xs = .ok a := by
  rw [List.getLast?_eq_getElem?] at h
  rw [lastItem, itemAt, h]

theorem lastItem_stack (x : Extraction) : lastItem (stack x) = .ok x.currentIndex := by
  refine lastItem_eq ?_
  unfold stack Extraction.currentIndex
  cases x.opened with
  | nil => rfl
  | cons k outer => rw [List.reverse_cons, ← List.cons_append, List.getLast?_concat]; rfl

variable {x : Extraction}

theorem itemAt_scopes {k : Nat} (h : k < x.scopes.size) :
    itemAt x.scopes.toList k = .ok (x.scopes.getD k ⟨.file, none, none, 0, 0, false, false⟩) := by
  rw [itemAt, Array.getElem?_toList, Array.getElem?_eq_getElem h, Array.getD_eq_getD_getElem?,
    Array.getElem?_eq_getElem h]
  rfl

theorem Sound.current (hx : Sound x) : x.currentIndex < x.scopes.size := by
  unfold Extraction.currentIndex
  cases hopened : x.opened with
  | nil => exact hx.file
  | cons k outer => exact (hx.opened k (by simp [hopened])).2

theorem currentScope_eq (hx : Sound x) : currentScope x = .ok x.current := by
  rw [currentScope, lastItem_stack, ok_bind]
  exact itemAt_scopes hx.current

/-! ## Variables -/

/-- The position behind the parameter list at a position, or the end of the head if it is not closed; the position
itself if there is no such list. -/
def pastParameters (header : List Token) (p : Nat) : Except Fault Nat := do
  if ← holdsAt header p (·.isPunct .lparen) then
    match ← partner header p with
    | none => return header.length
    | some close => return close + 1
  else return p

/-- The name that a declarator is built around, and the position behind it. -/
def declaratorName (header : List Token) (p : Nat) :
    Except Fault (Option (Token × List Text × Confidence × Nat)) :=
  if p < header.length then do
    let t ← itemAt header p
    if t.isPunct .lparen then
      match ← partner header p with
      | none => return none
      | some close =>
        let names := (header.extract (p + 1) close).filter (·.isIdentifier)
        if names.isEmpty then return none
        else return some (← lastItem names, [], .low, ← pastParameters header (close + 1))
    else if t.isIdentifier then
      return (← nameAt header p).map fun name => (name.last, name.segments.dropLast, .high, name.stop)
    else return none
  else return none

/-- The tokens behind the parameter list at the front; one that is not closed takes all. -/
def afterParameters : List Token → List Token
  | [] => []
  | u :: more => if u.isPunct .lparen then ((parenthesised? more).map (·.after)).getD [] else u :: more

theorem pastParameters_eq (h : At ts i rest) : pastParameters ts i = .ok (position ts (afterParameters rest)) := by
  rw [pastParameters, holdsAt_eq h, ok_bind]
  unfold afterParameters
  cases rest with
  | nil => rw [h.position_eq]; rfl
  | cons u more =>
    dsimp only
    rw [List.head?_cons, Option.any_some]
    split
    · next hu =>
      rw [partner_lparen h hu, ok_bind]
      cases he : parenthesised? more with
      | none => rfl
      | some e =>
        dsimp only [Option.map_some, Option.getD_some]
        rw [position_closer_add_one h.succ he]
        rfl
    · rw [h.position_eq]
      rfl

theorem declaratorName_eq (h : At ts i rest) :
    declaratorName ts i =
      .ok ((Declarator.name? rest).map fun (t, q, c, later) => (t, q, c, position ts later)) := by
  unfold declaratorName Declarator.name?
  cases rest with
  | nil => rw [if_neg h.not_lt]; rfl
  | cons t rest =>
    rw [if_pos h.lt, h.itemAt, ok_bind]
    dsimp only
    by_cases hparen : t.isPunct .lparen = true
    · rw [if_pos hparen, if_pos hparen, partner_lparen h hparen, ok_bind]
      cases he : parenthesised? rest with
      | none => rfl
      | some e =>
        have hclose := h.succ.suffix (suffix_closer he)
        dsimp only [Option.map_some]
        rw [h.succ.extract (enclosed?_append he), pastParameters_eq hclose.succ]
        cases hnames : (e.inside.filter (·.isIdentifier)).getLast? with
        | none =>
          rw [List.getLast?_eq_none_iff.mp hnames]
          rfl
        | some name =>
          rw [if_neg (by simp [List.ne_nil_of_mem (List.mem_of_getLast? hnames)]), lastItem_eq hnames]
          dsimp only
          cases e.after with
          | nil => rfl
          | cons u more =>
            rw [afterParameters]
            dsimp only
            split <;> rfl
    rw [if_neg hparen, if_neg hparen]
    by_cases hname : t.isIdentifier = true
    · rw [if_pos hname, if_pos hname, nameAt_eq h, ok_bind, pure_eq_ok, Option.map_map, Option.map_map]
      rfl
    · rw [if_neg hname, if_neg hname]
      rfl

/-- The position behind the array bounds at a position. -/
def pastBoundsFrom (header : List Token) : (fuel : Nat) → (p : Nat) → Except Fault Nat
  | 0, _ => .error .endless
  | fuel + 1, p => do
    if ← holdsAt header p (·.isPunct .lbracket) then
      match ← partner header p with
      | none => return header.length
      | some close => pastBoundsFrom header fuel (close + 1)
    else return p

theorem pastBoundsFrom_eq {fuel : Nat} (h : At ts i rest) (hfuel : rest.length < fuel) :
    pastBoundsFrom ts fuel i = .ok (position ts (Declarator.afterBounds rest)) := by
  fun_induction Declarator.afterBounds rest generalizing i fuel <;>
    obtain ⟨fuel, rfl⟩ := Nat.exists_eq_add_one.mpr (Nat.zero_lt_of_lt hfuel) <;>
    rw [pastBoundsFrom, holdsAt_eq h, ok_bind]
  case case1 => rw [h.position_eq]; rfl
  all_goals rw [List.head?_cons, Option.any_some]
  case case2 hopen hnone =>
    rw [if_pos hopen, partner_lbracket h hopen, hnone]
    rfl
  case case3 hopen e he ih =>
    have hclose := h.succ.suffix (suffix_closer he)
    have hshorter := length_after_lt he
    rw [List.length_cons] at hfuel
    rw [if_pos hopen, partner_lbracket h hopen, he]
    exact ih hclose.succ (by omega)
  case case4 hopen => rw [if_neg hopen, h.position_eq]; rfl

/-- The position of the comma that ends an initializer, or the end of the head. -/
def pastInitializerFrom (header : List Token) : (fuel : Nat) → (depth : Nat) → (p : Nat) → Except Fault Nat
  | 0, _, _ => .error .endless
  | fuel + 1, depth, p =>
    if p < header.length then do
      let t ← itemAt header p
      if t.isOneOf [.lparen, .lbracket, .lbrace] then pastInitializerFrom header fuel (depth + 1) (p + 1)
      else if t.isOneOf [.rparen, .rbracket, .rbrace] then pastInitializerFrom header fuel (depth - 1) (p + 1)
      else if t.isPunct .comma && depth == 0 then return p
      else pastInitializerFrom header fuel depth (p + 1)
    else return p

theorem pastInitializerFrom_eq {fuel : Nat} (h : At ts i rest) (hfuel : rest.length < fuel) (depth : Nat) :
    pastInitializerFrom ts fuel depth i = .ok (position ts (Declarator.upToComma depth rest).2) := by
  induction rest generalizing i fuel depth with
  | nil =>
    obtain ⟨fuel, rfl⟩ := Nat.exists_eq_add_one.mpr (Nat.zero_lt_of_lt hfuel)
    rw [pastInitializerFrom, if_neg h.not_lt, Declarator.upToComma, h.position_eq]
    rfl
  | cons t rest ih =>
    obtain ⟨fuel, rfl⟩ := Nat.exists_eq_add_one.mpr (Nat.zero_lt_of_lt hfuel)
    rw [List.length_cons] at hfuel
    have hgo := fun depth => ih h.succ (Nat.lt_of_succ_lt_succ hfuel) depth
    rw [pastInitializerFrom, if_pos h.lt, h.itemAt, ok_bind, Declarator.upToComma]
    dsimp only
    by_cases hcomma : t.isPunct .comma = true
    · have hopen : t.isOneOf [.lparen, .lbracket, .lbrace] = false := by rw [Token.isOneOf, eq_of_beq hcomma]; rfl
      have hclose : t.isOneOf [.rparen, .rbracket, .rbrace] = false := by rw [Token.isOneOf, eq_of_beq hcomma]; rfl
      rw [hopen, hclose, if_neg Bool.false_ne_true, if_neg Bool.false_ne_true, if_neg Bool.false_ne_true,
        if_neg Bool.false_ne_true]
      split
      · rw [h.position_eq]
        rfl
      · exact hgo depth
    · rw [Bool.not_eq_true] at hcomma
      rw [hcomma, Bool.false_and, if_neg Bool.false_ne_true, if_neg Bool.false_ne_true]
      split
      · exact hgo (depth + 1)
      split
      · exact hgo (depth - 1)
      · exact hgo depth

/-- The variables that are declared from a position on, behind the words of their type. -/
def declaratorsFrom (header : List Token) : (fuel : Nat) → (p : Nat) → Except Fault (List Declarator)
  | 0, _ => .error .endless
  | fuel + 1, p => do
    let q ← pastWhile header (fun t => t.isPointerOrReference || t.isCv) p
    match ← declaratorName header q with
    | none => return []
    | some (name, qualifier, confidence, afterName) =>
      let start ← pastBoundsFrom header (rounds header) afterName
      let stop ← pastInitializerFrom header (rounds header) 0 start
      let initializer := header.extract start stop
      if ← holdsAt initializer 0 (!·.isAnyPunct) then return []
      else
        let signed ← holdsAt initializer 0 (·.isOneOf [.eq, .colon])
        let d : Declarator :=
          { operators := header.extract p q, name, qualifier, confidence
            isArray := ← holdsAt header afterName (·.isPunct .lbracket)
            initializer := if signed then initializer.drop 1 else initializer }
        if ← holdsAt header stop (·.isPunct .comma) then return d :: (← declaratorsFrom header fuel (stop + 1))
        else return [d]

theorem withoutSign_eq (ts : List Token) :
    Declarator.withoutSign ts = if ts.head?.any (·.isOneOf [.eq, .colon]) then ts.drop 1 else ts := by
  cases ts <;> rfl

theorem suffix_name {later : List Token} {t : Token} {q : List Text} {c : Confidence}
    (h : Declarator.name? rest = some (t, q, c, later)) : later <:+ rest := by
  obtain ⟨⟨front, mid, hrest⟩, -⟩ := Declarator.name_append h
  exact ⟨front ++ t :: mid, by rw [hrest, List.append_assoc]; rfl⟩

theorem declaratorsFrom_eq {fuel : Nat} (h : At ts i rest) (hfuel : rest.length < fuel) :
    declaratorsFrom ts fuel i = .ok (Declarator.readAll rest) := by
  fun_induction Declarator.readAll rest generalizing i fuel <;>
    obtain ⟨fuel, rfl⟩ := Nat.exists_eq_add_one.mpr (Nat.zero_lt_of_lt hfuel) <;>
    rw [declaratorsFrom, pastWhile_eq h, ok_bind]
  case case1 isOperator hname =>
    have hq := h.suffix (List.dropWhile_suffix isOperator)
    rw [declaratorName_eq hq, hname]
    rfl
  -- both cases with a name read the same up to its initializer
  case' case3 ih => revert ih
  all_goals
    rename_i rest isOperator name qualifier confidence afterName hname initializer hfits
    have hq := h.suffix (List.dropWhile_suffix isOperator)
    have hafter := hq.suffix (suffix_name hname)
    have hbounds := hafter.suffix (Declarator.suffix_afterBounds afterName)
    have hstop := hbounds.suffix (Declarator.suffix_upToComma 0 _)
    have hinitializer := hbounds.extract (Declarator.upToComma_append 0 _).symm
    rw [declaratorName_eq hq, hname, Option.map_some, ok_bind]
    dsimp only
    rw [pastBoundsFrom_eq hafter hafter.length_lt_rounds, ok_bind,
      pastInitializerFrom_eq hbounds hbounds.length_lt_rounds, ok_bind, hinitializer,
      holdsAt_eq (at_zero _), ok_bind]
  case case2 => exact if_pos hfits
  -- behind a comma the next declarator is read
  case case3 =>
    intro ih
    have hoperators := h.extract (List.takeWhile_append_dropWhile (p := isOperator)).symm
    have hshorter := Declarator.length_name_lt hname
    have hlength := (Declarator.suffix_upToComma 0 (Declarator.afterBounds afterName)).length_le
    have hlength' := Declarator.length_afterBounds_le afterName
    have hlength'' := (List.dropWhile_suffix (l := rest) isOperator).length_le
    rw [if_neg hfits, holdsAt_eq (at_zero _), ok_bind, holdsAt_eq hafter, ok_bind, holdsAt_eq hstop, ok_bind,
      hoperators, ← withoutSign_eq]
    cases hrest : (Declarator.upToComma 0 (Declarator.afterBounds afterName)).2 with
    | nil => rfl
    | cons comma others =>
      rw [hrest] at hstop hlength
      rw [List.length_cons] at hlength
      rw [List.head?_cons, Option.any_some, if_pos (Declarator.isPunct_comma_of_upToComma hrest),
        ih comma others hrest hstop.succ (by omega)]
      rfl

/-- The variables that are declared from a position on, behind the words of their type. -/
def declarators (header : List Token) (p : Nat) : Except Fault (List Declarator) :=
  declaratorsFrom header (rounds header) p

theorem declarators_eq (h : At ts i rest) : declarators ts i = .ok (Declarator.readAll rest) :=
  declaratorsFrom_eq h h.length_lt_rounds

/-- Records variables of a type. -/
def emitVariables (x : Extraction) (specifiers : Specifiers) (type : List Token) (typeName : Text) :
    List Declarator → Except Fault Extraction
  | [] => return x
  | d :: ds => do
    let scope ← currentScope x
    let isConst ← constAt (type ++ d.operators)
    let written := if type.isEmpty then typeName ++ joinedText d.operators else joinedText (type ++ d.operators)
    emitVariables (x.add {
      kind := Extraction.variableKind scope.kind specifiers d isConst
      name := d.name.text, token := d.name, scope := x.currentIndex, isConst
      isStatic := specifiers.isStatic, isConstexpr := specifiers.isConstexpr
      storage := specifiers.storage
      typeText := if d.isArray then written ++ Text.ofString "[]" else written
      initializer := joinedText d.initializer, qualifier := d.qualifier
      confidence := d.confidence }) specifiers type typeName ds

theorem Sound.add (hx : Sound x) (e : Entity) : Sound (x.add e) := ⟨hx.file, hx.opened⟩

theorem emitVariables_eq (hx : Sound x) (specifiers : Specifiers) (type : List Token) (typeName : Text)
    (ds : List Declarator) :
    emitVariables x specifiers type typeName ds = .ok (x.addVariables specifiers type typeName ds) := by
  induction ds generalizing x with
  | nil => rfl
  | cons d ds ih =>
    rw [emitVariables, currentScope_eq hx, ok_bind, constAt_eq, ok_bind]
    exact ih (hx.add _)

/-! ## Parameters -/

/-- Whether there is just one token, and a test holds of it. -/
def soleHolds (ts : List Token) (test : Token → Bool) : Except Fault Bool :=
  if ts.length == 1 then do return test (← itemAt ts 0) else return false

theorem soleHolds_eq (ts : List Token) (test : Token → Bool) :
    soleHolds ts test = .ok (ts.length == 1 && ts.all test) := by
  unfold soleHolds
  match ts with
  | [] => rfl
  | [t] => simp [itemAt]
  | _ :: _ :: _ => simp

/-- The brackets of an array behind the name of a parameter, the first and the last one of them. -/
def arrayBrackets (decl : List Token) (q : Nat) : Except Fault (List Token) := do
  if ← holdsAt decl q (·.isPunct .lbracket) then
    let opener ← itemAt decl q
    let last ← lastItem decl
    return [opener, if last.isPunct .rbracket then last else opener]
  else return []

/-- The parameter that a part of a parameter list declares. -/
def parameterAt (part : List Token) : Except Fault (Option Parameter) := do
  let decl := part.takeWhile (!·.isPunct .eq)
  if decl.isEmpty then return none
  else if ← soleHolds decl (·.isPunct .ellipsis) then return none
  else
    let (_, p) ← pastSpecifiers decl 0
    match ← pastType decl p with
    | none => return some ⟨joinedText decl, none, false, .high⟩
    | some q =>
      let type := decl.extract p q
      if q < decl.length then
        let t ← itemAt decl q
        if t.isIdentifier then
          let type := type ++ (← arrayBrackets decl (q + 1))
          return some ⟨joinedText (type.filter (· != t)), some t, ← constAt type, .high⟩
        else if t.isPunct .lparen then
          let typed := decl.drop p
          let isConst ← constAt typed
          let names := (decl.drop q).filter (·.isIdentifier)
          if names.isEmpty then return some ⟨joinedText typed, none, isConst, .low⟩
          else
            let name ← itemAt names 0
            return some ⟨joinedText (typed.filter (· != name)), some name, isConst, .low⟩
        else return some ⟨joinedText type, none, ← constAt type, .high⟩
      else return some ⟨joinedText type, none, ← constAt type, .high⟩

theorem At.tokensBefore (h : At ts i rest) {later : List Token} (hlater : later <:+ rest) :
    ts.extract i (position ts later) = tokensBefore rest later := by
  obtain ⟨front, rfl⟩ := hlater
  rw [h.extract rfl, tokensBefore_append]

theorem At.getLast? {t : Token} (h : At ts i (t :: rest)) : ts.getLast? = (t :: rest).getLast? := by
  rw [← List.take_append_drop i ts, h.drop, List.getLast?_append, List.getLast?_cons]
  rfl

/-- The brackets of an array, given the tokens behind the name of a parameter. -/
def outerBrackets (ts : List Token) : List Token :=
  match ts, ts.getLast? with
  | b :: _, some last => if b.isPunct .lbracket then [b, if last.isPunct .rbracket then last else b] else []
  | _, _ => []

theorem arrayBrackets_eq (h : At ts i rest) : arrayBrackets ts i = .ok (outerBrackets rest) := by
  rw [arrayBrackets, holdsAt_eq h, ok_bind]
  unfold outerBrackets
  cases rest with
  | nil => rfl
  | cons b more =>
    rw [List.head?_cons, Option.any_some, List.getLast?_cons]
    dsimp only
    split
    · rw [h.itemAt, ok_bind, lastItem_eq (h.getLast?.trans List.getLast?_cons)]
      rfl
    · rfl

theorem parameterAt_eq (part : List Token) : parameterAt part = .ok (Parameter.ofPart? part) := by
  unfold parameterAt Parameter.ofPart?
  dsimp only
  generalize part.takeWhile (!·.isPunct .eq) = decl
  split
  · rfl
  rw [soleHolds_eq, ok_bind]
  split
  · rfl
  have htyped := (at_zero decl).suffix (suffix_specifiers decl)
  rw [pastSpecifiers_eq (at_zero decl), ok_bind]
  dsimp only
  rw [pastType_eq htyped, ok_bind]
  rw [show afterSpecifiers decl = (specifiers decl).2 from rfl]
  cases htype : afterType? (specifiers decl).2 with
  | none => rfl
  | some rest =>
    have hrest := htyped.suffix (suffix_afterType htype)
    dsimp only [Option.map_some]
    rw [htyped.tokensBefore (suffix_afterType htype), htyped.drop]
    cases rest with
    | nil =>
      rw [if_neg hrest.not_lt, constAt_eq]
      rfl
    | cons t more =>
      rw [if_pos hrest.lt, hrest.itemAt, ok_bind]
      dsimp only
      split
      · rw [arrayBrackets_eq hrest.succ, ok_bind, constAt_eq]
        rfl
      split
      · rw [constAt_eq, ok_bind, hrest.drop, ← List.head?_filter]
        cases hnames : (t :: more).filter (·.isIdentifier) with
        | nil => rfl
        | cons name names => rfl
      · rw [constAt_eq]
        rfl

/-- The parameters of a list in round brackets; a sole `void` stands for none. -/
def parametersInside (inside : List Token) : Except Fault (List Parameter) := do
  let parts := allCommaParts inside
  if parts.length == 1 then
    if ← soleHolds (← itemAt parts 0) (·.isKeyword .voidKw) then return []
  collect parameterAt parts

/-- All tokens are in some part, but for one separator in front of each part after the first. -/
theorem length_partsFrom (separator : Punct) (angles : Bool) (depth angle : Nat) (ts : List Token) :
    (partsFrom separator angles depth angle ts).1.length +
      ((partsFrom separator angles depth angle ts).2.flatten.length +
        (partsFrom separator angles depth angle ts).2.length) = ts.length := by
  have keep : ∀ {t : Token} {first : List Token} {n m : Nat},
      first.length + n = m → (t :: first).length + n = m + 1 := fun {t first n m} h => by
    rw [List.length_cons]
    omega
  induction ts generalizing depth angle with
  | nil => rfl
  | cons t ts ih =>
    unfold partsFrom
    dsimp only
    split
    · split
      · exact keep (ih ..)
      split
      · exact keep (ih ..)
      split
      · exact keep (ih ..)
      split
      · exact keep (ih ..)
      split
      · have hrest := ih depth angle
        simp only [List.length_nil, List.length_cons, List.flatten_cons, List.length_append]
        omega
      · exact keep (ih ..)
    · exact keep (ih ..)

theorem parametersInside_eq (inside : List Token) : parametersInside inside = .ok (Parameter.readAll inside) := by
  have hlength := length_partsFrom .comma true 0 0 inside
  have hsublist := (fst_partsFrom_isPrefix .comma true 0 0 inside).sublist
  unfold parametersInside Parameter.readAll allCommaParts commaParts
  dsimp only
  cases hothers : (partsFrom .comma true 0 0 inside).2 with
  | nil =>
    rw [hothers] at hlength
    have hsole : soleHolds inside (·.isKeyword .voidKw) = _ := soleHolds_eq inside _
    rw [hsublist.eq_of_length hlength, if_pos (by rfl)]
    rw [show itemAt [inside] 0 = .ok inside from rfl, ok_bind, hsole, ok_bind]
    split
    · rfl
    · exact collect_eq parameterAt_eq _
  | cons other others =>
    have hvoid : ¬ (inside.length == 1 && inside.all (·.isKeyword .voidKw)) = true := by
      intro h
      match inside with
      | [t] =>
        have ht : t.kind = .keyword .voidKw := by simpa [Token.isKeyword] using h
        simp [partsFrom, ht] at hothers
      | [] | _ :: _ :: _ => simp at h
    rw [if_neg hvoid, if_neg (by simp)]
    exact collect_eq parameterAt_eq _

/-! ## Functions -/

/-- The kind of a function with a qualifier. -/
def functionKind (x : Extraction) (qualifier : List Text) : Except Fault EntityKind := do
  if (← currentScope x).kind == .class_ then return .method
  else if qualifier.isEmpty then return .function
  else
    let last ← lastItem qualifier
    return if x.namespaceNames.contains last && !x.classNames.contains last then .function else .method

theorem functionKind_eq (hx : Sound x) (qualifier : List Text) :
    functionKind x qualifier = .ok (x.functionKind qualifier) := by
  rw [functionKind, currentScope_eq hx, ok_bind, Extraction.functionKind]
  split
  · rfl
  cases hlast : qualifier.getLast? with
  | none => rw [List.getLast?_eq_none_iff.mp hlast]; rfl
  | some last =>
    rw [if_neg (by simp [List.ne_nil_of_mem (List.mem_of_getLast? hlast)]), lastItem_eq hlast]
    rfl

/-- Records a function whose parameter list is opened at a position of its head, and its parameters. -/
def emitFunction (x : Extraction) (header : List Token) (paren : Nat) (name : Token) (display : Text)
    (qualifier : List Text) (type : List Token) (specifiers : Specifiers) (isSpecial hasBody : Bool) :
    Except Fault Extraction := do
  let close ← partner header paren
  let inside := match close with
    | some close => header.extract (paren + 1) close
    | none => header.drop (paren + 1)
  let trailer := match close with
    | some close => header.drop (close + 1)
    | none => []
  let kind ← functionKind x qualifier
  let opener ← itemAt header paren
  let last ← match close with
    | some close => itemAt header close
    | none => lastItem header
  let parameters ← parametersInside inside
  let index := x.scopes.size
  let inner := x.addScope .function (some display) opener.start last.stop false false
  let withParameters :=
    { inner with entities := inner.entities ++ (Extraction.parameterEntities index parameters).toArray }
  let y := withParameters.add {
    kind, name := display, token := name, scope := x.currentIndex
    isStatic := specifiers.isStatic, isConstexpr := specifiers.isConstexpr, isSpecial
    isOverride := trailer.any fun t => t.isWord "override" || t.isWord "final"
    storage := specifiers.storage, typeText := joinedText type, parameters
    isDefinition := hasBody, qualifier, bodyScope := some index }
  return if hasBody then y.enter index else y

theorem emitFunction_eq (hx : Sound x) {opener : Token} {afterOpener : List Token}
    (h : At ts i (opener :: afterOpener)) (hopener : opener.isPunct .lparen = true) (name : Token) (display : Text)
    (qualifier : List Text) (type : List Token) (specifiers : Specifiers) (isSpecial hasBody : Bool) :
    emitFunction x ts i name display qualifier type specifiers isSpecial hasBody =
      .ok (x.addFunction { name, display, qualifier, type, isSpecial, specifiers, opener, afterOpener } hasBody) := by
  rw [emitFunction, partner_lparen h hopener, ok_bind, functionKind_eq hx, ok_bind, h.itemAt, ok_bind,
    Extraction.addFunction_eq]
  unfold Extraction.functionEntity Extraction.parameterTokens Extraction.parameterStop
  dsimp only
  cases he : parenthesised? afterOpener with
  | none =>
    dsimp only [Option.map_none]
    have hlast := h.getLast?.trans List.getLast?_cons
    rw [h.succ.drop, lastItem_eq hlast, ok_bind, parametersInside_eq, ok_bind]
    cases hasBody <;> rfl
  | some e =>
    have hclose := h.succ.suffix (suffix_closer he)
    dsimp only [Option.map_some]
    rw [h.succ.extract (enclosed?_append he), hclose.itemAt, ok_bind, parametersInside_eq, ok_bind, hclose.succ.drop]
    cases hasBody <;> rfl

end ByPosition

end HouseStyle
