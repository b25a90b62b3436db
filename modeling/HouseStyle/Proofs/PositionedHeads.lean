import HouseStyle.Proofs.PositionedDeclarators

/-!
# Heads by positions

Where the head of a statement ends (`scan_eq`), and what it declares (`classify_eq`). The end is given by a position
and a kind of terminator; the brace of a body is looked up where it stands (`At.body`).
-/

namespace HouseStyle

namespace ByPosition

open Declaration (operatorSymbol?)

variable {ts rest : List Token} {i : Nat} {x : Extraction}

/-! ## Where a head ends -/

/-- What ends the head of a statement, without its token. -/
inductive Terminator where
  | semicolon
  | body
  | scopeEnd
  | fileEnd
  deriving DecidableEq, Repr

/-- The kind of an ending. -/
def Terminator.ofEnding : Ending → Terminator
  | .semicolon => .semicolon
  | .body _ => .body
  | .scopeEnd => .scopeEnd
  | .fileEnd => .fileEnd

/-- Where the head of a statement ends and where reading goes on behind it. -/
structure Scan where
  stop : Nat
  next : Nat
  terminator : Terminator
  deriving DecidableEq, Repr

/-- The token before a position, unless the statement starts there. -/
def previous (ts : List Token) (start j : Nat) : Except Fault (Option Token) :=
  if start < j then do return some (← itemAt ts (j - 1)) else return none

/-- Goes on to the end of the head that starts at `start`. -/
def scanFrom (ts : List Token) (start : Nat) :
    (fuel : Nat) → (seen : Head.Seen) → (depth : Nat) → (j : Nat) → Except Fault Scan
  | 0, _, _, _ => .error .endless
  | fuel + 1, seen, depth, j =>
    if j < ts.length then do
      match Head.step seen (← previous ts start j) depth (← itemAt ts j) with
      | .keep seen depth => scanFrom ts start fuel seen depth (j + 1)
      | .finish .scopeEnd => return ⟨j, j, .scopeEnd⟩
      | .finish ending => return ⟨j, j + 1, .ofEnding ending⟩
      | .initializer =>
        match ← partner ts j with
        | none => return ⟨ts.length, ts.length, .fileEnd⟩
        | some close => scanFrom ts start fuel seen depth (close + 1)
    else return ⟨ts.length, ts.length, .fileEnd⟩

/-- Where the head of the statement at a position ends. -/
def scan (ts : List Token) (i : Nat) : Except Fault Scan := scanFrom ts i (rounds ts) {} 0 i

/-- The end of a head that is read from a position, by positions. -/
def Scan.ofHead (ts : List Token) (j : Nat) (head : Head) : Scan :=
  ⟨j + head.tokens.length, position ts head.rest, .ofEnding head.ending⟩

theorem Scan.ofHead_prepend (j : Nat) (front : List Token) (head : Head) :
    Scan.ofHead ts j (head.prepend front) = Scan.ofHead ts (j + front.length) head := by
  simp [ofHead, Head.prepend, Nat.add_assoc]

theorem previous_succ {start : Nat} {t : Token} (h : At ts i (t :: rest)) (hstart : start ≤ i) :
    previous ts start (i + 1) = .ok (some t) := by
  rw [previous, if_pos (by omega), Nat.add_sub_cancel, h.itemAt]
  rfl

theorem isPunct_lbrace_of_step {seen : Head.Seen} {last : Option Token} {depth : Nat} {t : Token}
    (h : Head.step seen last depth t = .initializer) : t.isPunct .lbrace = true := by
  unfold Head.step at h
  split at h
  case h_5 p _ _ _ _ hp =>
    split at h
    · split at h
      case h_5 => simp [Token.isPunct, hp]
      all_goals exact absurd h (by simp)
    · exact absurd h (by simp)
  all_goals exact absurd h (by simp)

theorem scanFrom_eq {start fuel : Nat} (h : At ts i rest) (hfuel : rest.length < fuel) (hstart : start ≤ i)
    (seen : Head.Seen) {last : Option Token} (hlast : previous ts start i = .ok last) (depth : Nat) :
    scanFrom ts start fuel seen depth i = .ok (.ofHead ts i (Head.readFrom seen last depth rest)) := by
  fun_induction Head.readFrom seen last depth rest generalizing i fuel <;>
    obtain ⟨fuel, rfl⟩ := Nat.exists_eq_add_one.mpr (Nat.zero_lt_of_lt hfuel)
  case case1 =>
    rw [scanFrom, if_neg h.not_lt, Scan.ofHead, h.position_eq]
    have := h.length_eq
    simp_all [Terminator.ofEnding]
  -- there is a token to look at, and the one before it is known
  all_goals rw [scanFrom, if_pos h.lt, h.itemAt, hlast, ok_bind, ok_bind]
  all_goals simp only [List.length_cons] at hfuel
  case case2 hstep ih =>
    rw [hstep, Scan.ofHead_prepend]
    exact ih h.succ (by omega) (by omega) (previous_succ h hstart)
  case case3 hstep =>
    rw [hstep, Scan.ofHead, h.position_eq]
    rfl
  case case4 ending hne hstep =>
    rw [hstep, Scan.ofHead, h.succ.position_eq]
    cases ending <;> first | rfl | exact absurd rfl hne
  case case5 hstep hnone =>
    have hlength := h.length_eq
    have hbrace := isPunct_lbrace_of_step hstep
    rw [hstep]
    dsimp only
    rw [partner_lbrace h hbrace, hnone, Scan.ofHead, hlength]
    rfl
  -- an initializer in braces is passed at once
  case case6 t later hstep e he ih =>
    have hbrace := isPunct_lbrace_of_step hstep
    have hclose := h.succ.suffix (suffix_closer he)
    have hshorter := length_after_lt he
    have hposition : i + (t :: e.inside ++ [e.closer]).length = position ts (e.closer :: e.after) + 1 := by
      have hfront := h.length_eq
      have hback := hclose.length_eq
      rw [enclosed?_append he] at hfront
      simp only [List.length_append, List.length_cons, List.length_nil] at hfront hback ⊢
      omega
    have hlater : start ≤ position ts (e.closer :: e.after) := by
      simp only [List.length_append, List.length_cons, List.length_nil] at hposition
      omega
    rw [hstep]
    dsimp only
    rw [partner_lbrace h hbrace, he, Scan.ofHead_prepend, hposition]
    exact ih hclose.succ (by omega) (Nat.le_succ_of_le hlater) (previous_succ hclose hlater)

/-- The head that is found by positions is the one that is read off the tokens. -/
theorem scan_eq (h : At ts i rest) : scan ts i = .ok (.ofHead ts i (Head.read rest)) := by
  have hlast : previous ts i i = .ok none := by
    rw [previous, if_neg (Nat.lt_irrefl i)]
    rfl
  exact scanFrom_eq h h.length_lt_rounds (Nat.le_refl i) {} hlast 0

/-- The tokens of a head, from where it starts to where it ends. -/
theorem At.head (h : At ts i rest) : ts.extract i (i + (Head.read rest).tokens.length) = (Head.read rest).tokens := by
  obtain ⟨ender, hrest, -⟩ := read_append rest
  rw [List.append_assoc] at hrest
  rw [List.extract_eq_take_drop, h.drop, Nat.add_sub_cancel_left]
  exact (congrArg (List.take _) hrest).trans List.take_left

/-- The brace of a body stands where its head ends. -/
theorem At.body (h : At ts i rest) {brace : Token} (hbody : (Head.read rest).ending = .body brace) :
    At ts (i + (Head.read rest).tokens.length) (brace :: (Head.read rest).rest) ∧ brace.isPunct .lbrace = true := by
  obtain ⟨ender, hrest, hender⟩ := read_append rest
  obtain ⟨rfl, hbrace⟩ := hender brace hbody
  rw [List.append_assoc] at hrest
  refine ⟨⟨?_, ?_⟩, hbrace⟩
  · have hlength := h.length_eq
    rw [hrest, List.length_append] at hlength
    omega
  · rw [← List.drop_drop, h.drop]
    exact (congrArg (List.drop _) hrest).trans List.drop_left

/-! ## What a head declares -/

/-- What comes of a declaration: whether it is a function, and the state after it is recorded. -/
def emitted (x : Extraction) (hasBody : Bool) (d : Declaration) : Bool × Extraction :=
  (match d with | .function _ => true | .variables .. => false, x.addDeclaration d hasBody)

/-- Records the operator function whose word `operator` stands at a position. -/
def emitOperator (x : Extraction) (header : List Token) (word : Nat) (type : List Token) (specifiers : Specifiers)
    (hasBody : Bool) : Except Fault (Option (Bool × Extraction)) := do
  match ← operatorBracket header word with
  | none => return none
  | some paren =>
    let name ← itemAt header word
    let display := Text.ofString "operator" ++ textBetween header (word + 1) paren
    return some (true, ← emitFunction x header paren name display [] type specifiers true hasBody)

theorem emitOperator_eq (hx : Sound x) {word : Token} (h : At ts i (word :: rest)) (type : List Token)
    (specifiers : Specifiers) (hasBody : Bool) :
    emitOperator x ts i type specifiers hasBody =
      .ok ((Declaration.operator? specifiers type word rest).map (emitted x hasBody)) := by
  rw [emitOperator, operatorBracket_eq h, ok_bind, Declaration.operator?]
  cases hsymbol : operatorSymbol? rest with
  | none => rfl
  | some found =>
    obtain ⟨symbol, opener, later⟩ := found
    obtain ⟨mid, hrest, rfl, hopener⟩ := Declaration.operatorSymbol_append hsymbol
    have hparen := h.succ.suffix ⟨mid, hrest.symm⟩
    rw [Option.map_some]
    dsimp only
    rw [h.itemAt, ok_bind, textBetween, h.succ.extract hrest, emitFunction_eq hx hparen hopener]
    rfl

/-- Records a function without a return type that stands at a position: an operator, a constructor or a destructor. -/
def emitSpecial (x : Extraction) (header : List Token) (p : Nat) (specifiers : Specifiers) (hasBody : Bool) :
    Except Fault (Option (Bool × Extraction)) := do
  if (← itemAt header p).isKeyword .operatorKw then emitOperator x header p [] specifiers hasBody
  else
    match ← nameAt header p with
    | none => return none
    | some name =>
      if ← holdsAt header name.stop (·.isPunct .lparen) then
        let base ← lastItem name.segments
        let emit (qualifier : List Text) : Except Fault (Option (Bool × Extraction)) := do
          return some (true, ← emitFunction x header name.stop name.last base qualifier [] specifiers true hasBody)
        let scope ← currentScope x
        if base.head? == some (.scalar '~') then emit name.segments.dropLast
        else if ← repeatsLast name.segments base then emit name.segments.dropLast
        else if name.segments.length == 1 && scope.kind == .class_ && scope.name == some base then emit []
        else return none
      else return none
where
  /-- Whether the last but one of several segments is the last one again. -/
  repeatsLast (segments : List Text) (base : Text) : Except Fault Bool :=
    if 2 ≤ segments.length then do return (← itemAt segments (segments.length - 2)) == base else return false

/-- The segments of a name are those of its qualifier and the last one. -/
theorem segments_eq {n : QualifiedName} (h : qualifiedName? ts = some n) : n.segments = n.qualifier ++ [n.base] := by
  unfold qualifiedName? at h
  split at h
  · exact absurd h (by simp)
  · next segments later _ =>
    obtain ⟨⟨base, last⟩, hlast, rfl⟩ := Option.map_eq_some_iff.mp h
    obtain ⟨front, rfl⟩ := List.getLast?_eq_some_iff.mp hlast
    simp [QualifiedName.qualifier, QualifiedName.base]

theorem repeatsLast_eq (qualifier : List Text) (base : Text) :
    emitSpecial.repeatsLast (qualifier ++ [base]) base = .ok (qualifier.getLast? == some base) := by
  unfold emitSpecial.repeatsLast
  cases hlast : qualifier.getLast? with
  | none => rw [List.getLast?_eq_none_iff.mp hlast]; rfl
  | some last =>
    obtain ⟨front, rfl⟩ := List.getLast?_eq_some_iff.mp hlast
    have hitem : itemAt (front ++ [last] ++ [base]) ((front ++ [last] ++ [base]).length - 2) = .ok last := by
      simp [itemAt]
    rw [if_pos (by simp), hitem]
    rfl

theorem emitSpecial_eq (hx : Sound x) {t : Token} (h : At ts i (t :: rest)) (specifiers : Specifiers)
    (hasBody : Bool) :
    emitSpecial x ts i specifiers hasBody =
      .ok ((Declaration.special? x.current specifiers (t :: rest)).map (emitted x hasBody)) := by
  rw [emitSpecial, h.itemAt, ok_bind, Declaration.special?]
  split
  · exact emitOperator_eq hx h [] specifiers hasBody
  rw [nameAt_eq h, ok_bind]
  cases hname : qualifiedName? (t :: rest) with
  | none => rfl
  | some name =>
    have hstop := h.suffix (suffix_qualifiedName hname)
    have hsegments := segments_eq hname
    dsimp only [Option.map_some, NameAt.ofName]
    rw [holdsAt_eq hstop, ok_bind]
    cases hrest : name.rest with
    | nil => rfl
    | cons opener afterOpener =>
      rw [hrest] at hstop
      rw [List.head?_cons, Option.any_some]
      dsimp only
      by_cases hopener : opener.isPunct .lparen = true
      · -- what is left are the conditions under which this function is emitted
        have hemit := fun qualifier =>
          emitFunction_eq hx hstop hopener name.last name.base qualifier [] specifiers true hasBody
        have hlast : lastItem name.segments = .ok name.base := lastItem_eq (by simp [hsegments])
        have hrepeats : emitSpecial.repeatsLast name.segments name.base =
            .ok (name.qualifier.getLast? == some name.base) := by
          rw [hsegments]
          exact repeatsLast_eq name.qualifier name.base
        have hsole : (name.segments.length == 1) = name.qualifier.isEmpty := by
          rw [hsegments]
          cases name.qualifier <;> simp
        have hkeep : ¬ (!opener.isPunct .lparen) = true := by simp [hopener]
        rw [if_pos hopener, hlast, ok_bind, currentScope_eq hx, ok_bind, if_neg hkeep]
        simp only [hemit, hrepeats, ok_bind, hsole]
        by_cases htilde : (name.base.head? == some (.scalar '~')) = true
        · rw [if_pos htilde, if_pos htilde]
          rfl
        rw [if_neg htilde, if_neg htilde]
        by_cases hrepeated : (name.qualifier.getLast? == some name.base) = true
        · rw [if_pos hrepeated, if_pos hrepeated]
          rfl
        rw [if_neg hrepeated, if_neg hrepeated]
        split
        · rfl
        · rfl
      · rw [if_neg hopener, if_pos (by simp [hopener])]
        rfl

/-- The token can begin no parameter. -/
def beginsArgument (t : Token) : Bool :=
  match t.kind with
  | .literal => true
  | .keyword k => k.beginsExpression
  | .punct p => !(p == .scope || p == .lbracket || p == .ellipsis)
  | _ => false

/-- Whether a part of a list in round brackets cannot be a parameter. -/
def isArgument (part : List Token) : Except Fault Bool :=
  if part.isEmpty then return false
  else do
    if beginsArgument (← itemAt part 0) then return true
    else
      let (_, p) ← pastSpecifiers part 0
      return (← pastType part p).isNone

/-- Whether some part of a list in round brackets cannot be a parameter. -/
def anyArgument : List (List Token) → Except Fault Bool
  | [] => return false
  | part :: parts => do if ← isArgument part then return true else anyArgument parts

/-- Whether the brackets at a position hold the arguments of an initializer and not a parameter list. -/
def isDirectInitializer (x : Extraction) (inFunction : Bool) (header : List Token) (paren : Nat) :
    Except Fault Bool := do
  if (← currentScope x).kind == .class_ then return false
  else if inFunction then return true
  else
    match ← partner header paren with
    | none => return false
    | some close =>
      let inside := header.extract (paren + 1) close
      if inside.isEmpty then return false else anyArgument (allCommaParts inside)

theorem isArgument_eq (part : List Token) : isArgument part = .ok (Declaration.isArgument part) := by
  unfold isArgument Declaration.isArgument
  cases part with
  | nil => rfl
  | cons t rest =>
    have hbehind := (at_zero (t :: rest)).suffix (suffix_specifiers (t :: rest))
    rw [if_neg (by simp), (at_zero (t :: rest)).itemAt, ok_bind, pastSpecifiers_eq (at_zero _), ok_bind]
    dsimp only
    rw [pastType_eq hbehind, ok_bind, Option.isNone_map]
    show _ = Except.ok (beginsArgument t || (afterType? (specifiers (t :: rest)).2).isNone)
    cases beginsArgument t <;> rfl

theorem anyArgument_eq (parts : List (List Token)) : anyArgument parts = .ok (parts.any Declaration.isArgument) := by
  induction parts with
  | nil => rfl
  | cons part parts ih =>
    rw [anyArgument, isArgument_eq, ok_bind, List.any_cons, ih]
    cases Declaration.isArgument part <;> rfl

theorem isDirectInitializer_eq (hx : Sound x) (inFunction : Bool) {opener : Token} {afterOpener : List Token}
    (h : At ts i (opener :: afterOpener)) (hopener : opener.isPunct .lparen = true) :
    isDirectInitializer x inFunction ts i =
      .ok (Declaration.isDirectInitializer x.current inFunction afterOpener) := by
  rw [isDirectInitializer, currentScope_eq hx, ok_bind, Declaration.isDirectInitializer]
  split
  · rfl
  split
  · rfl
  rw [partner_lparen h hopener, ok_bind]
  cases he : parenthesised? afterOpener with
  | none => rfl
  | some e =>
    dsimp only [Option.map_some]
    rw [h.succ.extract (enclosed?_append he), anyArgument_eq]
    cases e.inside.isEmpty <;> rfl

/-- Whether a declarator in round brackets starts at a position. -/
def startsNested (header : List Token) (p : Nat) : Except Fault Bool := do
  let t ← itemAt header p
  if ← andHoldsAt (t.isPunct .lparen) header (p + 1) (·.isOneOf [.star, .amp, .scope]) then return true
  else if t.isPunct .lparen && decide (p + 2 < header.length) then
    return (← itemAt header (p + 1)).isIdentifier && (← itemAt header (p + 2)).isPunct .scope
  else return false

theorem startsNested_eq {t : Token} (h : At ts i (t :: rest)) :
    startsNested ts i = .ok (Declaration.startsNested (t :: rest)) := by
  rw [startsNested, h.itemAt, ok_bind, andHoldsAt_eq h.succ, ok_bind]
  have hlength := h.length_eq
  match rest, h with
  | [], h =>
    rw [if_neg (by simp), if_neg (by simp at hlength; simp; omega)]
    rfl
  | u :: more, h =>
    rw [Declaration.startsNested, List.head?_cons, Option.any_some, h.succ.itemAt, ok_bind]
    cases hparen : t.isPunct .lparen with
    | false => rfl
    | true =>
      rw [Bool.true_and, Bool.true_and, Bool.true_and]
      cases hop : u.isOneOf [.star, .amp, .scope] with
      | true => rfl
      | false =>
        rw [if_neg Bool.false_ne_true, Bool.false_or]
        cases more with
        | nil => rw [if_neg (by simp at hlength; simp; omega)]; cases u.isIdentifier <;> rfl
        | cons v more =>
          rw [if_pos (by simp at hlength; simp; omega), h.succ.succ.itemAt]
          rfl

/-- Records the variables that are declared from a position on, if any. -/
def emitDeclared (x : Extraction) (header : List Token) (p : Nat) (type : List Token) (specifiers : Specifiers) :
    Except Fault (Option (Bool × Extraction)) := do
  let ds ← declarators header p
  if ds.isEmpty then return none else return some (false, ← emitVariables x specifiers type [] ds)

/-- Whether a parameter list is opened at a position, and not the arguments of an initializer. -/
def opensParameters (x : Extraction) (inFunction : Bool) (header : List Token) (paren : Nat) : Except Fault Bool := do
  if ← holdsAt header paren (·.isPunct .lparen) then return !(← isDirectInitializer x inFunction header paren)
  else return false

/-- Records what stands at a position behind the type of a declaration. -/
def emitTyped (x : Extraction) (inFunction : Bool) (header : List Token) (p : Nat) (type : List Token)
    (specifiers : Specifiers) (hasBody : Bool) : Except Fault (Option (Bool × Extraction)) :=
  if p < header.length then do
    let t ← itemAt header p
    if t.isKeyword .operatorKw then emitOperator x header p type specifiers hasBody
    else if ← andHoldsAt (t.isPunct .scope) header (p + 1) (·.isKeyword .operatorKw) then
      emitOperator x header (p + 1) type specifiers hasBody
    else if ← startsNested header p then emitDeclared x header p type specifiers
    else if !t.isIdentifier then return none
    else
      match ← nameAt header p with
      | none => return none
      | some name =>
        if ← opensParameters x inFunction header name.stop then
          return some (true, ← emitFunction x header name.stop name.last name.last.text name.segments.dropLast type
            specifiers false hasBody)
        else emitDeclared x header p type specifiers
  else return none

/-- Records what a head declares; none if it declares nothing. -/
def classify (x : Extraction) (inFunction : Bool) (header : List Token) (hasBody : Bool) :
    Except Fault (Option (Bool × Extraction)) := do
  let (specifiers, p) ← pastSpecifiers header 0
  if p < header.length then
    match ← emitSpecial x header p specifiers hasBody with
    | some r => return some r
    | none =>
      match ← pastType header p with
      | none => return none
      | some q => emitTyped x inFunction header q (header.extract p q) specifiers hasBody
  else return none

theorem emitDeclared_eq (hx : Sound x) (h : At ts i rest) (type : List Token) (specifiers : Specifiers)
    (hasBody : Bool) :
    emitDeclared x ts i type specifiers =
      .ok ((Declaration.variables? specifiers type rest).map (emitted x hasBody)) := by
  rw [emitDeclared, declarators_eq h, ok_bind, Declaration.variables?]
  split
  · rfl
  · rw [emitVariables_eq hx]
    rfl

theorem emitTyped_eq (hx : Sound x) (inFunction : Bool) (h : At ts i rest) (type : List Token)
    (specifiers : Specifiers) (hasBody : Bool) :
    emitTyped x inFunction ts i type specifiers hasBody =
      .ok ((Declaration.typed? x.current inFunction specifiers type rest).map (emitted x hasBody)) := by
  unfold emitTyped Declaration.typed?
  cases rest with
  | nil => rw [if_neg h.not_lt]; rfl
  | cons t rest =>
    rw [if_pos h.lt, h.itemAt, ok_bind, andHoldsAt_eq h.succ]
    dsimp only
    by_cases hword : t.isKeyword .operatorKw = true
    · rw [if_pos hword, if_pos hword]
      exact emitOperator_eq hx h type specifiers hasBody
    rw [if_neg hword, if_neg hword, ok_bind]
    by_cases hscope : (t.isPunct .scope && rest.head?.any (·.isKeyword .operatorKw)) = true
    · rw [if_pos hscope, if_pos hscope]
      cases rest with
      | nil => simp at hscope
      | cons word after => exact emitOperator_eq hx h.succ type specifiers hasBody
    rw [if_neg hscope, if_neg hscope, startsNested_eq h, ok_bind]
    by_cases hnested : Declaration.startsNested (t :: rest) = true
    · rw [if_pos hnested, if_pos hnested]
      exact emitDeclared_eq hx h type specifiers hasBody
    rw [if_neg hnested, if_neg hnested]
    by_cases hname : (!t.isIdentifier) = true
    · rw [if_pos hname, if_pos hname]
      rfl
    rw [if_neg hname, if_neg hname, nameAt_eq h, ok_bind]
    cases hread : qualifiedName? (t :: rest) with
    | none => rfl
    | some name =>
      -- behind a name, only a bracket of parameters makes a function of it
      have hstop := h.suffix (suffix_qualifiedName hread)
      have hdeclared := emitDeclared_eq hx h type specifiers hasBody
      dsimp only [Option.map_some, NameAt.ofName]
      rw [opensParameters, holdsAt_eq hstop, ok_bind]
      cases hrest : name.rest with
      | nil => exact hdeclared
      | cons opener afterOpener =>
        rw [hrest] at hstop
        rw [List.head?_cons, Option.any_some]
        dsimp only
        by_cases hopener : opener.isPunct .lparen = true
        · rw [if_pos hopener, isDirectInitializer_eq hx inFunction hstop hopener, hopener, Bool.true_and]
          simp only [ok_bind, pure_eq_ok]
          split
          · rw [emitFunction_eq hx hstop hopener]
            rfl
          · exact hdeclared
        · rw [if_neg hopener, if_neg (by simp [hopener])]
          exact hdeclared

theorem classify_eq (hx : Sound x) (inFunction : Bool) (header : List Token) (hasBody : Bool) :
    classify x inFunction header hasBody =
      .ok ((Declaration.read? x.current inFunction header).map (emitted x hasBody)) := by
  have hstart := at_zero header
  have hbehind := hstart.suffix (suffix_specifiers header)
  rw [classify, pastSpecifiers_eq hstart, ok_bind]
  unfold Declaration.read?
  dsimp only
  cases hts : (specifiers header).2 with
  | nil =>
    rw [hts] at hbehind
    rw [if_neg hbehind.not_lt, Declaration.special?, afterType?, afterTypeWords?]
    rfl
  | cons t rest =>
    rw [hts] at hbehind
    rw [if_pos hbehind.lt, emitSpecial_eq hx hbehind, ok_bind]
    cases Declaration.special? x.current (specifiers header).1 (t :: rest) with
    | some d => rfl
    | none =>
      dsimp only [Option.map_none]
      rw [pastType_eq hbehind, ok_bind]
      cases htype : afterType? (t :: rest) with
      | none => rfl
      | some later =>
        have hlater := suffix_afterType htype
        dsimp only [Option.map_some]
        rw [hbehind.tokensBefore hlater]
        exact emitTyped_eq hx inFunction (hbehind.suffix hlater) _ _ hasBody

end ByPosition

end HouseStyle
