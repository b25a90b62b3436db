import HouseStyle.Declaration.TypeName

/-!
# Declarators and parameters

What a list of tokens declares once its type has been read: the variables of a declaration, the
parameters of a function, the parameters of a template.
-/

namespace HouseStyle

/-- How sure it is that a name has been read for what it is. A name dug out of nested brackets
is uncertain. -/
inductive Confidence where
  | high
  | low
  deriving DecidableEq, Repr

/-- One variable of a declaration. -/
structure Declarator where
  /-- The pointers, references and qualifiers in front of the name. -/
  operators : List Token
  name : Token
  /-- The segments of the name before the last. -/
  qualifier : List Text
  confidence : Confidence
  isArray : Bool
  /-- The tokens of the initializer, without a leading `=` or `:`. -/
  initializer : List Token
  deriving DecidableEq, Repr

namespace Declarator

/-- The name that a declarator is built around, and the tokens after it. A name in round brackets
is the last one inside them; the parameter list of a function pointer is passed over. -/
def name? (ts : List Token) : Option (Token × List Text × Confidence × List Token) :=
  match ts with
  | [] => none
  | t :: rest =>
    if t.isPunct .lparen then
      match parenthesised? rest with
      | none => none
      | some e =>
        match (e.inside.filter (·.isIdentifier)).getLast? with
        | none => none
        | some name =>
          match e.after with
          | u :: more =>
            if u.isPunct .lparen then
              some (name, [], .low, ((parenthesised? more).map (·.after)).getD [])
            else some (name, [], .low, u :: more)
          | [] => some (name, [], .low, [])
    else if t.isIdentifier then
      (qualifiedName? (t :: rest)).map fun n => (n.last, n.qualifier, .high, n.rest)
    else none

theorem length_name_lt {ts rest : List Token} {t : Token} {q : List Text} {c : Confidence}
    (h : name? ts = some (t, q, c, rest)) : rest.length < ts.length := by
  unfold name? at h
  split at h
  · simp at h
  · split at h
    · split at h
      · simp at h
      · rename_i e he
        have he := length_after_lt he
        split at h
        · simp at h
        · split at h
          · rename_i u more hafter
            rw [hafter] at he
            split at h
            · simp only [Option.some.injEq, Prod.mk.injEq] at h
              obtain ⟨-, -, -, rfl⟩ := h
              cases hp : parenthesised? more with
              | none => simp
              | some e' =>
                have := length_after_lt hp
                simp only [List.length_cons, Option.map_some, Option.getD_some] at he ⊢
                omega
            · simp only [Option.some.injEq, Prod.mk.injEq] at h
              obtain ⟨-, -, -, rfl⟩ := h
              simp only [List.length_cons] at he ⊢
              omega
          · simp only [Option.some.injEq, Prod.mk.injEq] at h
            obtain ⟨-, -, -, rfl⟩ := h
            simp
    · split at h
      · obtain ⟨n, hn, heq⟩ := Option.map_eq_some_iff.1 h
        simp only [Prod.mk.injEq] at heq
        obtain ⟨-, -, -, rfl⟩ := heq
        exact length_qualifiedName_lt hn
      · simp at h

/-- The tokens after the array bounds at the front; bounds that are never closed take all. -/
def afterBounds (ts : List Token) : List Token :=
  match ts with
  | [] => []
  | t :: rest =>
    if t.isPunct .lbracket then
      match _h : bracketed? rest with
      | none => []
      | some e => afterBounds e.after
    else t :: rest
termination_by ts.length
decreasing_by
  have := length_after_lt _h
  simp
  omega

theorem length_afterBounds_le (ts : List Token) : (afterBounds ts).length ≤ ts.length := by
  fun_induction afterBounds ts with
  | case1 => simp
  | case2 => simp
  | case3 _ _ _ _ h ih =>
    have := length_after_lt h
    simp only [List.length_cons]
    omega
  | case4 => simp

/-- The tokens up to the next comma outside brackets, and the tokens from that comma on. -/
def upToComma (depth : Nat) : List Token → List Token × List Token
  | [] => ([], [])
  | t :: ts =>
    let depth' :=
      if t.isOneOf [.lparen, .lbracket, .lbrace] then depth + 1
      else if t.isOneOf [.rparen, .rbracket, .rbrace] then depth - 1
      else depth
    if t.isPunct .comma && depth == 0 then ([], t :: ts)
    else
      let (taken, rest) := upToComma depth' ts
      (t :: taken, rest)

theorem length_upToComma_le (depth : Nat) (ts : List Token) :
    (upToComma depth ts).2.length ≤ ts.length := by
  induction ts generalizing depth with
  | nil => simp [upToComma]
  | cons t ts ih =>
    simp only [upToComma]
    split
    · simp
    · simp only [List.length_cons]
      exact Nat.le_succ_of_le (ih _)

/-- The initializer without the sign in front of it. -/
def withoutSign : List Token → List Token
  | [] => []
  | t :: ts => if t.isOneOf [.eq, .colon] then ts else t :: ts

/-- The variables that a list of tokens declares, given the tokens after the words of their type.
Reading stops at the first one after whose name something stands that is no initializer. -/
def readAll (ts : List Token) : List Declarator :=
  let isOperator := fun (t : Token) => t.isPointerOrReference || t.isCv
  match _h : name? (ts.dropWhile isOperator) with
  | none => []
  | some (name, qualifier, confidence, afterName) =>
    let initializer := (upToComma 0 (afterBounds afterName)).1
    if initializer.head?.any (!·.isAnyPunct) then []
    else
      { operators := ts.takeWhile isOperator, name, qualifier, confidence
        isArray := afterName.head?.any (·.isPunct .lbracket)
        initializer := withoutSign initializer } ::
        match _hr : (upToComma 0 (afterBounds afterName)).2 with
        | [] => []
        | _ :: others => readAll others
termination_by ts.length
decreasing_by
  have hn := length_name_lt _h
  have hb := length_afterBounds_le afterName
  have hc := length_upToComma_le 0 (afterBounds afterName)
  have hd := (List.dropWhile_sublist isOperator (l := ts)).length_le
  rw [_hr, List.length_cons] at hc
  omega

end Declarator

/-- A parameter of a function. -/
structure Parameter where
  typeText : Text
  /-- The token of its name. -/
  name : Option Token
  isConst : Bool
  confidence : Confidence
  deriving DecidableEq, Repr

namespace Parameter

/-- The parameter that a part of a parameter list declares; none for an empty part and for `...`.
A default value is left aside. -/
def ofPart? (part : List Token) : Option Parameter :=
  let decl := part.takeWhile (!·.isPunct .eq)
  if decl.isEmpty then none
  else if decl.length == 1 && decl.all (·.isPunct .ellipsis) then none
  else
    let typed := afterSpecifiers decl
    match afterType? typed with
    | none => some ⟨joinedText decl, none, false, .high⟩
    | some rest =>
      let type := tokensBefore typed rest
      match rest with
      | [] => some ⟨joinedText type, none, isConstObject type, .high⟩
      | t :: more =>
        if t.isIdentifier then
          let bounds :=
            match more, more.getLast? with
            | b :: _, some last =>
              if b.isPunct .lbracket then [b, if last.isPunct .rbracket then last else b] else []
            | _, _ => []
          let type := type ++ bounds
          some ⟨joinedText (type.filter (· != t)), some t, isConstObject type, .high⟩
        else if t.isPunct .lparen then
          match rest.find? (·.isIdentifier) with
          | none => some ⟨joinedText typed, none, isConstObject typed, .low⟩
          | some name =>
            some ⟨joinedText (typed.filter (· != name)), some name, isConstObject typed, .low⟩
        else some ⟨joinedText type, none, isConstObject type, .high⟩

/-- The parameters of a list in round brackets, given the tokens inside them. -/
def readAll (inside : List Token) : List Parameter :=
  if inside.length == 1 && inside.all (·.isKeyword .voidKw) then []
  else (allCommaParts inside).filterMap ofPart?

end Parameter

/-- The name that a part of a template parameter list declares. -/
def templateParameter? (part : List Token) : Option Token :=
  let head := part.takeWhile (!·.isPunct .eq)
  match head.head?, head.getLast? with
  | some first, some last =>
    if last.isIdentifier && (first.isKeyword .templateKw || 1 < head.length) then some last else none
  | _, _ => none

end HouseStyle
