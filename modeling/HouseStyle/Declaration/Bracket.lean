import HouseStyle.Token.Basic

/-!
# Brackets in token lists

How far a bracketed run of tokens reaches, and how a run falls apart at its top-level separators.
Every function here reads a list of tokens from the front and hands back what it left, so that the
tokens taken and the tokens left are together the tokens given (`enclosed?_append`).
-/

namespace HouseStyle

/-- A run of tokens between two brackets: the tokens inside, the closing bracket and the tokens
after it. -/
structure Enclosed where
  inside : List Token
  closer : Token
  after : List Token
  deriving DecidableEq, Repr

namespace Enclosed

/-- The same run with more tokens in front. -/
def cons (t : Token) (e : Enclosed) : Enclosed := { e with inside := t :: e.inside }

end Enclosed

/-- The tokens up to the partner of a bracket that is already open, together with `depth` brackets
that opened after it. The brackets are only counted: whatever bracket closes the last one must be
`closer`. -/
def enclosed? (closer : Punct) (depth : Nat) : List Token → Option Enclosed
  | [] => none
  | t :: ts =>
    match t.kind with
    | .punct p =>
      if p.opens then (enclosed? closer (depth + 1) ts).map (.cons t)
      else if p.closes then
        match depth with
        | 0 => if p = closer then some ⟨[], t, ts⟩ else none
        | depth + 1 => (enclosed? closer depth ts).map (.cons t)
      else (enclosed? closer depth ts).map (.cons t)
    | _ => (enclosed? closer depth ts).map (.cons t)

/-- The run that a round bracket opens, given the tokens after that bracket. -/
abbrev parenthesised? (ts : List Token) : Option Enclosed := enclosed? .rparen 0 ts

/-- The run that a square bracket opens, given the tokens after that bracket. -/
abbrev bracketed? (ts : List Token) : Option Enclosed := enclosed? .rbracket 0 ts

/-- The run that a brace opens, given the tokens after that brace. -/
abbrev braced? (ts : List Token) : Option Enclosed := enclosed? .rbrace 0 ts

/-- The tokens inside, the closing bracket and the tokens after it are the tokens given. -/
theorem enclosed?_append {closer : Punct} {depth : Nat} {ts : List Token} {e : Enclosed}
    (h : enclosed? closer depth ts = some e) : ts = e.inside ++ e.closer :: e.after := by
  induction ts generalizing depth e with
  | nil => simp [enclosed?] at h
  | cons t ts ih =>
    have step : ∀ {d}, (enclosed? closer d ts).map (.cons t) = some e →
        t :: ts = e.inside ++ e.closer :: e.after := by
      intro d hd
      obtain ⟨e', he', rfl⟩ := Option.map_eq_some_iff.1 hd
      simpa [Enclosed.cons] using ih he'
    unfold enclosed? at h
    split at h
    · split at h
      · exact step h
      · split at h
        · split at h
          · split at h
            · simp only [Option.some.injEq] at h
              subst h
              rfl
            · simp at h
          · exact step h
        · exact step h
    · exact step h

/-- A closed run leaves fewer tokens than it was given. -/
theorem length_after_lt {closer : Punct} {depth : Nat} {ts : List Token} {e : Enclosed}
    (h : enclosed? closer depth ts = some e) : e.after.length < ts.length := by
  rw [enclosed?_append h]
  simp
  omega

/-- The closing bracket of a run that is not nested is the one asked for. -/
theorem closer_isPunct {closer : Punct} {ts : List Token} {e : Enclosed} :
    ∀ {depth : Nat}, enclosed? closer depth ts = some e → e.closer.isPunct closer = true := by
  induction ts generalizing e with
  | nil => intro depth h; simp [enclosed?] at h
  | cons t ts ih =>
    intro depth h
    have step : ∀ {d}, (enclosed? closer d ts).map (.cons t) = some e →
        e.closer.isPunct closer = true := by
      intro d hd
      obtain ⟨e', he', rfl⟩ := Option.map_eq_some_iff.1 hd
      exact ih (e := e') he'
    unfold enclosed? at h
    split at h
    · rename_i p hp
      split at h
      · exact step h
      · split at h
        · split at h
          · split at h
            · rename_i hc
              simp only [Option.some.injEq] at h
              subst h
              simp [Token.isPunct, hp, hc]
            · simp at h
          · exact step h
        · exact step h
    · exact step h

/-- The tokens that a template argument list ends with: those inside, and those after the `>` that
closes it. -/
structure Angled where
  inside : List Token
  after : List Token
  deriving DecidableEq, Repr

/-- The same list with more tokens in front. -/
def Angled.prepend (ts : List Token) (a : Angled) : Angled := { a with inside := ts ++ a.inside }

/-- A template argument list whose `<`, and `depth` more of them, have been read. Round and square
brackets are passed over whole. Tokens that no argument list holds at its top level refuse it: it
was a comparison. -/
def angled? (depth : Nat) (ts : List Token) : Option Angled :=
  match ts with
  | [] => none
  | t :: rest =>
    match t.kind with
    | .punct .less => (angled? (depth + 1) rest).map (.prepend [t])
    | .punct .greater =>
      match depth with
      | 0 => some ⟨[], rest⟩
      | depth + 1 => (angled? depth rest).map (.prepend [t])
    | .punct .lparen =>
      match _h : parenthesised? rest with
      | none => none
      | some e => (angled? depth e.after).map (.prepend (t :: e.inside ++ [e.closer]))
    | .punct .lbracket =>
      match _h : bracketed? rest with
      | none => none
      | some e => (angled? depth e.after).map (.prepend (t :: e.inside ++ [e.closer]))
    | .punct p =>
      if [.semicolon, .lbrace, .rbrace, .rparen, .rbracket, .ampAmp, .barBar].contains p then none
      else (angled? depth rest).map (.prepend [t])
    | _ => (angled? depth rest).map (.prepend [t])
termination_by ts.length
decreasing_by
  all_goals simp
  all_goals have := length_after_lt (by assumption); omega

/-- Brackets in a template argument list are passed over whole. -/
theorem angled_bracket (depth : Nat) {t : Token} {closer : Punct} (ts : List Token)
    (h : t.kind = .punct .lparen ∧ closer = .rparen ∨ t.kind = .punct .lbracket ∧ closer = .rbracket) :
    angled? depth (t :: ts) = (enclosed? closer 0 ts).bind fun e =>
      (angled? depth e.after).map (.prepend (t :: e.inside ++ [e.closer])) := by
  obtain ⟨hk, rfl⟩ | ⟨hk, rfl⟩ := h
  all_goals
    rw [angled?.eq_def]
    simp only [hk]
    split
    next h => rw [show enclosed? _ 0 ts = none from h]; rfl
    next h => rw [show enclosed? _ 0 ts = some _ from h]; rfl

/-- Tokens put in front of a template argument list change nothing about what follows it. -/
theorem after_of_map_prepend {front : List Token} {o : Option Angled} {a : Angled}
    (h : o.map (.prepend front) = some a) : ∃ b, o = some b ∧ b.after = a.after := by
  obtain ⟨b, hb, rfl⟩ := Option.map_eq_some_iff.1 h
  exact ⟨b, hb, rfl⟩

/-- A template argument list leaves fewer tokens than it was given. -/
theorem length_angled_lt {depth : Nat} {ts : List Token} {a : Angled}
    (h : angled? depth ts = some a) : a.after.length < ts.length := by
  fun_induction angled? depth ts generalizing a with
  | case1 => simp at h
  | case2 _ _ _ _ ih | case4 _ _ _ _ ih | case10 _ _ _ _ _ _ _ _ _ _ ih | case11 _ _ _ _ _ _ _ _ ih =>
    obtain ⟨b, hb, hafter⟩ := after_of_map_prepend h
    have := ih hb
    rw [← hafter]
    simp
    omega
  | case3 =>
    simp only [Option.some.injEq] at h
    subst h
    simp
  | case5 => simp at h
  | case6 _ _ _ _ _ he ih | case8 _ _ _ _ _ he ih =>
    obtain ⟨b, hb, hafter⟩ := after_of_map_prepend h
    have := ih hb
    have := length_after_lt he
    rw [← hafter]
    simp
    omega
  | case7 => simp at h
  | case9 => simp at h

/-- Splits a list of tokens at every `separator` outside all brackets. With `angles`, template
argument lists count as brackets. `depth` and `angle` say how many brackets are open. The result
is the first part and the parts after it. -/
def partsFrom (separator : Punct) (angles : Bool) (depth angle : Nat) :
    List Token → List Token × List (List Token)
  | [] => ([], [])
  | t :: ts =>
    let keep (depth angle : Nat) :=
      let (first, others) := partsFrom separator angles depth angle ts
      (t :: first, others)
    match t.kind with
    | .punct p =>
      if p.opens then keep (depth + 1) angle
      else if p.closes then keep (depth - 1) angle
      else if angles && p == .less && depth == 0 then keep depth (angle + 1)
      else if angles && p == .greater && depth == 0 then keep depth (angle - 1)
      else if p == separator && depth == 0 && angle == 0 then
        let (first, others) := partsFrom separator angles depth angle ts
        ([], first :: others)
      else keep depth angle
    | _ => keep depth angle

/-- The parts of a list of tokens between commas that stand outside all brackets and template
argument lists. There is always a first part, which may be empty. -/
def commaParts (ts : List Token) : List Token × List (List Token) := partsFrom .comma true 0 0 ts

/-- All parts between top-level commas. -/
def allCommaParts (ts : List Token) : List (List Token) :=
  let (first, others) := commaParts ts
  first :: others

end HouseStyle
