import HouseStyle.Declaration.Bracket

/-!
# Declaration specifiers

The words in front of a declaration that are not part of its type (`static`, `constexpr`,
`virtual`, …), and the attributes among them.
-/

namespace HouseStyle

/-- Where a declared name lives. -/
inductive Storage where
  | static
  | external
  | threadLocal
  deriving DecidableEq, Repr

namespace Keyword

/-- The keywords that specify a declaration without naming its type. -/
def isSpecifier : Keyword → Bool
  | .staticKw | .inlineKw | .constexprKw | .constevalKw | .constinitKw | .externKw | .virtualKw
  | .explicitKw | .mutableKw | .threadLocalKw | .registerKw => true
  | _ => false

end Keyword

/-- The specifiers of a declaration that matter later on. -/
structure Specifiers where
  isStatic : Bool := false
  isConstexpr : Bool := false
  isExternal : Bool := false
  isThreadLocal : Bool := false
  deriving DecidableEq, Repr

namespace Specifiers

/-- The specifiers with one more keyword among them. -/
def note (s : Specifiers) : Keyword → Specifiers
  | .staticKw => { s with isStatic := true }
  | .constexprKw | .constevalKw | .constinitKw => { s with isConstexpr := true }
  | .externKw => { s with isExternal := true }
  | .threadLocalKw => { s with isThreadLocal := true }
  | _ => s

/-- The storage they give: `static` goes before `extern`, and that before `thread_local`. -/
def storage (s : Specifiers) : Option Storage :=
  if s.isStatic then some .static
  else if s.isExternal then some .external
  else if s.isThreadLocal then some .threadLocal
  else none

end Specifiers

/-- The identifiers that take an attribute list in round brackets. -/
def attributeWords : List String := ["__attribute__", "__declspec"]

/-- What follows the attribute at the front: a list in double square brackets, or `alignas`,
`__attribute__` or `__declspec` with its argument. -/
def afterAttribute? : List Token → Option (List Token)
  | t :: u :: rest =>
    if t.isPunct .lbracket && u.isPunct .lbracket then
      (bracketed? (u :: rest)).map (·.after)
    else if (t.isKeyword .alignasKw || attributeWords.any t.isWord) && u.isPunct .lparen then
      (parenthesised? rest).map (·.after)
    else none
  | _ => none

theorem length_afterAttribute_lt {ts after : List Token} (h : afterAttribute? ts = some after) :
    after.length < ts.length := by
  unfold afterAttribute? at h
  split at h
  · split at h
    · obtain ⟨e, he, rfl⟩ := Option.map_eq_some_iff.1 h
      have := length_after_lt he
      simp only [List.length_cons] at this ⊢
      omega
    · split at h
      · obtain ⟨e, he, rfl⟩ := Option.map_eq_some_iff.1 h
        have := length_after_lt he
        simp only [List.length_cons]
        omega
      · simp at h
  · simp at h

/-- The specifier that a token is. -/
def Token.specifier? (t : Token) : Option Keyword :=
  match t.kind with
  | .keyword k => if k.isSpecifier then some k else none
  | _ => none

/-- Adds the specifiers at the front of a list of tokens to `s` and passes over the attributes
among them. -/
def specifiersFrom (s : Specifiers) (ts : List Token) : Specifiers × List Token :=
  match ts with
  | [] => (s, [])
  | t :: rest =>
    match t.specifier? with
    | some k => specifiersFrom (s.note k) rest
    | none =>
      match _h : afterAttribute? (t :: rest) with
      | some after => specifiersFrom s after
      | none => (s, t :: rest)
termination_by ts.length
decreasing_by
  · simp
  · exact length_afterAttribute_lt (by assumption)

/-- The specifiers at the front of a list of tokens, and the tokens after them. -/
def specifiers (ts : List Token) : Specifiers × List Token := specifiersFrom {} ts

/-- The tokens after the specifiers at the front. -/
def afterSpecifiers (ts : List Token) : List Token := (specifiers ts).2

end HouseStyle
