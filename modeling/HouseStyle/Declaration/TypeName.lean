import HouseStyle.Declaration.Specifier

/-!
# Names and types

Where a qualified name or a type at the front of a list of tokens ends, and what a type says about
the object declared with it. `typeText` is the normalised text of a type: the tokens of it with a
blank only where two of them would not otherwise read as separate words, so that two types are
written alike when their tokens are.
-/

namespace HouseStyle

/-! ## Names -/

/-- A name with its qualification. -/
structure QualifiedName where
  /-- The segments between the `::`, without their template arguments. -/
  segments : List Text
  /-- The token of the last segment. -/
  last : Token
  /-- The tokens after the name. -/
  rest : List Token
  deriving DecidableEq, Repr

namespace QualifiedName

/-- The last segment, with the tilde of a destructor. -/
def base (n : QualifiedName) : Text := n.segments.getLast?.getD []

/-- The segments before the last one. -/
def qualifier (n : QualifiedName) : List Text := n.segments.dropLast

end QualifiedName

/-- The tokens after the template argument list at the front, if there is one; none if what follows
`<` is no such list. -/
def afterArguments? : List Token → Option (List Token)
  | [] => some []
  | t :: rest => if t.isPunct .less then (angled? 0 rest).map (·.after) else some (t :: rest)

theorem length_afterArguments_le {ts after : List Token} (h : afterArguments? ts = some after) :
    after.length ≤ ts.length := by
  unfold afterArguments? at h
  split at h
  · simp at h
    simp [h]
  · split at h
    · obtain ⟨a, ha, rfl⟩ := Option.map_eq_some_iff.1 h
      have := length_angled_lt ha
      simp only [List.length_cons]
      omega
    · simp only [Option.some.injEq] at h
      simp [h]

/-- The tokens from which a name goes on: those after a `::` that a segment, a destructor or the
word `template` follows, that word left out. -/
def afterScope? : List Token → Option (List Token)
  | c :: n :: rest =>
    if c.isPunct .scope then
      if n.isKeyword .templateKw then some rest
      else if n.isIdentifier || n.isPunct .tilde then some (n :: rest)
      else none
    else none
  | _ => none

theorem length_afterScope_lt {ts after : List Token} (h : afterScope? ts = some after) :
    after.length < ts.length := by
  unfold afterScope? at h
  split at h
  · split at h
    · split at h
      · simp only [Option.some.injEq] at h
        simp only [← h, List.length_cons]
        omega
      · split at h
        · simp only [Option.some.injEq] at h
          simp [← h]
        · simp at h
    · simp at h
  · simp at h

/-- The segments of a name, each with its token, and the tokens after the name. None if a segment
is followed by a `<` that opens no template argument list. -/
def segments? (ts : List Token) : Option (List (Text × Token) × List Token) :=
  match ts with
  | [] => some ([], [])
  | t :: rest =>
    if t.isPunct .tilde then
      match rest with
      | u :: after => if u.isIdentifier then some ([(.scalar '~' :: u.text, u)], after) else some ([], ts)
      | [] => some ([], ts)
    else if t.isIdentifier then
      match _hargs : afterArguments? rest with
      | none => none
      | some after =>
        match _hscope : afterScope? after with
        | some next => (segments? next).map fun (segments, end_) => ((t.text, t) :: segments, end_)
        | none => some ([(t.text, t)], after)
    else some ([], ts)
termination_by ts.length
decreasing_by
  have := length_afterArguments_le _hargs
  have := length_afterScope_lt _hscope
  simp
  omega

theorem length_segments_le {ts rest : List Token} {segments : List (Text × Token)}
    (h : segments? ts = some (segments, rest)) :
    rest.length + (if segments.isEmpty then 0 else 1) ≤ ts.length := by
  fun_induction segments? ts generalizing segments rest with
  | case1 => simp at h; simp [h]
  | case2 => simp at h; obtain ⟨rfl, rfl⟩ := h; simp
  | case3 => simp at h; obtain ⟨rfl, rfl⟩ := h; simp
  | case4 => simp at h; obtain ⟨rfl, rfl⟩ := h; simp
  | case5 => simp at h
  | case6 _ _ _ _ _ hargs _ hscope ih =>
    obtain ⟨⟨s, r⟩, hs, heq⟩ := Option.map_eq_some_iff.1 h
    simp only [Prod.mk.injEq] at heq
    obtain ⟨rfl, rfl⟩ := heq
    have := length_afterArguments_le hargs
    have := length_afterScope_lt hscope
    have := ih hs
    simp only [List.isEmpty_cons, List.length_cons, Bool.false_eq_true, if_false]
    omega
  | case7 _ _ _ _ _ hargs =>
    simp at h
    obtain ⟨rfl, rfl⟩ := h
    have := length_afterArguments_le hargs
    simp
    omega
  | case8 => simp at h; obtain ⟨rfl, rfl⟩ := h; simp

/-- The tokens without a leading `::`. -/
def afterGlobal : List Token → List Token
  | [] => []
  | t :: rest => if t.isPunct .scope then rest else t :: rest

theorem length_afterGlobal_le (ts : List Token) : (afterGlobal ts).length ≤ ts.length := by
  unfold afterGlobal
  split
  · simp
  · split <;> simp

/-- The name at the front of a list of tokens. -/
def qualifiedName? (ts : List Token) : Option QualifiedName :=
  match segments? (afterGlobal ts) with
  | none => none
  | some (segments, rest) => (segments.getLast?).map fun (_, last) => ⟨segments.map (·.1), last, rest⟩

/-- A name takes up at least one token. -/
theorem length_qualifiedName_lt {ts : List Token} {n : QualifiedName}
    (h : qualifiedName? ts = some n) : n.rest.length < ts.length := by
  unfold qualifiedName? at h
  split at h
  · simp at h
  · rename_i segments rest hs
    obtain ⟨⟨x, last⟩, hlast, rfl⟩ := Option.map_eq_some_iff.1 h
    have hne : segments.isEmpty = false := by
      cases segments with
      | nil => simp at hlast
      | cons => rfl
    have := length_segments_le hs
    have := length_afterGlobal_le ts
    simp only [hne] at *
    simp only [Bool.false_eq_true, if_false] at *
    omega

/-! ## Types -/

namespace Keyword

/-- The keywords that may stand in front of the name of a type. -/
def isElaborated : Keyword → Bool
  | .structKw | .classKw | .unionKw | .enumKw | .typenameKw => true
  | _ => false

end Keyword

namespace Token

/-- The token is `const` or `volatile`. -/
def isCv (t : Token) : Bool := t.isKeyword .constKw || t.isKeyword .volatileKw

/-- The token makes a pointer or a reference. -/
def isPointerOrReference (t : Token) : Bool := t.isOneOf [.star, .amp, .ampAmp]

/-- The token is a keyword that names a fundamental type or a part of one. -/
def isTypeName (t : Token) : Bool :=
  match t.kind with
  | .keyword k => k.isTypeName
  | _ => false

/-- The token is a keyword that may stand in front of the name of a type. -/
def isElaborated (t : Token) : Bool :=
  match t.kind with
  | .keyword k => k.isElaborated
  | _ => false

end Token

/-- The tokens after the operand of `decltype`, given the tokens after that word; the outer option
tells whether there is an operand at all. -/
def afterDecltype? : List Token → Option (Option (List Token))
  | t :: rest => if t.isPunct .lparen then some ((parenthesised? rest).map (·.after)) else none
  | [] => none

theorem length_afterDecltype_lt {ts after : List Token} (h : afterDecltype? ts = some (some after)) :
    after.length < ts.length := by
  unfold afterDecltype? at h
  split at h
  · split at h
    · simp only [Option.some.injEq] at h
      obtain ⟨e, he, rfl⟩ := Option.map_eq_some_iff.1 h
      have := length_after_lt he
      simp only [List.length_cons]
      omega
    · simp at h
  · simp at h

/-- The tokens after the words that name a type, and whether a type was named; `seen` says that it
has been already, and then no other name is taken for one. -/
def afterTypeWords? (seen : Bool) (ts : List Token) : Option (Bool × List Token) :=
  match ts with
  | [] => some (seen, [])
  | t :: rest =>
    if t.isCv || t.isElaborated then afterTypeWords? seen rest
    else if t.isTypeName then afterTypeWords? true rest
    else
      match _hd : if t.isKeyword .decltypeKw then afterDecltype? rest else none with
      | some none => none
      | some (some after) => afterTypeWords? true after
      | none =>
        if (t.isIdentifier || t.isPunct .scope) && !seen then
          match _hn : qualifiedName? (t :: rest) with
          | none => none
          | some name => afterTypeWords? true name.rest
        else some (seen, t :: rest)
termination_by ts.length
decreasing_by
  · simp
  · simp
  · have : afterDecltype? rest = some (some after) := by
      split at _hd
      · exact _hd
      · simp at _hd
    have := length_afterDecltype_lt this
    simp
    omega
  · exact length_qualifiedName_lt _hn

/-- The tokens after the type at the front of a list: its words, then pointers, references and
the `...` of a pack. None if no type stands there. -/
def afterType? (ts : List Token) : Option (List Token) :=
  match afterTypeWords? false ts with
  | some (true, rest) =>
    some (rest.dropWhile fun t => t.isPointerOrReference || t.isPunct .ellipsis || t.isCv)
  | _ => none

/-- The tokens of `ts` in front of `rest`, which are its last ones. -/
def tokensBefore (ts rest : List Token) : List Token := ts.take (ts.length - rest.length)

/-- Whether an object of this type is itself constant. Behind a pointer the word counts only after
the last `*`; a reference is never constant. -/
def isConstObject (type : List Token) : Bool :=
  let afterLast := type.reverse.takeWhile (!·.isPointerOrReference)
  match type.reverse.dropWhile (!·.isPointerOrReference) with
  | [] => type.any (·.isKeyword .constKw)
  | last :: _ => last.isPunct .star && afterLast.any (·.isKeyword .constKw)

/-! ## Normalised text -/

/-- Whether a blank stands between two neighbouring tokens of a normalised text. -/
def spaced (left right : Token) : Bool :=
  !right.isOneOf [.scope, .less, .greater, .comma, .star, .amp, .ampAmp, .rparen, .rbracket,
      .lparen, .lbracket, .ellipsis] &&
    !left.isOneOf [.scope, .less, .lparen, .lbracket, .tilde]

/-- The normalised text of a list of tokens. -/
def joinedText : List Token → Text
  | [] => []
  | [t] => t.text
  | t :: u :: rest =>
    t.text ++ (if spaced t u then .scalar ' ' :: joinedText (u :: rest) else joinedText (u :: rest))

end HouseStyle
