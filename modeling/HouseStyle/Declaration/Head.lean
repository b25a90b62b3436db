import HouseStyle.Declaration.Bracket

/-!
# Heads of statements

A statement is read up to what ends it: a semicolon, the brace that opens its body, the brace that
closes the scope around it, or the end of the file. Its head is everything before that. A brace
that opens an initializer does not end a head; the braces of the initializer belong to it.
-/

namespace HouseStyle

/-- What ends the head of a statement. -/
inductive Ending where
  | semicolon
  /-- The brace that opens the body. -/
  | body (brace : Token)
  /-- The brace that closes the scope; it is not part of the statement. -/
  | scopeEnd
  | fileEnd
  deriving DecidableEq, Repr

/-- The head of a statement, what ends it, and the tokens from where reading goes on. -/
structure Head where
  tokens : List Token
  ending : Ending
  rest : List Token
  deriving DecidableEq, Repr

namespace Head

/-- The same head with more tokens in front. -/
def prepend (ts : List Token) (h : Head) : Head := { h with tokens := ts ++ h.tokens }

/-- What a head has shown so far at its top level. -/
structure Seen where
  /-- An equals sign that is not part of the name of an operator. -/
  equals : Bool := false
  /-- A pair of round brackets. -/
  brackets : Bool := false
  /-- A colon after round brackets, as before the initializers of a constructor. -/
  colon : Bool := false
  deriving DecidableEq, Repr

/-- How reading goes on at a token of a head. -/
inductive Step where
  /-- The token belongs to the head. -/
  | keep (seen : Seen) (depth : Nat)
  /-- The token opens an initializer in braces. -/
  | initializer
  /-- The head ends here. -/
  | finish (ending : Ending)
  deriving DecidableEq, Repr

/-- Whether a brace after the token `last` opens an initializer and not a body. -/
def opensInitializer (seen : Seen) (last : Option Token) : Bool :=
  seen.equals ||
    match last with
    | none => false
    | some t => !(seen.brackets && !seen.colon) && (t.isIdentifier || t.isPunct .greater)

/-- How reading goes on at the token `t` after the token `last`, with `depth` round and square
brackets open. -/
def step (seen : Seen) (last : Option Token) (depth : Nat) (t : Token) : Step :=
  match t.kind with
  | .punct .lparen => .keep seen (depth + 1)
  | .punct .lbracket => .keep seen (depth + 1)
  | .punct .rparen => .keep { seen with brackets := seen.brackets || depth ≤ 1 } (depth - 1)
  | .punct .rbracket => .keep seen (depth - 1)
  | .punct p =>
    if depth = 0 then
      match p with
      | .semicolon => .finish .semicolon
      | .rbrace => .finish .scopeEnd
      | .eq =>
        .keep { seen with equals := seen.equals || !(last.any (·.isKeyword .operatorKw)) } depth
      | .colon => .keep { seen with colon := seen.colon || seen.brackets } depth
      | .lbrace => if opensInitializer seen last then .initializer else .finish (.body t)
      | _ => .keep seen depth
    else .keep seen depth
  | _ => .keep seen depth

/-- Reads a head from the front of a list of tokens, after the token `last` of the same head. -/
def readFrom (seen : Seen) (last : Option Token) (depth : Nat) (ts : List Token) : Head :=
  match ts with
  | [] => ⟨[], .fileEnd, []⟩
  | t :: rest =>
    match step seen last depth t with
    | .keep seen depth => (readFrom seen (some t) depth rest).prepend [t]
    | .finish .scopeEnd => ⟨[], .scopeEnd, t :: rest⟩
    | .finish ending => ⟨[], ending, rest⟩
    | .initializer =>
      match _h : braced? rest with
      | none => ⟨t :: rest, .fileEnd, []⟩
      | some e =>
        (readFrom seen (some e.closer) depth e.after).prepend (t :: e.inside ++ [e.closer])
termination_by ts.length
decreasing_by
  · simp
  · have := length_after_lt _h
    simp
    omega

/-- The head of the statement at the front of a list of tokens. -/
def read (ts : List Token) : Head := readFrom {} none 0 ts

/-- The tokens after the whole statement, its body included; a body that is never closed takes all
of them. -/
def afterStatement (h : Head) : List Token :=
  match h.ending with
  | .body _ => ((braced? h.rest).map (·.after)).getD []
  | _ => h.rest

end Head

/-- The tokens after the statement at the front of a list. -/
def afterStatement (ts : List Token) : List Token := (Head.read ts).afterStatement

end HouseStyle
