/-!
# Strings and keys of a document

A reader takes the characters that are left of a document and gives what it has read with what is
left after it. Where the document is malformed it says how much was left at that point.

Basic strings stand in double quotes and have escapes, literal strings stand in single quotes and
have none; either kind may run over several lines between triple quotes.
-/

namespace HouseStyle.Toml

/-- Why a document cannot be read. -/
inductive Fault where
  /-- It is malformed where so many characters are left. -/
  | malformed (left : Nat)
  /-- An integer has too many digits. -/
  | tooManyDigits
  /-- Its values are nested too deep. -/
  | tooDeep
  deriving DecidableEq, Repr

/-- What a reader gives: what it has read, and what is left. -/
abbrev Reading (α : Type) := Except Fault (α × List Char)

/-- Refuses the document at the characters that are left. -/
def malformed {α : Type} (left : List Char) : Except Fault α := .error (.malformed left.length)

/-- Whatever reading ends with has a property. -/
def Gives {α : Type} (P : α → Prop) (r : Except Fault α) : Prop := ∀ a, r = .ok a → P a

section Gives

variable {α β : Type} {P : α → Prop}

theorem gives_ok {a : α} (h : P a) : Gives P (.ok a) := fun _ heq => Except.ok.inj heq ▸ h

theorem gives_error (fault : Fault) : Gives P (.error fault) := fun _ heq => absurd heq (by simp)

theorem gives_malformed (left : List Char) : Gives P (malformed left) := gives_error _

theorem gives_bind {r : Except Fault β} {Q : β → Prop} {next : β → Except Fault α} (h : Gives Q r)
    (hnext : ∀ b, Q b → Gives P (next b)) : Gives P (r >>= next) := by
  cases r with
  | error fault => exact gives_error fault
  | ok b => exact hnext b (h b rfl)

theorem gives_map {r : Except Fault β} {f : β → α} (h : ∀ b, P (f b)) : Gives P (r.map f) := by
  cases r with
  | error fault => exact gives_error fault
  | ok b => exact gives_ok (h b)

/-- Nothing is known of what is read first. -/
theorem gives_then {r : Except Fault β} {next : β → Except Fault α} (hnext : ∀ b, Gives P (next b)) :
    Gives P (r >>= next) :=
  gives_bind (fun _ _ => trivial) fun b _ => hnext b

end Gives

/-- White space inside a line. -/
def isBlank (c : Char) : Bool := c = ' ' || c = '\t'

/-- What is left after white space inside a line. -/
def skipBlanks (cs : List Char) : List Char := cs.dropWhile isBlank

/-- Controls, which stand nowhere in a line, the tab apart. -/
def isControl (c : Char) : Bool := (c.toNat < 0x20 && c != '\t') || c.toNat = 0x7F

/-- Reads what is left of a comment up to the end of its line; nothing if there is none. -/
def skipComment (cs : List Char) : Except Fault (List Char) :=
  match cs with
  | '#' :: rest =>
    if (rest.takeWhile (· != '\n')).any isControl then malformed cs
    else .ok (rest.dropWhile (· != '\n'))
  | cs => .ok cs

/-! ## Strings -/

/-- Where a basic string of several lines stands after a backslash at the end of a line: such a
backslash takes away all white space up to the next character. -/
inductive Fold where
  /-- Nowhere near one. -/
  | none
  /-- Between it and the end of its line. -/
  | inLine
  /-- After the end of its line. -/
  | below
  deriving DecidableEq, Repr

/-- The value of a hexadecimal digit. -/
def hexValue? (c : Char) : Option Nat :=
  if c.isDigit then some (c.toNat - '0'.toNat)
  else if 'a' ≤ c && c ≤ 'f' then some (c.toNat - 'a'.toNat + 10)
  else if 'A' ≤ c && c ≤ 'F' then some (c.toNat - 'A'.toNat + 10)
  else Option.none

/-- The value of hexadecimal digits. -/
def hexNumber? (digits : List Char) : Option Nat :=
  digits.foldlM (fun n c => (hexValue? c).map (n * 16 + ·)) 0

/-- The character with a code point in hexadecimal digits; surrogates are no characters. -/
def hexChar? (digits : List Char) : Option Char :=
  (hexNumber? digits).bind fun n => if n.isValidChar then some (Char.ofNat n) else Option.none

/-- The character that a backslash and one other character stand for. -/
def shortEscape? (c : Char) : Option Char :=
  if c = 'b' then some '\x08'
  else if c = 't' then some '\t'
  else if c = 'n' then some '\n'
  else if c = 'f' then some '\x0c'
  else if c = 'r' then some '\r'
  else if c = '"' || c = '\\' then some c
  else Option.none

/-- Up to two quotes that stand right before the closing ones of a string of several lines belong to
it. They are read behind the first three. -/
def extraQuotes (quote : Char) (text : List Char) (cs : List Char) : String × List Char :=
  match cs with
  | a :: b :: rest =>
    if a = quote && b = quote then (String.ofList (text ++ [quote, quote]), rest)
    else if a = quote then (String.ofList (text ++ [quote]), b :: rest)
    else (String.ofList text, cs)
  | [a] => if a = quote then (String.ofList (text ++ [quote]), []) else (String.ofList text, cs)
  | [] => (String.ofList text, [])

/-- Reads what is left of a basic string; `text` is what has been read of it, backwards. -/
def basicFrom (multiline : Bool) (fold : Fold) (text : List Char) : List Char → Reading String
  | [] => malformed []
  | c :: cs =>
    if fold = .below && (isBlank c || c = '\n') then basicFrom multiline .below text cs
    else if fold = .inLine then
      if isBlank c then basicFrom multiline .inLine text cs
      else if c = '\n' then basicFrom multiline .below text cs
      else malformed (c :: cs)
    else if c = '"' then
      if !multiline then .ok (String.ofList text.reverse, cs)
      else
        match cs with
        | '"' :: '"' :: rest => .ok (extraQuotes '"' text.reverse rest)
        | _ => basicFrom multiline .none (c :: text) cs
    else if c = '\\' then
      match cs with
      | 'u' :: d₁ :: d₂ :: d₃ :: d₄ :: rest =>
        match hexChar? [d₁, d₂, d₃, d₄] with
        | some e => basicFrom multiline .none (e :: text) rest
        | Option.none => malformed (c :: cs)
      | 'U' :: d₁ :: d₂ :: d₃ :: d₄ :: d₅ :: d₆ :: d₇ :: d₈ :: rest =>
        match hexChar? [d₁, d₂, d₃, d₄, d₅, d₆, d₇, d₈] with
        | some e => basicFrom multiline .none (e :: text) rest
        | Option.none => malformed (c :: cs)
      | e :: rest =>
        if multiline && isBlank e then basicFrom multiline .inLine text rest
        else if multiline && e = '\n' then basicFrom multiline .below text rest
        else
          match shortEscape? e with
          | some e => basicFrom multiline .none (e :: text) rest
          | Option.none => malformed (c :: cs)
      | [] => malformed [c]
    else if isControl c && !(multiline && c = '\n') then malformed (c :: cs)
    else basicFrom multiline .none (c :: text) cs

/-- Reads what is left of a literal string in one line. -/
def literalLine (cs : List Char) : Reading String :=
  let text := cs.takeWhile (· != '\'')
  match cs.dropWhile (· != '\'') with
  | [] => malformed cs
  | _ :: rest => if text.any isControl then malformed cs else .ok (String.ofList text, rest)

/-- Reads what is left of a literal string of several lines; `text` is what has been read of it,
backwards. -/
def literalFrom (text : List Char) : List Char → Reading String
  | [] => malformed []
  | '\'' :: '\'' :: '\'' :: rest => .ok (extraQuotes '\'' text.reverse rest)
  | c :: cs =>
    if isControl c && c != '\n' then malformed (c :: cs) else literalFrom (c :: text) cs

/-- What is left after a line end that follows opening triple quotes. -/
def skipFirstBreak : List Char → List Char
  | '\n' :: rest => rest
  | cs => cs

/-- Reads a string in one line, if one starts here. -/
def lineString? (cs : List Char) : Option (Reading String) :=
  match cs with
  | '"' :: rest => some (basicFrom false .none [] rest)
  | '\'' :: rest => some (literalLine rest)
  | _ => Option.none

/-- Reads a string of any kind, if one starts here. -/
def string? (cs : List Char) : Option (Reading String) :=
  match cs with
  | '"' :: '"' :: '"' :: rest => some (basicFrom true .none [] (skipFirstBreak rest))
  | '\'' :: '\'' :: '\'' :: rest => some (literalFrom [] (skipFirstBreak rest))
  | cs => lineString? cs

/-! ## Keys -/

/-- A character of a key without quotes. -/
def isBareKeyChar (c : Char) : Bool := c.isAlphanum || c = '-' || c = '_'

/-- A character that can start a key. -/
def isKeyStart (c : Char) : Bool := isBareKeyChar c || c = '"' || c = '\''

/-- Reads a part of a key. -/
def keyPart (cs : List Char) : Reading String :=
  match lineString? cs with
  | some r => r
  | Option.none =>
    let word := cs.takeWhile isBareKeyChar
    if word.isEmpty then malformed cs else .ok (String.ofList word, cs.dropWhile isBareKeyChar)

/-- Reads a dotted key, with the white space around its parts. Each part takes at least one
character, so `limit` may be the number of characters. -/
def keyFrom (limit : Nat) (cs : List Char) : Except Fault (List String × List Char) :=
  match limit with
  | 0 => malformed cs
  | limit + 1 => do
    let (part, cs) ← keyPart cs
    match skipBlanks cs with
    | '.' :: rest =>
      let (parts, cs) ← keyFrom limit (skipBlanks rest)
      return (part :: parts, cs)
    | cs => return ([part], cs)

/-- Reads a dotted key. -/
def key (cs : List Char) : Reading (List String) := keyFrom (cs.length + 1) cs

end HouseStyle.Toml
