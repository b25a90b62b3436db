import HouseStyle.Text.Blank
import HouseStyle.Text.Letter
import HouseStyle.Token.Basic
import HouseStyle.Violation

/-!
# Suppressions

Comments can hold markers that turn rules off: for the file, for a line, for the next line, or for
a region that a second marker ends. `Marker.inText` finds the markers of a comment, and `ofTokens`
turns the markers of a file into the stretches of lines they cover and notes on the markers that
have no partner.

A marker without a list of rules is about all of them.
-/

namespace HouseStyle

/-! ## Markers -/

/-- What a marker turns off. -/
inductive MarkerKind where
  | file
  /-- The lines of its comment. -/
  | line
  /-- The line after its comment. -/
  | nextLine
  | regionStart
  | regionEnd
  deriving DecidableEq, Repr

/-- A marker in a comment, with the rules it lists in increasing order. -/
structure Marker where
  kind : MarkerKind
  rules : List String
  deriving DecidableEq, Repr

namespace Marker

/-- The key that stands for all rules. -/
def allRules : String := "all"

/-- Whether a glyph is the letter `small`, in either case. Both letters `i` without the usual dot
and with it, the long `s` and the sign of the kelvin count as the letters they look like. -/
def sameLetter (small : Char) : Glyph → Bool
  | .raw _ => false
  | .scalar c =>
    c == small || c.toLower == small || (small == 'i' && (c == 'İ' || c == 'ı')) ||
      (small == 's' && c == 'ſ') || (small == 'k' && c == '\u212A')

/-- The rest of a text that starts with a word in any case. -/
def dropWord? : List Char → Text → Option Text
  | [], t => some t
  | _ :: _, [] => none
  | c :: word, g :: t => if sameLetter c g then dropWord? word t else none

/-- White space inside a comment. -/
def isBlank (g : Glyph) : Bool := g.satisfies Blank.isBlank

/-- A glyph that a rule's name may hold in a marker. -/
def isRuleGlyph (g : Glyph) : Bool :=
  g.satisfies fun c =>
    c.isAlphanum || c == '_' || c == '/' || c == '-' || c == 'İ' || c == 'ı' || c == 'ſ' ||
      c == '\u212A'

/-- Whether a keyword can end before this glyph: neither a word nor a hyphen goes on there. -/
def endsKeyword (g : Option Glyph) : Bool :=
  !(g.any fun g => g == .scalar '-' || g.satisfies Letter.isWordChar)

/-- The keywords, a longer one before those it starts with. -/
def keywords : List String :=
  ["disable-next-line", "disable-line", "disable-begin", "disable-end", "disable-file", "disable"]

/-- What a keyword means as it is written. Outside ASCII a keyword is recognised but not known,
and counts as the end of a region. -/
def kindOf (written : Text) : MarkerKind :=
  match (Case.lowerText written).toString? with
  | some "disable-file" => .file
  | some "disable-line" => .line
  | some "disable" => .line
  | some "disable-next-line" => .nextLine
  | some "disable-begin" => .regionStart
  | _ => .regionEnd

/-- The names of a list of rules and the text after it. `name` has been read backwards; after a
comma there must be another name, or the list ends before that comma. -/
def namesFrom (name : Text) (t : Text) : List Text × Text :=
  match t with
  | [] => ([name.reverse], [])
  | g :: rest =>
    if isRuleGlyph g then namesFrom (g :: name) rest
    else
      match _h : (g :: rest).dropWhile isBlank with
      | .scalar ',' :: after =>
        match _h' : after.dropWhile isBlank with
        | h :: more =>
          if isRuleGlyph h then
            let (names, last) := namesFrom [h] more
            (name.reverse :: names, last)
          else ([name.reverse], g :: rest)
        | [] => ([name.reverse], g :: rest)
      | _ => ([name.reverse], g :: rest)
termination_by t.length
decreasing_by
  · simp
  · have h₁ := (List.dropWhile_sublist isBlank (l := g :: rest)).length_le
    have h₂ := (List.dropWhile_sublist isBlank (l := after)).length_le
    rw [_h] at h₁
    rw [_h'] at h₂
    simp only [List.length_cons] at h₁ h₂ ⊢
    omega

/-- The list of rules after a keyword, and the text after it. Without a sign and a name after it
there is no list. -/
def listAt (t : Text) : List Text × Text :=
  match t.dropWhile isBlank with
  | .scalar '=' :: after =>
    match after.dropWhile isBlank with
    | g :: rest => if isRuleGlyph g then namesFrom [g] rest else ([], t)
    | [] => ([], t)
  | _ => ([], t)

/-- Adds a string to a list in increasing order that holds each string once. -/
def insertSorted (s : String) : List String → List String
  | [] => [s]
  | a :: rest => if s < a then s :: a :: rest else if s = a then a :: rest else a :: insertSorted s rest

/-- The rules of a list, in small letters, in increasing order and each once. -/
def normalised (names : List Text) : List String :=
  (names.filterMap fun n => (Case.lowerText n).toString?).foldl (fun done s => insertSorted s done) []

/-- The keyword at the front of a text as it is written, and the text after it. -/
def keyword? (t : Text) : Option (Text × Text) :=
  keywords.findSome? fun word =>
    match dropWord? word.toList t with
    | some rest => if endsKeyword rest.head? then some (t.take word.length, rest) else none
    | none => none

/-- The marker at the front of a text, and the text after it. -/
def leading? (t : Text) : Option (Marker × Text) :=
  match dropWord? "cppconform:".toList t with
  | none => none
  | some after =>
    (keyword? (after.dropWhile isBlank)).map fun (written, rest) =>
      (⟨kindOf written, normalised (listAt rest).1⟩, (listAt rest).2)

theorem length_dropWord {word : List Char} {t rest : Text} (h : dropWord? word t = some rest) :
    t.length = word.length + rest.length := by
  fun_induction dropWord? word t with
  | case1 => simp at h; simp [h]
  | case2 => simp at h
  | case3 _ _ _ _ _ ih => simp only [List.length_cons, ih h]; omega
  | case4 => simp at h

theorem length_keyword_le {t written rest : Text} (h : keyword? t = some (written, rest)) :
    rest.length ≤ t.length := by
  obtain ⟨word, _, hword⟩ := List.exists_of_findSome?_eq_some h
  split at hword
  · rename_i hdrop
    have := length_dropWord hdrop
    split at hword
    · simp only [Option.some.injEq, Prod.mk.injEq] at hword
      rw [← hword.2]
      omega
    · simp at hword
  · simp at hword

theorem length_namesFrom_le (name t : Text) : (namesFrom name t).2.length ≤ t.length := by
  fun_induction namesFrom name t with
  | case1 => simp
  | case2 _ _ _ _ ih => simp only [List.length_cons]; omega
  | case3 _ g rest _ after h₁ h more h₂ _ names last hnames ih =>
    have hb := (List.dropWhile_sublist isBlank (l := g :: rest)).length_le
    have ha := (List.dropWhile_sublist isBlank (l := after)).length_le
    rw [h₁] at hb
    rw [h₂] at ha
    rw [hnames] at ih
    simp only [List.length_cons] at *
    omega
  | case4 => simp
  | case5 => simp
  | case6 => simp

theorem length_listAt_le (t : Text) : (listAt t).2.length ≤ t.length := by
  unfold listAt
  split
  · rename_i after h₁
    split
    · rename_i g rest h₂
      split
      · have hb := (List.dropWhile_sublist isBlank (l := t)).length_le
        have ha := (List.dropWhile_sublist isBlank (l := after)).length_le
        have := length_namesFrom_le [g] rest
        rw [h₁] at hb
        rw [h₂] at ha
        simp only [List.length_cons] at *
        omega
      · simp
    · simp
  · simp

/-- A marker takes at least one glyph. -/
theorem length_leading_lt {t rest : Text} {m : Marker} (h : leading? t = some (m, rest)) :
    rest.length < t.length := by
  unfold leading? at h
  split at h
  · simp at h
  · rename_i after hword
    obtain ⟨⟨written, rest'⟩, hkeyword, heq⟩ := Option.map_eq_some_iff.1 h
    simp only [Prod.mk.injEq] at heq
    have h₁ := length_dropWord hword
    have h₂ := (List.dropWhile_sublist isBlank (l := after)).length_le
    have h₃ := length_keyword_le hkeyword
    have h₄ := length_listAt_le rest'
    rw [heq.2] at h₄
    simp only [String.length_toList] at h₁
    have : 0 < "cppconform:".length := by decide
    omega

/-- The markers of a text, in order. -/
def inText (t : Text) : List Marker :=
  match t with
  | [] => []
  | g :: rest =>
    match _h : leading? (g :: rest) with
    | some (marker, after) => marker :: inText after
    | none => inText rest
termination_by t.length
decreasing_by
  · exact length_leading_lt _h
  · simp

/-- The rules that a list turns off; none stands for all. -/
def filter (rules : List String) : List String := if rules.contains allRules then [] else rules

end Marker

/-! ## Suppressions -/

/-- A stretch of lines where rules are turned off. -/
structure Suppression where
  startLine : Nat
  /-- The last line; none if it is the last of the file. -/
  endLine : Option Nat
  /-- The rules, in increasing order; none stands for all. -/
  rules : List String
  deriving DecidableEq, Repr

namespace Suppression

/-- Whether it is about a rule. -/
def concerns (s : Suppression) (ruleId : String) : Bool := s.rules.isEmpty || s.rules.contains ruleId

/-- Whether it turns a rule off on a line. -/
def covers (s : Suppression) (ruleId : String) (line : Int) : Bool :=
  s.startLine ≤ line && s.endLine.all (fun last => line ≤ last) && s.concerns ruleId

/-- Whether it turns a rule off in the whole file. -/
def coversFile (s : Suppression) (ruleId : String) : Bool :=
  s.startLine ≤ 1 && s.endLine.isNone && s.concerns ruleId

end Suppression

/-- The suppressions of a file, and notes on markers without a partner. -/
structure Suppressions where
  entries : List Suppression := []
  notes : List Violation := []
  deriving Repr

namespace Suppressions

/-- Whether a rule is turned off on a line, or, for a violation without a line, in the file. -/
def isSuppressed (s : Suppressions) (ruleId : String) (line : Option Int) : Bool :=
  let key := Case.lower ruleId
  s.entries.any fun e =>
    match line with
    | some line => e.covers key line
    | none => e.coversFile key

/-- A note on the marker of a comment. -/
def note (comment : Token) (ruleId message : String) : Violation :=
  { ruleId, severity := .info, message, category := .engine
    location := some {
      startLine := some comment.line, startColumn := some comment.column
      endLine := some comment.endLine, endColumn := some comment.endColumn
      startOffset := some comment.start, endOffset := some comment.stop } }

/-- The note on an end that closes no region. -/
def strayEnd (comment : Token) : Violation :=
  note comment "engine/stray-suppression-end" "`disable-end` has no matching `disable-begin`; ignored"

/-- The note on a region that is never closed. -/
def unterminated (key : String) (comment : Token) : Violation :=
  let label := if key == Marker.allRules then "all rules" else key
  note comment "engine/unterminated-suppression"
    ("`disable-begin` for " ++ label ++ " is never closed; suppression extends to end of file")

/-- The markers that have been read: what they gave, and the regions that are open. -/
structure Reading where
  entries : Array Suppression := #[]
  notes : Array Violation := #[]
  /-- The key of each open region with the comment that opened it. -/
  opened : List (String × Token) := []
  deriving Repr

/-- Opens regions; one that is open already keeps its start. -/
def Reading.openRegions (r : Reading) (comment : Token) (keys : List String) : Reading :=
  keys.foldl (fun r key =>
    if r.opened.any (·.1 == key) then r else { r with opened := r.opened ++ [(key, comment)] }) r

/-- Closes the regions of the keys, as far as they are open. -/
def Reading.closeRegions (r : Reading) (comment : Token) (keys : List String) : Reading :=
  keys.foldl (fun r key =>
    match r.opened.find? (·.1 == key) with
    | none => r
    | some (_, opener) =>
      { r with
        opened := r.opened.filter (·.1 != key)
        entries := r.entries.push ⟨opener.line, some comment.endLine, Marker.filter [key]⟩ }) r

/-- Reads one marker of a comment. -/
def Reading.step (r : Reading) (comment : Token) (m : Marker) : Reading :=
  match m.kind with
  | .file => { r with entries := r.entries.push ⟨1, none, Marker.filter m.rules⟩ }
  | .line =>
    { r with entries := r.entries.push ⟨comment.line, some comment.endLine, Marker.filter m.rules⟩ }
  | .nextLine =>
    let next := comment.endLine + 1
    { r with entries := r.entries.push ⟨next, some next, Marker.filter m.rules⟩ }
  | .regionStart =>
    r.openRegions comment (if m.rules.isEmpty then [Marker.allRules] else m.rules)
  | .regionEnd =>
    let keys :=
      if m.rules.isEmpty then
        r.opened.foldl (fun keys entry => Marker.insertSorted entry.1 keys) []
      else m.rules
    if keys.any fun key => r.opened.any (·.1 == key) then r.closeRegions comment keys
    else { r with notes := r.notes.push (strayEnd comment) }

/-- Reads the markers of the comments among some tokens, in order. -/
def Reading.ofTokens (tokens : List Token) : Reading :=
  (tokens.filter (·.isComment)).foldl (fun r comment =>
    (Marker.inText comment.text).foldl (fun r m => r.step comment m) r) {}

/-- The order of open regions: by the offset of their comment, then by key. -/
def openedBefore (a b : String × Token) : Bool :=
  a.2.start < b.2.start || (a.2.start == b.2.start && decide (a.1 ≤ b.1))

/-- The suppressions of a file, given its tokens. A region that is never closed reaches to the end
of the file. -/
def ofTokens (tokens : List Token) : Suppressions :=
  let r := Reading.ofTokens tokens
  let opened := r.opened.mergeSort openedBefore
  { entries := r.entries.toList ++ opened.map fun (key, opener) =>
      ⟨opener.line, none, Marker.filter [key]⟩
    notes := r.notes.toList ++ opened.map fun (key, opener) => unterminated key opener }

end Suppressions

end HouseStyle
