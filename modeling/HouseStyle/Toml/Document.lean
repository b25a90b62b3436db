import HouseStyle.Toml.Node
import HouseStyle.Toml.Scalar

/-!
# Documents

A TOML document is a sequence of lines. A line holds an entry, or a header that says which table the
entries after it belong to, or nothing, and it may end with a comment. `Toml.parse` gives the table
that a document stands for.
-/

namespace HouseStyle.Toml

/-! ## Values -/

/-- What is left after white space, line ends and comments between the items of an array. -/
def skipArraySpace (limit : Nat) (cs : List Char) : Except Fault (List Char) :=
  match limit with
  | 0 => malformed cs
  | limit + 1 =>
    match cs.dropWhile fun c => isBlank c || c = '\n' with
    | '#' :: rest => (skipComment ('#' :: rest)).bind (skipArraySpace limit)
    | rest => .ok rest

/-- How deep values may be nested, where an array counts two and a table in braces three. -/
def maxDepth : Nat := 970

mutual

/-- Reads a value inside of which others may be nested so deep. No more than two steps are taken for
one character, so a `limit` above twice their number is never reached. -/
def value (limit depth : Nat) (cs : List Char) : Reading ConfigValue :=
  match limit with
  | 0 => malformed cs
  | limit + 1 =>
    match string? cs with
    | some r => r.map fun (s, rest) => (.string s, rest)
    | none =>
      match cs with
      | 't' :: 'r' :: 'u' :: 'e' :: rest => .ok (.boolean true, rest)
      | 'f' :: 'a' :: 'l' :: 's' :: 'e' :: rest => .ok (.boolean false, rest)
      | '[' :: rest => if depth < 2 then .error .tooDeep else items limit (depth - 2) [] rest
      | '\x7b' :: rest =>
        match skipBlanks rest with
        | '\x7d' :: rest => .ok (.table [], rest)
        | rest => if depth < 3 then .error .tooDeep else members limit (depth - 3) [] rest
      | cs => scalar cs

/-- Reads what is left of an array; `done` holds the items before, backwards. -/
def items (limit depth : Nat) (done : List ConfigValue) (cs : List Char) :
    Except Fault (ConfigValue × List Char) :=
  match limit with
  | 0 => malformed cs
  | limit + 1 => do
    match ← skipArraySpace (cs.length + 1) cs with
    | ']' :: rest => return (.array done.reverse, rest)
    | cs =>
      let (item, cs) ← value limit depth cs
      match ← skipArraySpace (cs.length + 1) cs with
      | ']' :: rest => return (.array (item :: done).reverse, rest)
      | ',' :: rest => items limit depth (item :: done) rest
      | cs => malformed cs

/-- Reads what is left of a table in braces; `done` holds the entries before. -/
def members (limit depth : Nat) (done : Entries) (cs : List Char) :
    Except Fault (ConfigValue × List Char) :=
  match limit with
  | 0 => malformed cs
  | limit + 1 => do
    let (path, cs) ← key cs
    match cs with
    | '=' :: rest =>
      let (v, cs) ← value limit depth (skipBlanks rest)
      match Entries.insert 0 v path done with
      | none => malformed cs
      | some done =>
        match skipBlanks cs with
        | '\x7d' :: rest => return (.table (Node.entryValues done), rest)
        | ',' :: rest => members limit depth done (skipBlanks rest)
        | cs => malformed cs
    | cs => malformed cs

end

/-! ## Lines -/

/-- How far a document has been read. -/
structure Draft where
  /-- How many headers have been read. -/
  section_ : Nat := 0
  /-- The path of the table that entries belong to. -/
  header : List String := []
  entries : Entries := []

/-- Reads an entry. -/
def entry (d : Draft) (cs : List Char) : Except Fault (Draft × List Char) := do
  let (path, cs) ← key cs
  match cs with
  | '=' :: rest =>
    let (v, cs) ← value (2 * rest.length + 2) maxDepth (skipBlanks rest)
    match d.entries.update (Entries.insert d.section_ v path) d.header with
    | some entries => return ({ d with entries }, cs)
    | none => malformed cs
  | cs => malformed cs

/-- Reads what is left of the header of a table. -/
def tableHeader (d : Draft) (cs : List Char) : Except Fault (Draft × List Char) := do
  let (path, cs) ← key (skipBlanks cs)
  match d.entries.nameTable (d.section_ + 1) path, cs with
  | some entries, ']' :: rest => return (⟨d.section_ + 1, path, entries⟩, rest)
  | _, cs => malformed cs

/-- Reads what is left of the header of a table in an array. -/
def arrayHeader (d : Draft) (cs : List Char) : Except Fault (Draft × List Char) := do
  let (path, cs) ← key (skipBlanks cs)
  match d.entries.appendTable path, cs with
  | some entries, ']' :: ']' :: rest => return (⟨d.section_ + 1, path, entries⟩, rest)
  | _, cs => malformed cs

/-- Reads the entry or header of a line that is not empty, or nothing if it holds a comment alone. -/
def statement (d : Draft) (cs : List Char) : Reading Draft :=
  match cs with
  | '[' :: '[' :: rest => arrayHeader d rest
  | '[' :: rest => tableHeader d rest
  | '#' :: _ => .ok (d, cs)
  | c :: _ => if isKeyStart c then entry d cs else malformed cs
  | [] => .ok (d, [])

/-- Reads the lines that are left. Every line but the last takes at least one character. -/
def lines (limit : Nat) (d : Draft) (cs : List Char) : Except Fault Draft :=
  match limit with
  | 0 => malformed cs
  | limit + 1 =>
    match skipBlanks cs with
    | [] => .ok d
    | '\n' :: rest => lines limit d rest
    | cs => do
      let (d, rest) ← statement d cs
      match ← skipComment (skipBlanks rest) with
      | [] => return d
      | '\n' :: rest => lines limit d rest
      | rest => malformed rest

/-- A text in which every line ends with a line feed alone: a carriage return is one, and so is a
carriage return with the line feed after it. -/
def plainBreaks : List Char → List Char
  | [] => []
  | '\r' :: '\n' :: cs => '\n' :: plainBreaks cs
  | c :: cs => (if c = '\r' then '\n' else c) :: plainBreaks cs

/-! ## Each key once -/

/-- What is read inside a value has each key once in its tables. -/
structure ReadsOnce (limit : Nat) : Prop where
  value (depth : Nat) (cs : List Char) : Gives (fun r => r.1.Once) (value limit depth cs)
  items (depth : Nat) (cs : List Char) {done : List ConfigValue} (h : ∀ v ∈ done, v.Once) :
    Gives (fun r => r.1.Once) (items limit depth done cs)
  members (depth : Nat) (cs : List Char) {done : Entries} (h : done.Once) :
    Gives (fun r => r.1.Once) (members limit depth done cs)

section

variable {limit : Nat} (inner : ReadsOnce limit) (depth : Nat) (cs : List Char)
include inner

theorem once_value : Gives (fun r => r.1.Once) (value (limit + 1) depth cs) := by
  unfold value
  split
  · exact gives_map fun _ => .string
  split
  · exact gives_ok .boolean
  · exact gives_ok .boolean
  · split
    · exact gives_error _
    · exact inner.items _ _ (by simp)
  · split
    · exact gives_ok Entries.once_nil
    · split
      · exact gives_error _
      · exact inner.members _ _ Entries.once_nil
  · exact once_scalar cs

theorem once_items {done : List ConfigValue} (h : ∀ v ∈ done, v.Once) :
    Gives (fun r => r.1.Once) (items (limit + 1) depth done cs) := by
  unfold items
  refine gives_then fun cs => ?_
  split
  · exact gives_ok (.array (by simpa using h))
  · refine gives_bind (inner.value depth _) fun r hitem => gives_then fun cs => ?_
    have hdone : ∀ v ∈ r.1 :: done, v.Once := List.forall_mem_cons.mpr ⟨hitem, h⟩
    split
    · exact gives_ok (.array fun v hv => hdone v (List.mem_reverse.mp hv))
    · exact inner.items _ _ hdone
    · exact gives_malformed _

theorem once_members {done : Entries} (h : done.Once) :
    Gives (fun r => r.1.Once) (members (limit + 1) depth done cs) := by
  unfold members
  refine gives_then fun (path, cs) => ?_
  dsimp only
  split
  · refine gives_bind (inner.value depth _) fun r hvalue => ?_
    split
    · exact gives_malformed _
    next hinsert =>
      have hdone := h.insert hvalue hinsert
      split
      · exact gives_ok hdone
      · exact inner.members _ _ hdone
      · exact gives_malformed _
  · exact gives_malformed _

end

theorem readsOnce (limit : Nat) : ReadsOnce limit := by
  induction limit with
  | zero =>
    exact ⟨fun _ _ => gives_malformed _, fun _ _ _ _ => gives_malformed _, fun _ _ _ _ => gives_malformed _⟩
  | succ limit ih => exact ⟨once_value ih, fun _ _ _ => once_items ih _ _, fun _ _ _ => once_members ih _ _⟩

section

variable {d : Draft} (h : d.entries.Once) (cs : List Char)
include h

theorem once_entry : Gives (fun r => r.1.entries.Once) (entry d cs) := by
  unfold entry
  refine gives_then fun (path, cs) => ?_
  dsimp only
  split
  · refine gives_bind ((readsOnce _).value _ _) fun r hvalue => ?_
    split
    next hupdate => exact gives_ok (h.update (fun hes hinsert => hes.insert hvalue hinsert) hupdate)
    · exact gives_malformed _
  · exact gives_malformed _

theorem once_tableHeader : Gives (fun r => r.1.entries.Once) (tableHeader d cs) := by
  unfold tableHeader
  refine gives_then fun (path, cs) => ?_
  dsimp only
  split
  next _ _ hname => exact gives_ok (h.nameTable hname)
  · exact gives_malformed _

theorem once_arrayHeader : Gives (fun r => r.1.entries.Once) (arrayHeader d cs) := by
  unfold arrayHeader
  refine gives_then fun (path, cs) => ?_
  dsimp only
  split
  next _ _ happend => exact gives_ok (h.appendTable happend)
  · exact gives_malformed _

theorem once_statement : Gives (fun r => r.1.entries.Once) (statement d cs) := by
  unfold statement
  split
  · exact once_arrayHeader h _
  · exact once_tableHeader h _
  · exact gives_ok h
  · split
    · exact once_entry h _
    · exact gives_malformed _
  · exact gives_ok h

end

theorem once_lines (limit : Nat) {d : Draft} (h : d.entries.Once) (cs : List Char) :
    Gives (fun d => d.entries.Once) (lines limit d cs) := by
  induction limit generalizing d cs with
  | zero => exact gives_malformed _
  | succ limit ih =>
    unfold lines
    split
    · exact gives_ok h
    · exact ih h _
    · refine gives_bind (once_statement h _) fun r hr => gives_then fun rest => ?_
      split
      · exact gives_ok hr
      · exact ih hr _
      · exact gives_malformed _

/-! ## Documents -/

/-- The table that a document stands for. -/
structure Document where
  entries : ConfigTable
  /-- No table in it has a key twice. -/
  once : (ConfigValue.table entries).Once

/-- The table that a text stands for. -/
def parse (document : String) : Except Fault Document :=
  let cs := plainBreaks document.toList
  match hlines : lines (cs.length + 1) {} cs with
  | .ok d => .ok ⟨Node.entryValues d.entries, once_lines _ Entries.once_nil cs d hlines⟩
  | .error fault => .error fault

/-- The line and the column at which so many characters of a document are left, both from 1. -/
def position (document : String) (left : Nat) : Nat × Nat :=
  let cs := plainBreaks document.toList
  let before := cs.take (cs.length - left)
  ((before.filter (· = '\n')).length + 1, (before.reverse.takeWhile (· != '\n')).length + 1)

end HouseStyle.Toml
