import HouseStyle.Config.Value

/-!
# The tables of a document

While a TOML document is read, its tables can still grow. A table comes into being in one of three
ways: a header names it, a header names something inside it, or the dotted key of an entry leads
through it. A header may name a table once, and only if no dotted key has led through it in an
earlier section; a dotted key may lead through a table until a header names it or the section ends.
So a table only has to know from which section on it is closed for both.
-/

namespace HouseStyle.Toml

/-- What a key stands for while a document is read. -/
inductive Node where
  /-- A value that is complete. -/
  | value (v : ConfigValue)
  /-- A table, with the section from which on it is closed. -/
  | table (closedFrom : Option Nat) (entries : List (String × Node))
  /-- An array of tables, with the last one apart, which still grows. -/
  | tables (earlier : List (List (String × Node))) (last : List (String × Node))
  deriving Inhabited

/-- The entries of a table, in order. -/
abbrev Entries := List (String × Node)

namespace Node

mutual

/-- The value that a key has in the end. -/
def toValue : Node → ConfigValue
  | .value v => v
  | .table _ entries => .table (entryValues entries)
  | .tables earlier last => .array (tableValues earlier ++ [.table (entryValues last)])

/-- The values of the entries of a table. -/
def entryValues : Entries → ConfigTable
  | [] => []
  | (key, node) :: rest => (key, node.toValue) :: entryValues rest

/-- The values of tables. -/
def tableValues : List Entries → List ConfigValue
  | [] => []
  | entries :: rest => .table (entryValues entries) :: tableValues rest

end

/-- Whether a table is closed in a section. -/
def isClosed (closedFrom : Option Nat) (section_ : Nat) : Bool := closedFrom.any (· ≤ section_)

end Node

namespace Entries

/-- Gives a key that is there another node, in the same place. -/
def replace (key : String) (node : Node) : Entries → Entries
  | [] => []
  | (k, n) :: rest => if k = key then (k, node) :: rest else (k, n) :: replace key node rest

/-- Adds an entry at the end of a section's table; a dotted key leads through tables, which are made
if they are missing. None if one of them is closed or is no table, or if the key has a value. -/
def insert (section_ : Nat) (value : ConfigValue) : List String → Entries → Option Entries
  | [], _ => none
  | [key], es => if (es.lookup key).isSome then none else some (es ++ [(key, .value value)])
  | key :: keys, es =>
    match es.lookup key with
    | none =>
      (insert section_ value keys []).map fun inner => es ++ [(key, .table (some (section_ + 1)) inner)]
    | some (.table closedFrom inner) =>
      if Node.isClosed closedFrom section_ then none
      else
        (insert section_ value keys inner).map fun inner =>
          replace key (.table (some (section_ + 1)) inner) es
    | some _ => none

/-- Changes the table that a header has named; in an array of tables that is the last one. -/
def update (change : Entries → Option Entries) : List String → Entries → Option Entries
  | [], es => change es
  | key :: keys, es =>
    match es.lookup key with
    | some (.table closedFrom inner) =>
      (update change keys inner).map fun inner => replace key (.table closedFrom inner) es
    | some (.tables earlier last) =>
      (update change keys last).map fun last => replace key (.tables earlier last) es
    | _ => none

/-- Follows the path of a header, making tables that are missing, and changes the last step by
`final`, which is given the key and the entries it is among. -/
def descend (final : String → Entries → Option Entries) : List String → Entries → Option Entries
  | [], _ => none
  | [key], es => final key es
  | key :: keys, es =>
    match es.lookup key with
    | none => (descend final keys []).map fun inner => es ++ [(key, .table none inner)]
    | some (.table closedFrom inner) =>
      (descend final keys inner).map fun inner => replace key (.table closedFrom inner) es
    | some (.tables earlier last) =>
      (descend final keys last).map fun last => replace key (.tables earlier last) es
    | some (.value _) => none

/-- Names a table; none if it is closed or is no table. -/
def nameTable (section_ : Nat) (path : List String) (es : Entries) : Option Entries :=
  descend (fun key es =>
    match es.lookup key with
    | none => some (es ++ [(key, .table (some section_) [])])
    | some (.table closedFrom inner) =>
      if Node.isClosed closedFrom section_ then none
      else some (replace key (.table (some section_) inner) es)
    | some _ => none) path es

/-- Adds a table to an array of tables, which is made if it is missing; none if it is something
else. -/
def appendTable (path : List String) (es : Entries) : Option Entries :=
  descend (fun key es =>
    match es.lookup key with
    | none => some (es ++ [(key, .tables [] [])])
    | some (.tables earlier last) => some (replace key (.tables (earlier ++ [last]) []) es)
    | some _ => none) path es

/-! ## Each key once

Every operation on entries keeps their keys apart, at every depth. -/

/-- No table that entries will be, or will have inside, has a key twice. -/
def Once (es : Entries) : Prop := (ConfigValue.table (Node.entryValues es)).Once

theorem entryValues_eq_map (es : Entries) : Node.entryValues es = es.map fun e => (e.1, e.2.toValue) := by
  induction es with
  | nil => rfl
  | cons e es ih => rw [Node.entryValues, ih, List.map_cons]

theorem tableValues_eq_map (tables : List Entries) :
    Node.tableValues tables = tables.map fun es => .table (Node.entryValues es) := by
  induction tables with
  | nil => rfl
  | cons es tables ih => rw [Node.tableValues, ih, List.map_cons]

theorem once_iff {es : Entries} : es.Once ↔ (es.map (·.1)).Nodup ∧ ∀ e ∈ es, e.2.toValue.Once := by
  unfold Once
  rw [ConfigValue.once_table_iff, entryValues_eq_map, List.map_map, List.forall_mem_map]
  rfl

theorem once_tables_iff {earlier : List Entries} {last : Entries} :
    (Node.tables earlier last).toValue.Once ↔ (∀ es ∈ earlier, es.Once) ∧ last.Once := by
  rw [Node.toValue, ConfigValue.once_array_iff, tableValues_eq_map, List.forall_mem_append, List.forall_mem_map,
    List.forall_mem_singleton]
  rfl

theorem once_nil : Once [] := once_iff.mpr ⟨List.nodup_nil, by simp⟩

theorem map_fst_replace (key : String) (node : Node) (es : Entries) :
    (replace key node es).map (·.1) = es.map (·.1) := by
  induction es with
  | nil => rfl
  | cons e es ih =>
    obtain ⟨k, n⟩ := e
    unfold replace
    split
    · rfl
    · rw [List.map_cons, ih, List.map_cons]

theorem mem_replace {key : String} {node : Node} {es : Entries} {e : String × Node} (h : e ∈ replace key node es) :
    e ∈ es ∨ e.2 = node := by
  induction es with
  | nil => exact absurd h List.not_mem_nil
  | cons head es ih =>
    obtain ⟨k, n⟩ := head
    unfold replace at h
    split at h
    all_goals rcases List.mem_cons.mp h with rfl | h
    · exact .inr rfl
    · exact .inl (List.mem_cons_of_mem _ h)
    · exact .inl List.mem_cons_self
    · exact (ih h).imp_left (List.mem_cons_of_mem _)

theorem not_mem_of_lookup {key : String} {es : Entries} (h : es.lookup key = none) : key ∉ es.map (·.1) := by
  intro hmem
  obtain ⟨e, he, rfl⟩ := List.mem_map.mp hmem
  exact absurd rfl (bne_iff_ne.mp (List.lookup_eq_none_iff.mp h e he))

variable {key : String} {node : Node} {es es' : Entries}

theorem Once.of_lookup (h : es.Once) (hnode : es.lookup key = some node) : node.toValue.Once := by
  obtain ⟨_, _, rfl, -⟩ := List.lookup_eq_some_iff.mp hnode
  exact (once_iff.mp h).2 (key, node) (by simp)

theorem Once.replace (h : es.Once) (hnode : node.toValue.Once) : (replace key node es).Once := by
  refine once_iff.mpr ⟨(map_fst_replace key node es).symm ▸ (once_iff.mp h).1, fun e he => ?_⟩
  rcases mem_replace he with he | he
  · exact (once_iff.mp h).2 e he
  · rwa [he]

theorem Once.append (h : es.Once) (hnew : es.lookup key = none) (hnode : node.toValue.Once) :
    Once (es ++ [(key, node)]) := by
  obtain ⟨hkeys, heach⟩ := once_iff.mp h
  refine once_iff.mpr ⟨?_, List.forall_mem_append.mpr ⟨heach, List.forall_mem_singleton.mpr hnode⟩⟩
  rw [List.map_append, List.map_singleton]
  refine List.nodup_append.mpr ⟨hkeys, by simp, fun a ha b hb heq => not_mem_of_lookup hnew ?_⟩
  rw [heq, List.mem_singleton.mp hb] at ha
  exact ha

theorem Once.insert {section_ : Nat} {value : ConfigValue} (hvalue : value.Once) {path : List String}
    (h : es.Once) (hinsert : insert section_ value path es = some es') : es'.Once := by
  fun_induction Entries.insert section_ value path es generalizing es' with
  | case1 => exact absurd hinsert (by simp)
  | case2 => exact absurd hinsert (by simp)
  | case3 key es hnew =>
    obtain rfl := Option.some.inj hinsert
    exact h.append (Option.not_isSome_iff_eq_none.mp hnew) hvalue
  | case4 key keys hkeys es hnew ih =>
    obtain ⟨inner, hinner, rfl⟩ := Option.map_eq_some_iff.mp hinsert
    exact h.append hnew (ih once_nil hinner)
  | case5 => exact absurd hinsert (by simp)
  | case6 es key keys hkeys closedFrom inner htable hopen ih =>
    obtain ⟨inner', hinner, rfl⟩ := Option.map_eq_some_iff.mp hinsert
    exact h.replace (ih (h.of_lookup htable) hinner)
  | case7 => exact absurd hinsert (by simp)

theorem Once.update {change : Entries → Option Entries}
    (hchange : ∀ {es es'}, es.Once → change es = some es' → es'.Once) {path : List String} (h : es.Once)
    (hupdate : update change path es = some es') : es'.Once := by
  fun_induction Entries.update change path es generalizing es' with
  | case1 es => exact hchange h hupdate
  | case2 es key keys closedFrom inner htable ih =>
    obtain ⟨inner', hinner, rfl⟩ := Option.map_eq_some_iff.mp hupdate
    exact h.replace (ih (h.of_lookup htable) hinner)
  | case3 es key keys earlier last htables ih =>
    obtain ⟨hearlier, hlast⟩ := once_tables_iff.mp (h.of_lookup htables)
    obtain ⟨last', hlast', rfl⟩ := Option.map_eq_some_iff.mp hupdate
    exact h.replace (once_tables_iff.mpr ⟨hearlier, ih hlast hlast'⟩)
  | case4 => exact absurd hupdate (by simp)

theorem Once.descend {final : String → Entries → Option Entries}
    (hfinal : ∀ {key es es'}, es.Once → final key es = some es' → es'.Once) {path : List String} (h : es.Once)
    (hdescend : descend final path es = some es') : es'.Once := by
  fun_induction Entries.descend final path es generalizing es' with
  | case1 => exact absurd hdescend (by simp)
  | case2 es key => exact hfinal h hdescend
  | case3 es key keys hkeys hnew ih =>
    obtain ⟨inner, hinner, rfl⟩ := Option.map_eq_some_iff.mp hdescend
    exact h.append hnew (ih once_nil hinner)
  | case4 es key keys hkeys closedFrom inner htable ih =>
    obtain ⟨inner', hinner, rfl⟩ := Option.map_eq_some_iff.mp hdescend
    exact h.replace (ih (h.of_lookup htable) hinner)
  | case5 es key keys hkeys earlier last htables ih =>
    obtain ⟨hearlier, hlast⟩ := once_tables_iff.mp (h.of_lookup htables)
    obtain ⟨last', hlast', rfl⟩ := Option.map_eq_some_iff.mp hdescend
    exact h.replace (once_tables_iff.mpr ⟨hearlier, ih hlast hlast'⟩)
  | case6 => exact absurd hdescend (by simp)

theorem Once.nameTable {section_ : Nat} {path : List String} (h : es.Once)
    (hname : nameTable section_ path es = some es') : es'.Once := by
  refine h.descend (fun {key es es'} h hname => ?_) hname
  split at hname
  next hnew =>
    obtain rfl := Option.some.inj hname
    exact h.append hnew once_nil
  next closedFrom inner htable =>
    split at hname
    · exact absurd hname (by simp)
    · obtain rfl := Option.some.inj hname
      have hinner : Entries.Once inner := h.of_lookup htable
      exact h.replace hinner
  next => exact absurd hname (by simp)

theorem Once.appendTable {path : List String} (h : es.Once) (happend : appendTable path es = some es') :
    es'.Once := by
  refine h.descend (fun {key es es'} h happend => ?_) happend
  split at happend
  next hnew =>
    obtain rfl := Option.some.inj happend
    exact h.append hnew (once_tables_iff.mpr ⟨by simp, once_nil⟩)
  next earlier last htables =>
    obtain ⟨hearlier, hlast⟩ := once_tables_iff.mp (h.of_lookup htables)
    obtain rfl := Option.some.inj happend
    refine h.replace (once_tables_iff.mpr ⟨?_, once_nil⟩)
    exact List.forall_mem_append.mpr ⟨hearlier, List.forall_mem_singleton.mpr hlast⟩
  next => exact absurd happend (by simp)

end Entries

end HouseStyle.Toml
