import HouseStyle.Number.Binary64

/-!
# Values of a configuration

What a TOML document holds: scalars, arrays, and tables with their entries in order.
-/

namespace HouseStyle

/-- A value of a configuration. -/
inductive ConfigValue where
  /-- A key that is there but has no value. -/
  | none
  | boolean (b : Bool)
  | integer (n : Int)
  | float (x : Binary64)
  | string (s : String)
  /-- A date or a time, as it is written. -/
  | date (s : String)
  | array (items : List ConfigValue)
  | table (entries : List (String × ConfigValue))
  deriving Repr, Inhabited

/-- The entries of a table, in order. A document has each key once (`Toml.Document`); of a table
that repeats one, `lookup` gives the first. -/
abbrev ConfigTable := List (String × ConfigValue)

/-- No table in a value has a key twice. -/
inductive ConfigValue.Once : ConfigValue → Prop where
  | none : Once .none
  | boolean {b : Bool} : Once (.boolean b)
  | integer {n : Int} : Once (.integer n)
  | float {x : Binary64} : Once (.float x)
  | string {s : String} : Once (.string s)
  | date {s : String} : Once (.date s)
  | array {items : List ConfigValue} (each : ∀ v ∈ items, Once v) : Once (.array items)
  | table {entries : ConfigTable} (keys : (entries.map (·.1)).Nodup) (each : ∀ e ∈ entries, Once e.2) :
    Once (.table entries)

namespace ConfigValue

theorem once_array_iff {items : List ConfigValue} : (array items).Once ↔ ∀ v ∈ items, v.Once :=
  ⟨fun | .array each => each, .array⟩

theorem once_table_iff {entries : ConfigTable} :
    (table entries).Once ↔ (entries.map (·.1)).Nodup ∧ ∀ e ∈ entries, e.2.Once :=
  ⟨fun | .table keys each => ⟨keys, each⟩, fun h => .table h.1 h.2⟩

theorem Once.of_lookup {entries : ConfigTable} (h : (ConfigValue.table entries).Once) {key : String} {v : ConfigValue}
    (hv : entries.lookup key = some v) : v.Once := by
  obtain ⟨before, after, rfl, -⟩ := List.lookup_eq_some_iff.mp hv
  exact (once_table_iff.mp h).2 (key, v) (by simp)

end ConfigValue

end HouseStyle
