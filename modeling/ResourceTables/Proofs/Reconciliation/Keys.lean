import ResourceTables.Reconciliation

/-!
# Keys of a source

What reconciliation is about, said of the sources alone: the keys that a source has, the value that
it gives to a key, and when two sources have the same keys. A list has no keys of its own; as a
default version it names its keys by its elements, and any list gives its values by their places.

## Main definitions

* `Key`: a key of flat data, or a field of a table.
* `Source.keys`, `Source.tableNames`: the keys and the tables of a source, in order.
* `Source.value?`: the value that a source gives to a key.
* `Source.AgreesWith`: a source has the layout and the keys of the default version.
* `Source.HasUniqueKeys`, `UniqueVersions`: what loading promises about versions.
-/

namespace ResourceTables

/-- A key that values are looked up by: a key of flat data, or a field of a table. -/
inductive Key where
  | flat (key : String)
  | grouped (table field : String)
deriving DecidableEq

namespace Key

/-- The identifier of a key in the reconciled table. -/
def identifier : Key → String
  | .flat key => flatIdentifier key
  | .grouped table field => groupedIdentifier table field

/-- A key as it is shown. -/
def label : Key → String
  | .flat key => key
  | .grouped table field => groupedLabel table field

end Key

namespace Source

/-- The keys of a source, in order; a list names its keys by its elements. -/
def keys : Source → List Key
  | .literal records => records.map fun record => .flat record.1
  | .keyed records => records.map fun record => .flat record.1
  | .list elements => elements.map .flat
  | .grouped tables => tables.flatMap fun table => table.2.map fun record => .grouped table.1 record.1

/-- The names of the tables of a source, in order; flat data has none. -/
def tableNames : Source → List String
  | .grouped tables => tables.map (·.1)
  | _ => []

/-- The value that a source gives to a key, which stands at a place among the canonical keys. Only
a list goes by the place. -/
def value? (place : Nat) : Source → Key → Option String
  | .literal records, .flat key => records.lookup key
  | .keyed records, .flat key => records.lookup key
  | .list elements, .flat _ => elements[place]?
  | .grouped tables, .grouped table field => (tables.lookup table).bind fun records =>
      records.lookup field
  | _, _ => none

/-- A source has the layout, the tables and the keys of the default version, in any order. A list,
which has no keys, has as many elements as there are keys. -/
def AgreesWith (source main : Source) : Prop :=
  match source with
  | .list elements => main.isGrouped = false ∧ elements.length = main.keys.length
  | _ => source.isGrouped = main.isGrouped ∧
      (∀ name, name ∈ source.tableNames ↔ name ∈ main.tableNames) ∧
      ∀ key, key ∈ source.keys ↔ key ∈ main.keys

/-- No key of a source comes twice; in grouped data no table comes twice, and no field of a table. A
list may repeat its elements. -/
def HasUniqueKeys : Source → Prop
  | .literal records => (records.map (·.1)).Nodup
  | .keyed records => (records.map (·.1)).Nodup
  | .list _ => True
  | .grouped tables => (tables.map (·.1)).Nodup ∧ ∀ table ∈ tables, (table.2.map (·.1)).Nodup

instance : DecidablePred HasUniqueKeys
  | .literal records => inferInstanceAs (Decidable (records.map (·.1)).Nodup)
  | .keyed records => inferInstanceAs (Decidable (records.map (·.1)).Nodup)
  | .list _ => inferInstanceAs (Decidable True)
  | .grouped tables => inferInstanceAs (Decidable ((tables.map (·.1)).Nodup ∧
      ∀ table ∈ tables, (table.2.map (·.1)).Nodup))

end Source

/-- What loading promises about versions: no name comes twice, and no key within a version. -/
structure UniqueVersions (versions : List Version) : Prop where
  names : (versions.map (·.1)).Nodup
  keys : ∀ version ∈ versions, version.2.HasUniqueKeys

namespace Canonical

/-- The keys, one by one. -/
def keys : Canonical → List Key
  | .flat keys => keys.map .flat
  | .grouped tables => tables.flatMap fun table => table.fields.map (.grouped table.name)

/-- The tables that grouped keys are parted into. -/
def tables : Canonical → List KeyTable
  | .flat _ => []
  | .grouped tables => tables

/-- Each key is claimed by its identifier and told by its label. -/
theorem claims_eq_map_keys (canonical : Canonical) :
    canonical.claims = canonical.keys.map fun key => (key.identifier, key.label) := by
  cases canonical with
  | flat names => simp [claims, keys, Key.identifier, Key.label, Function.comp_def]
  | grouped tables =>
    simp [claims, keys, Key.identifier, Key.label, List.map_flatMap, Function.comp_def]

@[simp] theorem keys_ofSource (source : Source) : (ofSource source).keys = source.keys := by
  cases source <;>
    simp [ofSource, keys, Source.keys, List.flatMap_map, Function.comp_def]

@[simp] theorem tables_ofSource (source : Source) :
    (ofSource source).tables.map (·.name) = source.tableNames := by
  cases source <;> simp [ofSource, tables, Source.tableNames, Function.comp_def]

end Canonical

end ResourceTables
