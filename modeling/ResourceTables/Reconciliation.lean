import ResourceTables.Definition
import ResourceTables.Fault

/-!
# Reconciliation

The default version decides which keys there are and in which order. Every other version must have
exactly these keys, in any order; lists have no keys of their own and take them by position. The
result is one table: the identifiers of the keys, and for each version its values in the same order.

Versions are checked in order and the first one that disagrees is reported. In grouped data the
names of the tables are compared first, then the fields of each table.

## Main definitions

* `Canonical`: the keys of the default version.
* `ReconciledTable`: identifiers, and values of each version.
* `takeKeys`: the values of given keys, if there are no others.
* `alignVersion`: the values of a version in the order of the canonical keys.
* `reconcile`: the canonical keys and the table of some versions.
-/

namespace ResourceTables

/-- The keys of one table of grouped data. -/
structure KeyTable where
  name : String
  fields : List String
deriving DecidableEq

/-- The keys of the default version, in its order. -/
inductive Canonical where
  | flat (keys : List String)
  | grouped (tables : List KeyTable)
deriving DecidableEq

/-- The key of a field of a table, as it is shown. -/
def groupedLabel (table field : String) : String :=
  table ++ "." ++ field

namespace Canonical

/-- The keys are parted into tables. -/
def isGrouped : Canonical → Bool
  | .grouped _ => true
  | .flat _ => false

/-- The keys as they are shown, in order. -/
def labels : Canonical → List String
  | .flat keys => keys
  | .grouped tables =>
    tables.flatMap fun table => table.fields.map fun field => groupedLabel table.name field

/-- The number of keys. -/
def size : Canonical → Nat
  | .flat keys => keys.length
  | .grouped tables => (tables.flatMap fun table => table.fields).length

/-- There are no keys. -/
def isEmpty (keys : Canonical) : Bool :=
  keys.size == 0

/-- The identifiers of the keys with the keys as they are shown, in order. -/
def claims : Canonical → List (String × String)
  | .flat keys => keys.map fun key => (flatIdentifier key, key)
  | .grouped tables =>
    tables.flatMap fun table =>
      table.fields.map fun field =>
        (groupedIdentifier table.name field, groupedLabel table.name field)

/-- The keys of the data of the default version; a list names its keys by its elements. -/
def ofSource : Source → Canonical
  | .literal records => .flat (records.map (·.1))
  | .keyed records => .flat (records.map (·.1))
  | .list elements => .flat elements
  | .grouped tables => .grouped (tables.map fun table => ⟨table.1, table.2.map (·.1)⟩)

end Canonical

/-- The values of one version, in the order of the identifiers. -/
structure VersionRow where
  name : String
  values : List String
deriving DecidableEq

/-- Identifiers, and for each version a value of each. -/
structure ReconciledTable where
  identifiers : List String
  rows : List VersionRow
deriving DecidableEq

namespace ReconciledTable

/-- The names of the versions, in order. -/
def versionNames (table : ReconciledTable) : List String :=
  table.rows.map (·.name)

/-- The first row of a version. -/
def row? (table : ReconciledTable) (version : String) : Option VersionRow :=
  table.rows.find? fun row => row.name == version

/-- The place of an identifier. -/
def index? (table : ReconciledTable) (identifier : String) : Option Nat :=
  table.identifiers.idxOf? identifier

/-- The value of an identifier in a version. -/
def get? (table : ReconciledTable) (version identifier : String) : Option String := do
  let index ← table.index? identifier
  let row ← table.row? version
  row.values[index]?

/-- The identifiers with their values in a version. -/
def entries? (table : ReconciledTable) (version : String) : Option (List (String × String)) :=
  (table.row? version).map fun row => table.identifiers.zip row.values

end ReconciledTable

/-- The last value that a key has among some entries. -/
def lastValue? {α : Type} (entries : List (String × α)) (key : String) : Option α :=
  entries.reverse.lookup key

/-- Takes the values of the keys out of some entries, key by key; nothing may be left over. Keys are
shown through `label` when one is missing or left over. -/
def takeKeys {α : Type} (version : String) (label : String → String) :
    List String → List (String × α) → Checked (List α)
  | [], [] => .ok []
  | [], left => .error (.undefinedKeys version (left.map fun entry => label entry.1))
  | key :: keys, entries =>
    match lastValue? entries key with
    | none => .error (.missingKey version (label key))
    | some value => do
      let rest := entries.filter fun entry => entry.1 != key
      return value :: (← takeKeys version label keys rest)

/-- The elements of a list, if there is one for each key. A superfluous element is shown by its
place. -/
def takePositions (version : String) (keys elements : List String) : Checked (List String) :=
  match keys[elements.length]? with
  | some missing => .error (.missingKey version missing)
  | none =>
    if keys.length < elements.length then
      .error (.undefinedKeys version
        ((List.range' keys.length (elements.length - keys.length)).map fun i =>
          "[" ++ toString i ++ "]"))
    else .ok elements

/-- The values of flat data, in the order of the keys. -/
def alignFlat (version : String) (keys : List String) : Source → Checked (List String)
  | .literal records => takeKeys version id keys records
  | .keyed records => takeKeys version id keys records
  | .list elements => takePositions version keys elements
  | .grouped _ => .error (.invalidVersion version .groupedAmongFlat)

/-- The values of tables that belong to given tables of keys, table by table. -/
def alignTables (version : String) : List KeyTable → List Records → Checked (List String)
  | table :: tables, records :: rest => do
    let values ← takeKeys version (groupedLabel table.name) table.fields records
    return values ++ (← alignTables version tables rest)
  | _, _ => .ok []

/-- The values of grouped data, in the order of the keys. -/
def alignGrouped (version : String) (tables : List KeyTable) : Source → Checked (List String)
  | .grouped own => do
    alignTables version tables (← takeKeys version id (tables.map (·.name)) own)
  | _ => .error (.invalidVersion version .flatAmongGrouped)

/-- The values of a version in the order of the canonical keys. -/
def alignVersion (keys : Canonical) (version : Version) : Checked VersionRow := do
  let values ← match keys with
    | .flat keys => alignFlat version.1 keys version.2
    | .grouped tables => alignGrouped version.1 tables version.2
  return ⟨version.1, values⟩

/-- A registry with one claim after the other. -/
def claimAll : Registry → List (String × String) → Checked Registry
  | scope, [] => .ok scope
  | scope, (identifier, key) :: rest =>
    match scope.claim identifier key with
    | .error clash => .error (.duplicateIdentifier clash)
    | .ok scope => claimAll scope rest

/-- The canonical keys and the table of some versions. -/
def reconcile (versions : List Version) (defaultVersion : String) :
    Checked (Canonical × ReconciledTable) :=
  match versions.lookup defaultVersion with
  | none => .error (.invalidVersion defaultVersion .undefinedDefault)
  | some source => do
    let keys := Canonical.ofSource source
    let rows ← versions.mapM (alignVersion keys)
    let _ ← claimAll .empty keys.claims
    return (keys, ⟨keys.claims.map (·.1), rows⟩)

end ResourceTables
