import ResourceTables.Table

/-!
# Definitions

A definition names a class and says what the class offers: one set of constants, or several versions
of one table. All data is loaded by the time there is a definition.

## Main definitions

* `Source`: the data of one version, or of a set of constants.
* `SourceKind`: where a definition keeps its data.
* `Mode`: constants or versions.
* `Definition`: a class with its data.
-/

namespace ResourceTables

/-- The data of one version, or of a set of constants. -/
inductive Source where
  /-- Keys with values, written in the definition. -/
  | literal (records : Records)
  /-- Values without keys, from a file. -/
  | list (elements : List String)
  /-- Keys with values, from a file. -/
  | keyed (records : Records)
  /-- Tables of fields with values. -/
  | grouped (tables : List (String × Records))
deriving DecidableEq

namespace Source

/-- The data is parted into tables. -/
def isGrouped : Source → Bool
  | .grouped _ => true
  | _ => false

/-- The number of values. -/
def size : Source → Nat
  | .literal records => records.length
  | .keyed records => records.length
  | .list elements => elements.length
  | .grouped tables => (tables.flatMap fun table => table.2).length

/-- There are no values. -/
def isEmpty (source : Source) : Bool :=
  source.size == 0

end Source

/-- A version: its name and its data. -/
abbrev Version := String × Source

/-- Where a definition keeps its data. -/
inductive SourceKind where
  /-- In the definition itself. -/
  | inline
  /-- In a file per version, one value per line. -/
  | flatList
  /-- In a file per version, one key and value per line. -/
  | keyedTable
  /-- In a directory per version, one keyed table per file. -/
  | tableDirectory
deriving DecidableEq

/-- The kind of data with a name. -/
def SourceKind.ofName? : String → Option SourceKind
  | "in-place" => some .inline
  | "csv" => some .flatList
  | "csv-named" => some .keyedTable
  | "csv-grouped" => some .tableDirectory
  | _ => none

/-- What a definition is compiled to. -/
inductive Mode where
  /-- One text constant per value. -/
  | constants
  /-- A table to look values up by key and version. -/
  | values
deriving DecidableEq

/-- The name of a mode. -/
def Mode.name : Mode → String
  | .constants => "constants"
  | .values => "values"

/-- What a class offers. -/
inductive Body where
  | constants (source : Source)
  | values (versions : List Version) (defaultVersion : String)
deriving DecidableEq

/-- A class with its data. -/
structure Definition where
  /-- The file of the definition. -/
  source : Path
  className : String
  /-- The module path, with the part that the definition adds. -/
  namespacePath : List String
  /-- The part of the module path that the definition adds, which also names directories. -/
  addedNamespace : List String
  kind : SourceKind
  /-- The definition's own prefix of version constants. -/
  versionPrefix : Option String
  body : Body
deriving DecidableEq

/-- What a definition is compiled to. -/
def Definition.mode (definition : Definition) : Mode :=
  match definition.body with
  | .constants _ => .constants
  | .values .. => .values

end ResourceTables
