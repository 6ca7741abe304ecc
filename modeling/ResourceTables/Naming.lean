import ResourceTables.Identifier.Spelling

/-!
# Naming

What a run decides once for all of its definitions: how version constants begin, which character
parts the fields of a table line, and how much of a line an element of a list is. The identifiers of
a module are made under these decisions.

## Main definitions

* `ListMode`: the part of a line that is an element of a list.
* `Naming`: the decisions of a run.
* `Naming.withVersionPrefix`: the decisions under a definition's own prefix.
* `flatIdentifier`, `groupedIdentifier`, `Naming.versionIdentifier`: names made from keys.
-/

namespace ResourceTables

/-- The part of a table line that is an element of a list. -/
inductive ListMode where
  /-- The text before the first separator, or the whole line if it has none. -/
  | firstField
  /-- The whole line. -/
  | wholeLine
deriving DecidableEq

/-- The decisions that all definitions of a run share. -/
structure Naming where
  versionPrefix : String := "VERSION_"
  separator : Char := ','
  listMode : ListMode := .firstField
deriving DecidableEq

namespace Naming

/-- The same decisions, but for a prefix of its own if a definition has one. -/
def withVersionPrefix (naming : Naming) (own : Option String) : Naming :=
  { naming with versionPrefix := own.getD naming.versionPrefix }

/-- The constant that carries the name of a version. -/
def versionIdentifier (naming : Naming) (version : String) : String :=
  naming.versionPrefix ++ constantCase version

end Naming

/-- The constant of a key of flat data. -/
def flatIdentifier (key : String) : String :=
  constantCase key

/-- The constant of a field of a table, told apart by the table's name. -/
def groupedIdentifier (table field : String) : String :=
  constantCase table ++ "_" ++ constantCase field

end ResourceTables
