import ResourceTables.Document.Value
import ResourceTables.GeneratedModule

/-!
# Generated modules as values

The description of a generated module as a document value, for tools that inspect it.

## Main definitions

* `GeneratedModule.toValue`: a description as a value.
-/

namespace ResourceTables

/-- A constant as a value. -/
def Constant.toValue (constant : Constant) : Value :=
  let value : Value :=
    match constant.value with
    | .index place =>
      .map [("kind", .string "index"), ("literal", .number (.integer place))]
    | .text text => .map [("kind", .string "str"), ("literal", .string text)]
  .map [("name", .string constant.name), ("value", value)]

/-- A reconciled table as a value. -/
def ReconciledTable.toValue (table : ReconciledTable) : Value :=
  .map [("identifiers", .texts table.identifiers),
    ("versions", .array (table.rows.map fun row =>
      .map [("name", .string row.name), ("values", .texts row.values)]))]

/-- What values are looked up in, as a value. -/
def Lookup.toValue (lookup : Lookup) : Value :=
  .map [("table", lookup.table.toValue),
    ("default_version", .string lookup.defaultVersion),
    ("allowed_versions", .texts lookup.allowedVersions)]

/-- A type that holds the keys of a table, as a value. -/
def KeyModule.toValue (keys : KeyModule) : Value :=
  .map [("name", .string keys.name), ("table", .string keys.table),
    ("constants", .array (keys.constants.map Constant.toValue))]

/-- The description of a generated module as a value. -/
def GeneratedModule.toValue (generated : GeneratedModule) : Value :=
  .map [("class_name", .string generated.className),
    ("namespace_path", .texts generated.namespacePath),
    ("output_dir", .texts generated.directories),
    ("source", .string generated.source.text),
    ("constants", .array (generated.constants.map Constant.toValue)),
    ("lookup", (generated.lookup?.map Lookup.toValue).getD .null),
    ("key_modules", .array (generated.keyModules.map KeyModule.toValue))]

end ResourceTables
