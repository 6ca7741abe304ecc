import ResourceTables.Document.Value

/-!
# Tables of a TOML text

A TOML text says in several places what its tables hold: under headers, by dotted keys, in inline
tables. This module holds the tables as they grow, with what each place may still add to them.

## Main definitions

* `TomlValue`: a finished value.
* `TomlNode`: a finished value, or a table or an array of tables that may still grow.
* `TomlFields.descend`: changes a table that a path of keys leads to.
* `TomlFields.assign?`: gives a value to a dotted key.
* `TomlFields.openTable?`, `TomlFields.openItem?`: what a header does.

## Rules

* A table that a header opened is not opened again, and dotted keys do not reach into it.
* A table that was only passed through by a header may be opened later; it then moves to the end of
  the table it belongs to.
* Dotted keys add to a table that dotted keys made, and not to one that a header passed through.
* Nothing is added to a finished value.
-/

namespace ResourceTables

/-- A finished value of a TOML text. -/
inductive TomlValue where
  | string (text : String)
  | integer (value : Int)
  | real (value : Binary)
  | boolean (value : Bool)
  /-- A date, a time, or both, in their normal form. -/
  | moment (text : String)
  | array (items : List TomlValue)
  | table (entries : List (String × TomlValue))

/-- How a table came to be. -/
inductive TomlOrigin where
  /-- By a header of its own, or as the top table. -/
  | header
  /-- By a header of a table inside it. -/
  | passed
  /-- By a dotted key. -/
  | dotted
deriving DecidableEq

/-- What a key of a growing table has. -/
inductive TomlNode where
  | value (value : TomlValue)
  | table (origin : TomlOrigin) (fields : List (String × TomlNode))
  | tables (items : List (List (String × TomlNode)))

/-- The keys of a growing table, in order. -/
abbrev TomlFields := List (String × TomlNode)

namespace TomlFields

/-- Replaces what a key has. -/
def replace (key : String) (node : TomlNode) (fields : TomlFields) : TomlFields :=
  fields.map fun field => if field.1 = key then (key, node) else field

/-- Changes the table that a path leads to. Absent tables on the way are made; arrays of tables are
entered at their last item. Dotted keys do not enter a table that has a header. -/
def descend (byDots : Bool) (change : TomlOrigin → TomlFields → Option TomlFields) :
    List String → TomlOrigin → TomlFields → Option TomlFields
  | [], origin, fields => change origin fields
  | key :: path, _, fields =>
    match fields.lookup key with
    | none => do
      let origin := if byDots then .dotted else .passed
      let made ← descend byDots change path origin []
      return fields ++ [(key, .table origin made)]
    | some (.value _) => none
    | some (.tables items) => do
      let last ← descend byDots change path .header (items.getLast?.getD [])
      return replace key (.tables (items.dropLast ++ [last])) fields
    | some (.table origin inner) =>
      if byDots ∧ origin = .header then none
      else do
        let changed ← descend byDots change path origin inner
        return replace key (.table origin changed) fields

/-- Gives a value to a new key of a table, reached by the dotted path before it. -/
def assign? (path : List String) (key : String) (value : TomlValue) (fields : TomlFields) :
    Option TomlFields :=
  let add (origin : TomlOrigin) (fields : TomlFields) : Option TomlFields :=
    if path.isEmpty == decide (origin = .dotted) then none
    else if (fields.lookup key).isSome then none
    else some (fields ++ [(key, .value value)])
  descend true add path .header fields

/-- Opens the table of a header. -/
def openTable? (path : List String) (key : String) (fields : TomlFields) : Option TomlFields :=
  let enter (_ : TomlOrigin) (fields : TomlFields) : Option TomlFields :=
    match fields.lookup key with
    | none => some (fields ++ [(key, .table .header [])])
    | some (.table .passed inner) =>
      some (fields.filter (fun field => field.1 != key) ++ [(key, .table .header inner)])
    | some _ => none
  descend false enter path .header fields

/-- Opens a new item of the array of tables of a header. -/
def openItem? (path : List String) (key : String) (fields : TomlFields) : Option TomlFields :=
  let enter (_ : TomlOrigin) (fields : TomlFields) : Option TomlFields :=
    match fields.lookup key with
    | none => some (fields ++ [(key, .tables [[]])])
    | some (.tables items) => some (replace key (.tables (items ++ [[]])) fields)
    | some _ => none
  descend false enter path .header fields

end TomlFields

mutual

/-- The finished value of a node. -/
def TomlNode.finish : TomlNode → TomlValue
  | .value value => value
  | .table _ fields => .table (finishFields fields)
  | .tables items => .array (finishItems items)

/-- The entries of a finished table. -/
def finishFields : List (String × TomlNode) → List (String × TomlValue)
  | [] => []
  | (key, node) :: rest => (key, node.finish) :: finishFields rest

/-- The items of a finished array of tables. -/
def finishItems : List (List (String × TomlNode)) → List TomlValue
  | [] => []
  | fields :: rest => .table (finishFields fields) :: finishItems rest

end

mutual

/-- The document value of a TOML value. A real that is no finite number is null, and a date or time
is a map with one entry. -/
def TomlValue.toValue : TomlValue → Value
  | .string text => .string text
  | .integer value => .number (.integer value)
  | .real value => if value.isFinite then .number (.real value) else .null
  | .boolean value => .boolean value
  | .moment text => .map [("$__toml_private_datetime", .string text)]
  | .array items => .array (toValues items)
  | .table entries => .map (toEntries entries)

/-- The document values of the items of an array. -/
def toValues : List TomlValue → List Value
  | [] => []
  | item :: rest => item.toValue :: toValues rest

/-- The entries of a map. -/
def toEntries : List (String × TomlValue) → List (String × Value)
  | [] => []
  | (key, value) :: rest => (key, value.toValue) :: toEntries rest

end

end ResourceTables
