import ResourceTables.Document.Json
import ResourceTables.Naming

/-!
# Reading naming decisions

The naming decisions of a run as a document value: a map whose entries may be left out, or an array
of the entries in order. Unknown entries of a map are not looked at.

## Main definitions

* `ListMode.ofValue?`: a list mode, by its name.
* `Naming.ofValue?`: the decisions in a value.
* `Naming.ofJson?`: the decisions in a JSON text.
-/

namespace ResourceTables

/-- The name of a list mode. -/
def ListMode.name : ListMode → String
  | .firstField => "first-field"
  | .wholeLine => "whole-line"

/-- The list mode with a name. -/
def ListMode.ofName? (name : String) : Option ListMode :=
  [ListMode.firstField, .wholeLine].find? fun mode => mode.name = name

/-- A list mode: its name, or a map from its name to null. -/
def ListMode.ofValue? : Value → Option ListMode
  | .string name => ofName? name
  | .map [(name, .null)] => ofName? name
  | _ => none

/-- A text of one character. -/
def singleChar? (text : String) : Option Char :=
  match text.toList with
  | [c] => some c
  | _ => none

namespace Naming

/-- Decisions from the entries there are. -/
def ofEntries? (versionPrefix? separator? listMode? : Option Value) : Option Naming := do
  let versionPrefix ← match versionPrefix? with
    | none => pure ({} : Naming).versionPrefix
    | some (.string text) => pure text
    | some _ => failure
  let separator ← match separator? with
    | none => pure ({} : Naming).separator
    | some (.string text) => singleChar? text
    | some _ => failure
  let listMode ← match listMode? with
    | none => pure ({} : Naming).listMode
    | some value => ListMode.ofValue? value
  return { versionPrefix, separator, listMode }

/-- The names of the entries, in order. -/
def entryNames : List String :=
  ["version_key_prefix", "separator", "list_mode"]

/-- The decisions in a value. -/
def ofValue? : Value → Option Naming
  | .map entries =>
    ofEntries? (entries.lookup "version_key_prefix") (entries.lookup "separator")
      (entries.lookup "list_mode")
  | .array items => if items.length ≤ 3 then ofEntries? items[0]? items[1]? items[2]? else none
  | _ => none

/-- A term that may be the value of an entry: no entry is an object of several members. -/
def isEntryTerm : JsonTerm → Bool
  | .object members => members.length == 1
  | _ => true

/-- The entries of an object that have a known name. Values of other entries are not looked at. -/
def knownMembers? : List (List JsonUnit × JsonTerm) → Option (List (String × Value))
  | [] => some []
  | (key, term) :: rest => do
    let name ← JsonUnit.text? key
    if entryNames.contains name then
      let value ← if isEntryTerm term then term.value? jsonLevels else none
      return (name, value) :: (← knownMembers? rest)
    else
      knownMembers? rest

/-- The decisions in a JSON text. A known entry must not be repeated. -/
def ofJson? (text : String) : Option Naming := do
  match ← JsonTerm.ofText? text with
  | .object members =>
    let entries ← knownMembers? members
    if (entries.map (·.1)).Nodup then ofValue? (.map entries) else none
  | .array items =>
    if items.all isEntryTerm then ofValue? (← (JsonTerm.array items).value? jsonLevels) else none
  | _ => none

/-- The decisions as a value. -/
def toValue (naming : Naming) : Value :=
  .map [("version_key_prefix", .string naming.versionPrefix),
    ("separator", .string (String.singleton naming.separator)),
    ("list_mode", .string naming.listMode.name)]

end Naming

end ResourceTables
