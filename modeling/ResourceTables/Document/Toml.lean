import ResourceTables.Document.Toml.Term
import ResourceTables.Text.Encoding

/-!
# TOML texts

A TOML text is a sequence of lines: headers, which open a table, and keys with values, which go to
the table opened last.

## Main definitions

* `TomlLine`: a line that says something.
* `Toml.readLines`: the lines of a text.
* `TomlLine.apply?`: what a line does to the tables.
* `TomlValue.ofText?`: the top table of a text.
-/

namespace ResourceTables

open Text Text.Reader

/-- A line that says something. Keys are split into the path and the last part. -/
inductive TomlLine where
  | header (path : List String) (key : String)
  | itemHeader (path : List String) (key : String)
  | assignment (path : List String) (key : String) (value : TomlValue)

namespace Toml

/-- A header, or a key with its value. -/
def readLine : Reader TomlLine := do
  if (← peek) == some '[' then
    char '['
    if (← peek) == some '[' then
      char '['
      let (path, key) ← readKey
      word "]]"
      return .itemHeader path key
    else
      let (path, key) ← readKey
      char ']'
      return .header path key
  else
    let (path, key) ← readKey
    char '='
    spaces
    return .assignment path key (← readValue)

/-- The lines of a text that say something; the text has fewer than `fuel` lines. -/
def readLines : (fuel : Nat) → Reader (List TomlLine)
  | 0 => failure
  | fuel + 1 => do
    spaces
    match ← peek with
    | none => return []
    | some '#' => do lineEnd; readLines fuel
    | some '\n' => do newline; readLines fuel
    | some '\r' => do newline; readLines fuel
    | some _ => do
      let line ← readLine
      lineEnd
      return line :: (← readLines fuel)

end Toml

/-- The tables of a text so far, and the header that keys belong to now. -/
structure TomlState where
  fields : TomlFields := []
  current : List String := []

/-- What a line does to the tables, if it may do so. -/
def TomlLine.apply? (state : TomlState) : TomlLine → Option TomlState
  | .header path key => do
    return ⟨← state.fields.openTable? path key, path ++ [key]⟩
  | .itemHeader path key => do
    return ⟨← state.fields.openItem? path key, path ++ [key]⟩
  | .assignment path key value => do
    let assign (_ : TomlOrigin) (fields : TomlFields) := fields.assign? path key value
    return { state with fields := ← state.fields.descend false assign state.current .header }

/-- The entries of the top table of a text. A byte order mark in front is no part of it. -/
def TomlValue.ofText? (text : String) : Option (List (String × TomlValue)) := do
  let chars := (dropMark text).toList
  let lines ← (Toml.readLines (chars.length + 1)).run? chars
  let state ← lines.foldlM TomlLine.apply? {}
  return finishFields state.fields

/-- The document value of a TOML text. -/
def Value.ofToml? (text : String) : Option Value :=
  (TomlValue.ofText? text).map fun entries => .map (toEntries entries)

end ResourceTables
