import ResourceTables.Document.Json
import ResourceTables.Document.Toml
import ResourceTables.Fault
import ResourceTables.Tree

/-!
# Definition documents

A definition file holds one map, written in TOML or in JSON. The extension of the file tells which.

## Main definitions

* `Format`: the two notations.
* `Document`: the entries of a definition file, with the file they came from.
* `Document.decode`, `Document.read`: the document in a text or a file.
* `Document.text?`, `Document.requireText`, `Document.requireMap`: entries of an expected form.
-/

namespace ResourceTables

/-- The notation of a definition file. -/
inductive Format where
  | toml
  | json
deriving DecidableEq

/-- The notation of a file: JSON if its extension says so, in small or capital letters. -/
def Format.ofPath (path : Path) : Format :=
  match path.extension? with
  | some extension => if extension.toList.map Char.toLower = "json".toList then .json else .toml
  | none => .toml

/-- The value of a text in a notation. -/
def Format.value? : Format → String → Option Value
  | .toml, text => Value.ofToml? text
  | .json, text => Value.ofJson? text

/-- The entries of a definition file. -/
structure Document where
  file : Path
  entries : List (String × Value)
deriving DecidableEq

namespace Document

/-- The document in a text. -/
def decode (file : Path) (text : String) (format : Format) : Checked Document :=
  match format.value? text with
  | some (.map entries) => .ok ⟨file, entries⟩
  | some _ => .error (.undecodable file .notAMap)
  | none => .error (.undecodable file .malformed)

/-- The document in a file. -/
def read (tree : Tree) (file : Path) : Checked Document :=
  match tree.readText file with
  | .ok text => decode file text (.ofPath file)
  | .error fault => .error (.tree file fault)

/-- An entry. -/
def get? (document : Document) (field : String) : Option Value :=
  document.entries.lookup field

/-- The text of an entry, which may be absent or null. -/
def text? (document : Document) (field : String) : Checked (Option String) :=
  match document.get? field with
  | none => .ok none
  | some .null => .ok none
  | some (.string text) => .ok (some text)
  | some _ => .error (.definition document.file (.notText field))

/-- The text of an entry. -/
def requireText (document : Document) (field : String) : Checked String := do
  match ← document.text? field with
  | some text => .ok text
  | none => .error (.definition document.file (.missingField field))

/-- The entries of an entry that is a map. -/
def requireMap (document : Document) (field : String) : Checked (List (String × Value)) :=
  match document.get? field with
  | some (.map entries) => .ok entries
  | some _ => .error (.definition document.file (.notMap field))
  | none => .error (.definition document.file (.missingField field))

end Document

end ResourceTables
