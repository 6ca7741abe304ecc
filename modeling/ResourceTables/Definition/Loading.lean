import ResourceTables.Definition
import ResourceTables.Definition.Namespace
import ResourceTables.Document

/-!
# Loading definitions

From a definition document to a definition. Only this module looks at the form of a document; data
files are read relative to the directory of the definition.

## Main definitions

* `flatRecords`, `groupedRecords`: records written in a document.
* `readTableDirectory`: the tables in a directory.
* `loadSource`, `loadVersions`: the data of a definition.
* `loadDefinition`: the definition in a file.
-/

namespace ResourceTables

/-- What a definition is loaded with: the decisions of the run, the module path that all definitions
are under, and the file tree. -/
structure Loading where
  naming : Naming
  namespaceRoot : List String
  tree : Tree

/-- The text of a scalar of a document. -/
def scalarText? : Value → Option String
  | .string text => some text
  | .number number => some number.write
  | .boolean value => some (writeBool value)
  | _ => none

/-- The entries of a value that must be a map. -/
def expectMap (file : Path) (field : String) : Value → Checked (List (String × Value))
  | .map entries => .ok entries
  | _ => .error (.definition file (.notMap field))

/-- The text of a value that must be a path. -/
def expectPath (file : Path) (field : String) : Value → Checked Path
  | .string text => .ok ⟨text⟩
  | _ => .error (.definition file (.notPath field))

/-- The field of an entry. -/
def subfield (field key : String) : String :=
  field ++ "." ++ key

/-- The records in a map whose entries are scalars. -/
def flatRecords (file : Path) (field : String) : List (String × Value) → Checked Records
  | [] => .ok []
  | (key, value) :: rest =>
    match scalarText? value with
    | none => .error (.definition file (.notScalar (subfield field key)))
    | some text => do return (key, text) :: (← flatRecords file field rest)

/-- The tables in a map whose entries are maps of scalars. -/
def groupedRecords (file : Path) (field : String) :
    List (String × Value) → Checked (List (String × Records))
  | [] => .ok []
  | (table, value) :: rest => do
    let name := subfield field table
    let records ← flatRecords file name (← expectMap file name value)
    return (table, records) :: (← groupedRecords file field rest)

/-- The part of a file name that names a table. -/
def tableName (fileName : String) : String :=
  (Path.stem? ⟨fileName⟩).getD ""

/-- The tables in the files of a directory, in order, if their names differ from each other and from
those seen before. -/
def readTables (loading : Loading) (file directory : Path) :
    List String → List String → Checked (List (String × Records))
  | _, [] => .ok []
  | seen, fileName :: rest => do
    let table := tableName fileName
    if seen.contains table then .error (.definition file (.repeatedTable table directory))
    else
      let records ← Table.readRecords loading.naming loading.tree (directory.join ⟨fileName⟩)
      return (table, records) :: (← readTables loading file directory (table :: seen) rest)

/-- The names of the files that hold tables: those that do not start with a dot. -/
def tableFiles (children : List (String × Entry)) : List String :=
  children.filterMap fun (name, entry) =>
    match entry with
    | .file _ => if name.toList.head? = some '.' then none else some name
    | .directory => none

/-- The tables in a directory, one per file, in the order of the file names. -/
def readTableDirectory (loading : Loading) (file directory : Path) :
    Checked (List (String × Records)) :=
  if loading.tree.isDirectory directory then
    readTables loading file directory [] (tableFiles (loading.tree.children directory))
  else
    .error (.definition file (.notADirectory directory))

/-- The directory of a definition file. -/
def directoryOf (file : Path) : Path :=
  file.parent?.getD ⟨""⟩

/-- The path that a value names, relative to the directory of the definition. -/
def dataPath (file : Path) (field : String) (value : Value) : Checked Path := do
  return (directoryOf file).join (← expectPath file field value)

/-- The data of a version, or of a set of constants, in the form that the flag asks for. -/
def loadSource (loading : Loading) (file : Path) (field : String) (kind : SourceKind)
    (grouped : Bool) (value : Value) : Checked Source :=
  match kind with
  | .inline => do
    let entries ← expectMap file field value
    if grouped then return .grouped (← groupedRecords file field entries)
    else return .literal (← flatRecords file field entries)
  | .flatList => do
    return .list (← Table.readList loading.naming loading.tree (← dataPath file field value))
  | .keyedTable => do
    return .keyed (← Table.readRecords loading.naming loading.tree (← dataPath file field value))
  | .tableDirectory => do
    return .grouped (← readTableDirectory loading file (← dataPath file field value))

/-- The versions of a definition, in order. -/
def loadEach (loading : Loading) (file : Path) (kind : SourceKind) (grouped : Bool) :
    List (String × Value) → Checked (List Version)
  | [] => .ok []
  | (name, value) :: rest => do
    let source ← loadSource loading file (subfield "versions" name) kind grouped value
    return (name, source) :: (← loadEach loading file kind grouped rest)

/-- The entry of a version nests maps. -/
def nestsMaps : Value → Bool
  | .map entries => entries.any fun entry => entry.2.isMap
  | _ => false

/-- The versions of a definition. Data written in the definition is grouped if the default version
nests maps. -/
def loadVersions (loading : Loading) (document : Document) (kind : SourceKind) : Checked Body := do
  let defaultVersion ← document.requireText "defaultVersion"
  let entries ← document.requireMap "versions"
  match entries.lookup defaultVersion with
  | none => .error (.definition document.file (.unlistedDefault defaultVersion))
  | some value =>
    return .values (← loadEach loading document.file kind (nestsMaps value) entries) defaultVersion

/-- The constants of a definition. -/
def loadConstants (loading : Loading) (document : Document) (kind : SourceKind) : Checked Body :=
  match document.get? "data" with
  | none => .error (.definition document.file (.missingField "data"))
  | some value =>
    if kind = .tableDirectory then .error (.definition document.file .tablesForConstants)
    else do return .constants (← loadSource loading document.file "data" kind false value)

/-- The definition in a document. -/
def loadDocument (loading : Loading) (document : Document) (mode : Mode) : Checked Definition := do
  let file := document.file
  let className ← document.requireText "class"
  if (Text.trim className.toList).isEmpty then throw (.definition file .blankClass)
  let kindName ← document.requireText "type"
  match SourceKind.ofName? kindName with
  | none => .error (.definition file (.unknownType kindName))
  | some kind =>
    let addedNamespace := ((← document.text? "addNamespace").map namespaceSegments).getD []
    let versionPrefix ← document.text? "versionKeyPrefix"
    let body ← match mode with
      | .constants => loadConstants loading document kind
      | .values => loadVersions loading document kind
    return {
      source := file
      className
      namespacePath := loading.namespaceRoot ++ addedNamespace
      addedNamespace
      kind
      versionPrefix
      body }

/-- The definition in a file. -/
def loadDefinition (loading : Loading) (file : Path) (mode : Mode) : Checked Definition := do
  loadDocument loading (← Document.read loading.tree file) mode

end ResourceTables
