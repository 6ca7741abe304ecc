import ResourceTables.Definition.Namespace
import ResourceTables.Document
import ResourceTables.Manifest.Setting
import ResourceTables.Naming.Decoding

/-!
# Manifests

A manifest describes a run: where generated files go, the module path they are under, the naming
decisions, and the definitions to compile. It is a file of settings, over which settings from the
environment take precedence.

## Main definitions

* `Configuration`: the directories and the module path of a run.
* `Manifest`: a run.
* `Environment`: the variables of the environment.
* `Manifest.settings?`: the settings in a file under an environment.
* `Manifest.ofSettings`: the run that settings describe.
* `Manifest.load`: the run that a manifest file describes.
-/

namespace ResourceTables

open Text

/-- The directories and the module path of a run. -/
structure Configuration where
  /-- The output directory, relative to the base directory. -/
  outputRoot : Path
  /-- The module path that all generated modules are under. -/
  namespaceRoot : String
  /-- The directory that paths are relative to. -/
  baseDirectory : Path
deriving DecidableEq

namespace Configuration

/-- The segments of the module path. -/
def namespaceSegments (configuration : Configuration) : List String :=
  ResourceTables.namespaceSegments configuration.namespaceRoot

/-- The output directory. -/
def outputDirectory (configuration : Configuration) : Path :=
  configuration.baseDirectory.join configuration.outputRoot

/-- A path taken relative to the base directory. -/
def resolve (configuration : Configuration) (path : Path) : Path :=
  configuration.baseDirectory.join path

end Configuration

/-- A run. -/
structure Manifest where
  path : Path
  configuration : Configuration
  naming : Naming
  /-- The definitions that are compiled to constants. -/
  constants : List Path
  /-- The definitions that are compiled to versioned tables. -/
  values : List Path
deriving DecidableEq

/-- The variables of the environment with their values. -/
abbrev Environment := List (String × String)

/-- Replaces pairs of underscores by dots, from the left. -/
def dotUnderscores : List Char → List Char
  | '_' :: '_' :: rest => '.' :: dotUnderscores rest
  | c :: rest => c :: dotUnderscores rest
  | [] => []

/-- The name of the setting that a variable sets, if it sets one. -/
def settingName? (name : String) : Option String :=
  (afterStart? "resgen_".toList (toLower name).toList).map fun rest =>
    String.ofList (dotUnderscores rest)

namespace Manifest

/-- The file with the settings of a manifest and its notation: the path itself if it is a file,
which must then have a known extension, or else the path with an extension added. -/
def settingsFile? (tree : Tree) (path : Path) : Option (Path × Format) :=
  let formats := [(Format.toml, "toml"), (Format.json, "json")]
  if tree.isFile path then
    (formats.find? fun format => path.extension? = some format.2).map fun format =>
      (path, format.1)
  else
    match path.fileName?, path.steps.getLast? with
    | some _, some (_, length) =>
      formats.findSome? fun format =>
        let extended : Path := ⟨(path.upTo length).text ++ "." ++ format.2⟩
        if tree.isFile extended then some (extended, format.1) else none
    | _, _ => none

/-- The settings in a text. -/
def parseSettings? (format : Format) (text : String) : Option (List (String × Setting)) :=
  match format with
  | .toml => (TomlValue.ofText? text).map Setting.ofTomlEntries
  | .json =>
    match Value.ofJson? text with
    | some (.map entries) => some (Setting.ofValueEntries entries)
    | _ => none

/-- The text of a manifest file, whatever bytes it holds, after a byte order mark. -/
def settingsText? (tree : Tree) (file : Path) : Option String :=
  match tree.find file with
  | .ok (_, .file content) => some (dropMark content.repaired)
  | _ => none

/-- The settings in a file, and over them those of the environment. -/
def settings? (tree : Tree) (environment : Environment) (file : Path) (format : Format) :
    Option Setting := do
  let text ← settingsText? tree file
  let entries ← parseSettings? format text
  let overrides := environment.filterMap fun (name, value) =>
    (settingName? name).map fun key => (key, Setting.text value)
  return (entries ++ overrides).foldl
    (fun settings (key, value) => settings.putNamed key value) (.table [])

/-- A setting that may be absent or null. -/
def optionalText? (settings : Setting) (key : String) : Option (Option String) :=
  match settings.entries.lookup key with
  | none => some none
  | some .null => some none
  | some setting => setting.asText?.map some

/-- A list of paths, which may be absent. -/
def pathList? (settings : Setting) (key : String) : Option (List Path) :=
  match settings.entries.lookup key with
  | none => some []
  | some (.list items) => items.mapM fun item => item.asText?.map Path.mk
  | some _ => none

/-- A list mode: its name in small or capital letters, or a table with this key alone. -/
def listMode? : Setting → Option ListMode
  | .text name => ListMode.ofName? (toLower name)
  | .table [(name, _)] => ListMode.ofName? (toLower name)
  | _ => none

/-- Naming decisions from the settings there are. -/
def namingOf? (versionPrefix? separator? listModeSetting? : Option Setting) : Option Naming := do
  let versionPrefix ← match versionPrefix? with
    | none => pure ({} : Naming).versionPrefix
    | some setting => setting.asText?
  let separator ← match separator? with
    | none => pure ({} : Naming).separator
    | some (.text text) => singleChar? text
    | some _ => failure
  let listMode ← match listModeSetting? with
    | none => pure ({} : Naming).listMode
    | some setting => listMode? setting
  return { versionPrefix, separator, listMode }

/-- The naming decisions of a run, which may be absent, a table, or a list of the entries in
order. -/
def naming? (settings : Setting) : Option Naming :=
  match settings.entries.lookup "naming" with
  | none => some {}
  | some (.table entries) =>
    namingOf? (entries.lookup "version_key_prefix") (entries.lookup "separator")
      (entries.lookup "list_mode")
  | some (.list items) => namingOf? items[0]? items[1]? items[2]?
  | some _ => none

/-- The run that settings describe. -/
def ofSettings (path : Path) (settings : Setting) : Checked Manifest := do
  let fields := do
    let output ← optionalText? settings "output"
    let namespaceRoot ← optionalText? settings "namespace"
    return (output, namespaceRoot, ← pathList? settings "constants", ← pathList? settings "values",
      ← naming? settings)
  match fields with
  | none => .error (.definition path .unreadableSettings)
  | some (none, _) => .error (.definition path (.missingField "output"))
  | some (some _, none, _) => .error (.definition path (.missingField "namespace"))
  | some (some output, some namespaceRoot, constants, values, naming) =>
    if naming.separator = '#' then .error (.definition path .commentSeparator)
    else
      .ok {
        path
        configuration := ⟨⟨output⟩, namespaceRoot, path.parent?.getD ⟨""⟩⟩
        naming
        constants
        values }

/-- The run that a manifest file describes under an environment. -/
def load (tree : Tree) (environment : Environment) (path : Path) : Checked Manifest :=
  match settingsFile? tree path with
  | none =>
    .error (.definition path
      (if tree.isFile path then .unreadableSettings else .absentManifest path))
  | some (file, format) =>
    match settings? tree environment file format with
    | none => .error (.definition path .unreadableSettings)
    | some settings => ofSettings path settings

end Manifest

end ResourceTables
