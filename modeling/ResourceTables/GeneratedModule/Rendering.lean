import ResourceTables.Fingerprint
import ResourceTables.GeneratedModule
import ResourceTables.Text.Printable
import ResourceTables.Text.Quoted

/-!
# The text of a generated module

A generated module as a source file: a header that tells where it comes from and carries the
fingerprint of the body, and the body with the class, its constants and its table, and the types
that hold the keys of grouped data. The lines are made for any set of characters that literals show;
a file shows the printable ones.

## Main definitions

* `GeneratedModule.bodyShowing`: the file without its header, for a set of characters to show.
* `GeneratedModule.body`: the file without its header.
* `GeneratedModule.render`: the whole file.
* `Writer`: a way to write modules to files.
* `Writer.source`: the way of this module.
-/

namespace ResourceTables

open Text

/-- Lines, each with its end. -/
def unlines (lines : List String) : String :=
  String.join (lines.map (· ++ "\n"))

section Lines

variable (shown : Char → Bool)

/-- The declaration of a constant. -/
def Constant.line (constant : Constant) : String :=
  match constant.value with
  | .index place => "    pub const " ++ constant.name ++ ": usize = " ++ toString place ++ ";"
  | .text text => "    pub const " ++ constant.name ++ ": &'static str = " ++
      quote shown text ++ ";"

/-- The row of a version in the table of values. -/
def VersionRow.lines (row : VersionRow) : List String :=
  ["        // " ++ row.name, "        ["] ++
    row.values.map (fun value => "            " ++ quote shown value ++ ",") ++
    ["        ],"]

/-- The opening and the closing line of a type with members. -/
def implementation (name : String) (members : List String) : List String :=
  ["impl " ++ name ++ " \x7b"] ++ members ++ ["\x7d"]

/-- The declarations of the default version, the versions and the values. -/
def Lookup.tableLines (lookup : Lookup) : List String :=
  let rows := lookup.table.rows
  ["    const DEFAULT_VERSION: &'static str = " ++ quote shown lookup.defaultVersion ++ ";",
   "    const ALLOWED_VERSIONS: [&'static str; " ++ toString lookup.allowedVersions.length ++
     "] = [" ++ ", ".intercalate (lookup.allowedVersions.map (quote shown)) ++ "];",
   "    const VALUES: [[&'static str; " ++ toString lookup.table.identifiers.length ++ "]; " ++
     toString rows.length ++ "] = ["] ++
    rows.flatMap (VersionRow.lines shown) ++
    ["    ];"]

/-- The functions that look values up. -/
def lookupFunctions : List String :=
  ["    /// Value of `key` in `version`, if both are known",
   "    pub fn get_value(key: usize, version: &str) -> Option<&'static str> \x7b",
   "        let row = Self::ALLOWED_VERSIONS.iter().position(|v| *v == version)?;",
   "        Self::VALUES[row].get(key).copied()",
   "    \x7d",
   "",
   "    pub fn has_value(key: usize, version: &str) -> bool \x7b",
   "        Self::get_value(key, version).is_some()",
   "    \x7d",
   "",
   "    pub fn default_version() -> &'static str \x7b",
   "        Self::DEFAULT_VERSION",
   "    \x7d",
   "",
   "    pub fn is_version_allowed(version: &str) -> bool \x7b",
   "        Self::ALLOWED_VERSIONS.contains(&version)",
   "    \x7d",
   "",
   "    pub fn allowed_versions() -> &'static [&'static str] \x7b",
   "        &Self::ALLOWED_VERSIONS",
   "    \x7d"]

/-- The type that holds the keys of a table, after an empty line. -/
def KeyModule.lines (keys : KeyModule) (className : String) : List String :=
  ["",
   "/// Keys of table `" ++ keys.table ++ "`, for use with [`" ++ className ++ "::get_value`]",
   "pub struct " ++ keys.name ++ ";",
   ""] ++
    implementation keys.name (keys.constants.map (Constant.line shown))

namespace GeneratedModule

/-- The members of the class. -/
def membersShowing (generated : GeneratedModule) : List String :=
  generated.constants.map (Constant.line shown) ++
    match generated.lookup? with
    | some lookup => [""] ++ lookup.tableLines shown ++ [""] ++ lookupFunctions
    | none => []

/-- The lines of the file without its header. -/
def bodyLinesShowing (generated : GeneratedModule) : List String :=
  let heading :=
    match generated.lookup? with
    | some _ => "/// Versioned resource values"
    | none => "/// Resource constants"
  [heading, "pub struct " ++ generated.className ++ ";", ""] ++
    implementation generated.className (generated.membersShowing shown) ++
    generated.keyModules.flatMap fun keys => keys.lines shown generated.className

/-- The file without its header. -/
def bodyShowing (generated : GeneratedModule) : String :=
  unlines (generated.bodyLinesShowing shown)

end GeneratedModule

end Lines

namespace GeneratedModule

/-- The members of the class, as a file has them. -/
def members (generated : GeneratedModule) : List String :=
  generated.membersShowing isPrintable

/-- The lines of a file without its header. -/
def bodyLines (generated : GeneratedModule) : List String :=
  generated.bodyLinesShowing isPrintable

/-- The file without its header. -/
def body (generated : GeneratedModule) : String :=
  generated.bodyShowing isPrintable

/-- The name of the definition file, or its whole path if it has none. -/
def sourceName (generated : GeneratedModule) : String :=
  generated.source.fileName?.getD generated.source.text

/-- The name of the module: the class name with words apart. -/
def moduleName (generated : GeneratedModule) : String :=
  snakeCase generated.className

/-- The header of a file whose body has a fingerprint, with the empty line that ends it. -/
def header (generated : GeneratedModule) (fingerprint : Fingerprint) : String :=
  unlines
    ["//! Generated by resgen from " ++ generated.sourceName ++ " - DO NOT EDIT",
     "//!",
     "//! Module path: " ++ "::".intercalate (generated.namespacePath ++ [generated.moduleName]),
     fingerprint.headerLine,
     ""]

/-- The whole file. -/
def render (generated : GeneratedModule) : String :=
  generated.header (.of generated.body) ++ generated.body

end GeneratedModule

/-- A way to write modules to files. -/
structure Writer where
  fileName : GeneratedModule → String
  content : GeneratedModule → String

namespace Writer

/-- Modules as source files. -/
def source : Writer where
  fileName generated := generated.moduleName ++ ".rs"
  content generated := generated.render

/-- The path of the file of a module below the output directory. -/
def relativePath (writer : Writer) (generated : GeneratedModule) : Path :=
  (generated.directories ++ [writer.fileName generated]).foldl (fun path name => path.join ⟨name⟩)
    ⟨""⟩

end Writer

end ResourceTables
