import ResourceTables.Identifier.Registry
import ResourceTables.Path
import ResourceTables.Tree.Fault

/-!
# Faults

Why a definition or a manifest is refused. Each cause is a constructor; the wording is written once
for all of them. A cause that is worded elsewhere is `stated`.

## Main definitions

* `DefinitionFlaw`, `VersionFlaw`, `DecodeFlaw`: what is wrong with a definition, a version, a text.
* `Fault`: the causes, with the file or version they belong to.
* `Fault.kind`: the coarse class of a cause.
* `Fault.message`: its wording.
-/

namespace ResourceTables

/-- What is wrong with a definition or a manifest. -/
inductive DefinitionFlaw where
  | missingField (field : String)
  | notText (field : String)
  | notMap (field : String)
  | notPath (field : String)
  | notScalar (field : String)
  | blankClass
  | unknownType (name : String)
  | tablesForConstants
  | unlistedDefault (version : String)
  | notADirectory (directory : Path)
  | repeatedTable (table : String) (directory : Path)
  | groupedConstants
  | notIdentifier (key identifier : String)
  | commentSeparator
  /-- There is no manifest at its path. -/
  | absentManifest (path : Path)
  /-- The manifest cannot be read as settings. -/
  | unreadableSettings
  | stated (message : String)
deriving DecidableEq

/-- The wording of a flaw. -/
def DefinitionFlaw.message : DefinitionFlaw → String
  | .missingField field => "missing required field '" ++ field ++ "'"
  | .notText field => "field '" ++ field ++ "' must be a string"
  | .notMap field => "field '" ++ field ++ "' must be a map"
  | .notPath field => "field '" ++ field ++ "' must be a file path"
  | .notScalar field => "field '" ++ field ++ "' must be a string, number or boolean"
  | .blankClass => "field 'class' must not be empty"
  | .unknownType name => "unknown type '" ++ name ++ "'"
  | .tablesForConstants => "type 'csv-grouped' is only supported for versioned values"
  | .unlistedDefault version =>
    "default version '" ++ version ++ "' is not one of the versions"
  | .notADirectory directory => "'" ++ directory.text ++ "' is not a directory"
  | .repeatedTable table directory =>
    "table '" ++ table ++ "' is defined by more than one file in " ++ directory.text
  | .groupedConstants => "grouped data cannot be compiled to constants"
  | .notIdentifier key identifier =>
    "'" ++ key ++ "' does not form a valid identifier (" ++ identifier ++ ")"
  | .commentSeparator => "separator '#' clashes with comment lines"
  | .absentManifest path => "configuration file \"" ++ path.text ++ "\" not found"
  | .unreadableSettings => "the manifest does not hold valid settings"
  | .stated message => message

/-- What is wrong with a version. -/
inductive VersionFlaw where
  | undefinedDefault
  | groupedAmongFlat
  | flatAmongGrouped
  | stated (reason : String)
deriving DecidableEq

/-- The wording of a flaw. -/
def VersionFlaw.message : VersionFlaw → String
  | .undefinedDefault => "default version is not defined"
  | .groupedAmongFlat => "grouped tables given where the default version is flat"
  | .flatAmongGrouped => "flat data given where the default version is grouped"
  | .stated reason => reason

/-- What is wrong with a text that should be a document. -/
inductive DecodeFlaw where
  /-- The text has a value, but it is not a map. -/
  | notAMap
  /-- The text has no value. -/
  | malformed
  | stated (message : String)
deriving DecidableEq

/-- The wording of a flaw. -/
def DecodeFlaw.message : DecodeFlaw → String
  | .notAMap => "top level must be a map"
  | .malformed => "malformed document"
  | .stated message => message

/-- Why a definition or a manifest is refused. -/
inductive Fault where
  | definition (file : Path) (flaw : DefinitionFlaw)
  | malformedRow (file : Path) (line : Nat)
  | missingKey (version key : String)
  | undefinedKeys (version : String) (keys : List String)
  | invalidVersion (version : String) (flaw : VersionFlaw)
  | duplicateIdentifier (clash : Clash)
  | undecodable (file : Path) (flaw : DecodeFlaw)
  | tree (path : Path) (fault : TreeFault)
deriving DecidableEq

/-- The coarse class of a fault. -/
inductive FaultKind where
  | configuration
  | malformedRow
  | missingKey
  | undefinedKeys
  | duplicateIdentifier
  | undecodable
  | tree
deriving DecidableEq

namespace Fault

/-- The coarse class of a fault. -/
def kind : Fault → FaultKind
  | .definition .. => .configuration
  | .invalidVersion .. => .configuration
  | .malformedRow .. => .malformedRow
  | .missingKey .. => .missingKey
  | .undefinedKeys .. => .undefinedKeys
  | .duplicateIdentifier .. => .duplicateIdentifier
  | .undecodable .. => .undecodable
  | .tree .. => .tree

/-- The version that failed to agree with the default version. -/
def version? : Fault → Option String
  | .missingKey version _ => some version
  | .undefinedKeys version _ => some version
  | .invalidVersion version _ => some version
  | _ => none

/-- The key that a version lacks. -/
def key? : Fault → Option String
  | .missingKey _ key => some key
  | _ => none

/-- The keys that a version has beyond the default version. -/
def keys : Fault → List String
  | .undefinedKeys _ keys => keys
  | _ => []

/-- The wording of a fault. -/
def message : Fault → String
  | .definition file flaw => "Invalid definition " ++ file.text ++ ": " ++ flaw.message
  | .malformedRow file line => toString line ++ ". line in " ++ file.text ++ " has bad format."
  | .missingKey version key => "Value key (" ++ key ++ ") missing in version: " ++ version
  | .undefinedKeys version keys =>
    "Keys found in version (" ++ version ++ ") that were not defined in default version: " ++
      ",".intercalate keys
  | .invalidVersion version flaw => "Invalid version " ++ version ++ ": " ++ flaw.message
  | .duplicateIdentifier clash =>
    "Identifier " ++ clash.identifier ++ " is produced by both '" ++ clash.first ++ "' and '" ++
      clash.second ++ "'"
  | .undecodable file flaw => "Cannot decode " ++ file.text ++ ": " ++ flaw.message
  | .tree path fault => "IO error on " ++ path.text ++ ": " ++ fault.message

end Fault

/-- A result, or the fault that prevents it. -/
abbrev Checked (α : Type) := Except Fault α

end ResourceTables
