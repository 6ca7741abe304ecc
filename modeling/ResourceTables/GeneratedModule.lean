import ResourceTables.Identifier
import ResourceTables.Reconciliation

/-!
# Generated modules

A generated module, described without regard to how it is written: its constants, the table its
values are looked up in, and the types that hold the keys of grouped data. A description is made
from a definition; every name in it can be spelled and is unique in its scope.

## Main definitions

* `GeneratedModule`: what a generated module holds.
* `GeneratedModule.get?`, `GeneratedModule.isAllowed`, `GeneratedModule.constant?`: its answers.
* `describeConstants`, `describeValues`: the descriptions of definitions.
-/

namespace ResourceTables

/-- The value of a constant. -/
inductive ConstantValue where
  /-- The place of a key in the table. -/
  | index (place : Nat)
  | text (text : String)
deriving DecidableEq

/-- A named constant. -/
structure Constant where
  name : String
  value : ConstantValue
deriving DecidableEq

/-- The type that holds the keys of one table of grouped data. -/
structure KeyModule where
  name : String
  /-- The name of the table in the definition. -/
  table : String
  constants : List Constant
deriving DecidableEq

/-- What values are looked up in. -/
structure Lookup where
  table : ReconciledTable
  defaultVersion : String
  allowedVersions : List String
deriving DecidableEq

/-- The description of a generated module. -/
structure GeneratedModule where
  className : String
  namespacePath : List String
  /-- The directories below the output directory. -/
  directories : List String
  /-- The definition file. -/
  source : Path
  constants : List Constant
  lookup? : Option Lookup
  keyModules : List KeyModule
deriving DecidableEq

namespace GeneratedModule

/-- The value of an identifier in a version. -/
def get? (generated : GeneratedModule) (identifier version : String) : Option String := do
  (← generated.lookup?).table.get? version identifier

/-- An identifier has a value in a version. -/
def has (generated : GeneratedModule) (identifier version : String) : Bool :=
  (generated.get? identifier version).isSome

/-- The default version. -/
def defaultVersion? (generated : GeneratedModule) : Option String :=
  generated.lookup?.map (·.defaultVersion)

/-- A version that values can be looked up in. -/
def isAllowed (generated : GeneratedModule) (version : String) : Bool :=
  generated.lookup?.any fun lookup => lookup.allowedVersions.contains version

/-- A constant of the class. -/
def constant? (generated : GeneratedModule) (name : String) : Option Constant :=
  generated.constants.find? fun constant => constant.name == name

end GeneratedModule

/-- Claims a name in a scope of a generated module, which must be able to spell it. -/
def claimName (file : Path) (scope : Registry) (identifier key : String) : Checked Registry :=
  if isIdentifier identifier then
    match scope.claim identifier key with
    | .error clash => .error (.duplicateIdentifier clash)
    | .ok scope => .ok scope
  else
    .error (.definition file (.notIdentifier key identifier))

/-- Claims names one after the other. -/
def claimNames (file : Path) : Registry → List (String × String) → Checked Registry
  | scope, [] => .ok scope
  | scope, (identifier, key) :: rest => do
    claimNames file (← claimName file scope identifier key) rest

/-- The scope of type names, which the class name is in from the start. -/
def classScope (definition : Definition) : Checked Registry :=
  claimName definition.source .empty definition.className definition.className

/-- The keys and values of a source that is not grouped; an element of a list is its own key. -/
def flatEntries? : Source → Option Records
  | .literal records => some records
  | .keyed records => some records
  | .list elements => some (elements.map fun element => (element, element))
  | .grouped _ => none

/-- The description of a definition with the given parts. -/
def Definition.describe (definition : Definition) (constants : List Constant)
    (lookup? : Option Lookup) (keyModules : List KeyModule) : GeneratedModule where
  className := definition.className
  namespacePath := definition.namespacePath
  directories := definition.addedNamespace
  source := definition.source
  constants := constants
  lookup? := lookup?
  keyModules := keyModules

/-- The description of a module of constants. -/
def describeConstants (definition : Definition) (source : Source) : Checked GeneratedModule := do
  let _ ← classScope definition
  match flatEntries? source with
  | none => .error (.definition definition.source .groupedConstants)
  | some entries =>
    let _ ← claimNames definition.source .empty
      (entries.map fun entry => (flatIdentifier entry.1, entry.1))
    let constants := entries.map fun entry => ⟨flatIdentifier entry.1, .text entry.2⟩
    return definition.describe constants none []

/-- The types that hold the keys of tables, the first of which has the given place. -/
def describeTables (file : Path) : Registry → Nat → List KeyTable → Checked (List KeyModule)
  | _, _, [] => .ok []
  | types, place, table :: rest => do
    let name := pascalCase table.name
    let types ← claimName file types name table.name
    let _ ← claimNames file .empty
      (table.fields.map fun field => (flatIdentifier field, field))
    let constants := (table.fields.zipIdx place).map fun (field, place) =>
      ⟨flatIdentifier field, .index place⟩
    let modules ← describeTables file types (place + table.fields.length) rest
    return ⟨name, table.name, constants⟩ :: modules

/-- The description of a module of versions, from the reconciled versions. -/
def describeValues (naming : Naming) (definition : Definition) (keys : Canonical)
    (table : ReconciledTable) (defaultVersion : String) : Checked GeneratedModule := do
  let file := definition.source
  let types ← classScope definition
  let keyClaims := match keys with
    | .flat keys => table.identifiers.zip keys
    | .grouped _ => []
  let scope ← claimNames file .empty keyClaims
  let keyModules ← match keys with
    | .flat _ => pure []
    | .grouped tables => describeTables file types 0 tables
  let naming := naming.withVersionPrefix definition.versionPrefix
  let versions := table.versionNames
  let _ ← claimNames file scope
    (versions.map fun version => (naming.versionIdentifier version, version))
  if versions.contains defaultVersion then
    let keyConstants := keyClaims.zipIdx.map fun (claim, place) => ⟨claim.1, .index place⟩
    let versionConstants := versions.map fun version =>
      ⟨naming.versionIdentifier version, .text version⟩
    return definition.describe (keyConstants ++ versionConstants)
      (some ⟨table, defaultVersion, versions⟩) keyModules
  else
    .error (.invalidVersion defaultVersion .undefinedDefault)

/-- The description of the module of a definition. -/
def describe (naming : Naming) (definition : Definition) : Checked GeneratedModule :=
  match definition.body with
  | .constants source => describeConstants definition source
  | .values versions defaultVersion => do
    let (keys, table) ← reconcile versions defaultVersion
    describeValues naming definition keys table defaultVersion

end ResourceTables
