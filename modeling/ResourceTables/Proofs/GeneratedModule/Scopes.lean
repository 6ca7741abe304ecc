import ResourceTables.Proofs.Claims
import ResourceTables.Proofs.Reconciliation.Symmetry

/-!
# Scopes of a generated module

A description of a module of versions comes about exactly if the names of its three kinds of scope
can be claimed: the types, the constants of the class, and the constants of each key type. What the
description then holds is read off the keys and the table. A module of constants has the class and
its constants alone.

## Main definitions

* `fieldConstants`, `keyModulesFrom`: the key types of tables, with running places.
* `Canonical.classClaims`: the keys whose constants stand in the class itself.
* `classConstants`: the constants of the class.
-/

namespace ResourceTables

/-- The constants of the fields of a table, the first of which has the given place. -/
def fieldConstants (place : Nat) (fields : List String) : List Constant :=
  (fields.zipIdx place).map fun (field, place) => ⟨flatIdentifier field, .index place⟩

/-- The key types of tables; the places run on from one table to the next. -/
def keyModulesFrom : Nat → List KeyTable → List KeyModule
  | _, [] => []
  | place, table :: rest =>
    ⟨pascalCase table.name, table.name, fieldConstants place table.fields⟩ ::
      keyModulesFrom (place + table.fields.length) rest

/-- The claims of the keys whose constants stand in the class itself: all flat keys. -/
def Canonical.classClaims (identifiers : List String) : Canonical → List (String × String)
  | .flat keys => identifiers.zip keys
  | .grouped _ => []

/-- The constants of the class: of its keys, and of the versions. -/
def classConstants (naming : Naming) (canonical : Canonical) (table : ReconciledTable) :
    List Constant :=
  ((canonical.classClaims table.identifiers).zipIdx.map fun (claim, place) =>
      ⟨claim.1, .index place⟩) ++
    table.versionNames.map fun version => ⟨naming.versionIdentifier version, .text version⟩

@[simp] theorem map_name_fieldConstants (place : Nat) (fields : List String) :
    (fieldConstants place fields).map (·.name) = fields.map flatIdentifier := by
  induction fields generalizing place with
  | nil => rfl
  | cons field rest ih => simpa [fieldConstants] using ih (place + 1)

@[simp] theorem map_name_keyModulesFrom (place : Nat) (tables : List KeyTable) :
    (keyModulesFrom place tables).map (·.name) = tables.map fun table => pascalCase table.name := by
  induction tables generalizing place with
  | nil => rfl
  | cons table rest ih => simp [keyModulesFrom, ih]

@[simp] theorem map_table_keyModulesFrom (place : Nat) (tables : List KeyTable) :
    (keyModulesFrom place tables).map (·.table) = tables.map (·.name) := by
  induction tables generalizing place with
  | nil => rfl
  | cons table rest ih => simp [keyModulesFrom, ih]

/-- A key type and its constants are named for a table and its fields. -/
theorem exists_table_of_mem_keyModulesFrom {tables : List KeyTable} {start : Nat} {keys : KeyModule}
    (hKeys : keys ∈ keyModulesFrom start tables) :
    ∃ table ∈ tables, keys.name = pascalCase table.name ∧
      keys.constants.map (·.name) = table.fields.map flatIdentifier := by
  induction tables generalizing start with
  | nil => simp [keyModulesFrom] at hKeys
  | cons first rest ih =>
    rcases List.mem_cons.mp hKeys with rfl | hRest
    · exact ⟨first, List.mem_cons_self, rfl, map_name_fieldConstants start first.fields⟩
    · obtain ⟨table, hTable, hNames⟩ := ih hRest
      exact ⟨table, List.mem_cons_of_mem _ hTable, hNames⟩

/-- The constants of claimed keys have the claimed names. -/
theorem map_name_keyConstants (claims : List (String × String)) :
    (claims.zipIdx.map fun (claim, place) => (⟨claim.1, .index place⟩ : Constant)).map (·.name) =
      claims.map (·.1) := by
  have hClaims := congrArg (List.map (·.1)) (List.zipIdx_map_fst 0 claims)
  rw [List.map_map] at hClaims ⊢
  exact hClaims

/-- The names of the constants of the class are the identifiers of its keys and of the versions. -/
theorem map_name_classConstants (naming : Naming) (canonical : Canonical)
    (table : ReconciledTable) :
    (classConstants naming canonical table).map (·.name) =
      (canonical.classClaims table.identifiers).map (·.1) ++
        table.versionNames.map naming.versionIdentifier := by
  rw [classConstants, List.map_append, map_name_keyConstants, List.map_map]
  rfl

theorem describeTables_eq_ok_iff {file : Path} {types : Registry} {place : Nat}
    {tables : List KeyTable} {modules : List KeyModule} :
    describeTables file types place tables = .ok modules ↔
      (∃ scope, claimNames file types
        (tables.map fun table => (pascalCase table.name, table.name)) = .ok scope) ∧
      (∀ table ∈ tables, Claimable (table.fields.map flatIdentifier)) ∧
      modules = keyModulesFrom place tables := by
  induction tables generalizing types place modules with
  | nil => simp [describeTables, claimNames, keyModulesFrom, eq_comm]
  | cons table rest ih =>
    have hFields : (∃ scope, claimNames file .empty
        (table.fields.map fun field => (flatIdentifier field, field)) = .ok scope) ↔
        Claimable (table.fields.map flatIdentifier) := by
      rw [claimNames_empty_isOk_iff, List.map_map]
      rfl
    -- The scope of the types is handed on from table to table; that of the fields starts anew.
    simp only [describeTables, List.map_cons, claimNames, Checked.bind_eq_ok, ih,
      List.forall_mem_cons, ← hFields]
    constructor
    · rintro ⟨next, hType, scope, hScope, modules, ⟨⟨last, hLast⟩, hRest, rfl⟩, hEq⟩
      cases hEq
      exact ⟨⟨last, next, hType, hLast⟩, ⟨⟨scope, hScope⟩, hRest⟩, rfl⟩
    · rintro ⟨⟨last, next, hType, hLast⟩, ⟨⟨scope, hScope⟩, hRest⟩, rfl⟩
      exact ⟨next, hType, scope, hScope, _, ⟨⟨last, hLast⟩, hRest, rfl⟩, rfl⟩

/-- The claims of a description, in their order; flat keys have no tables. -/
theorem describeValues_eq (naming : Naming) (definition : Definition) (canonical : Canonical)
    (table : ReconciledTable) (defaultVersion : String) :
    describeValues naming definition canonical table defaultVersion = (do
      let types ← classScope definition
      let scope ← claimNames definition.source .empty (canonical.classClaims table.identifiers)
      let modules ← describeTables definition.source types 0 canonical.tables
      let naming := naming.withVersionPrefix definition.versionPrefix
      let _ ← claimNames definition.source scope
        (table.versionNames.map fun version => (naming.versionIdentifier version, version))
      if table.versionNames.contains defaultVersion then
        pure (definition.describe (classConstants naming canonical table)
          (some ⟨table, defaultVersion, table.versionNames⟩) modules)
      else .error (.invalidVersion defaultVersion .undefinedDefault)) := by
  cases canonical <;> rfl

/-- The type names are claimed in one scope: the class first, then the key types. -/
theorem typeScope_isOk_iff (definition : Definition) (tables : List KeyTable) :
    (∃ types, classScope definition = .ok types ∧ ∃ scope, claimNames definition.source types
      (tables.map fun table => (pascalCase table.name, table.name)) = .ok scope) ↔
      Claimable (definition.className :: tables.map fun table => pascalCase table.name) := by
  have hCons := claimNames_empty_isOk_iff definition.source
    ((definition.className, definition.className) ::
      tables.map fun table => (pascalCase table.name, table.name))
  rw [List.map_cons, List.map_map] at hCons
  refine Iff.trans ?_ hCons
  simp only [claimNames, Checked.bind_eq_ok, classScope]
  constructor
  · rintro ⟨types, hTypes, scope, hScope⟩
    exact ⟨scope, types, hTypes, hScope⟩
  · rintro ⟨scope, types, hTypes, hScope⟩
    exact ⟨types, hTypes, scope, hScope⟩

/-- The constants of the class are claimed in one scope: those of the keys first, then those of the
versions. -/
theorem constantScope_isOk_iff (file : Path) (naming : Naming) (canonical : Canonical)
    (table : ReconciledTable) :
    (∃ scope, claimNames file .empty (canonical.classClaims table.identifiers) = .ok scope ∧
      ∃ last, claimNames file scope
        (table.versionNames.map fun version => (naming.versionIdentifier version, version)) =
          .ok last) ↔
      Claimable ((classConstants naming canonical table).map (·.name)) := by
  rw [← claimNames_append_isOk_iff, claimNames_empty_isOk_iff, map_name_classConstants,
    List.map_append, List.map_map]
  rfl

/-- When a module of versions is described, and how: its scopes can be claimed, and the default
version is in the table. -/
theorem describeValues_eq_ok_iff {naming : Naming} {definition : Definition}
    {canonical : Canonical} {table : ReconciledTable} {defaultVersion : String}
    {generated : GeneratedModule} :
    describeValues naming definition canonical table defaultVersion = .ok generated ↔
      Claimable
        (definition.className :: canonical.tables.map fun table => pascalCase table.name) ∧
      Claimable ((classConstants (naming.withVersionPrefix definition.versionPrefix) canonical
        table).map (·.name)) ∧
      (∀ table ∈ canonical.tables, Claimable (table.fields.map flatIdentifier)) ∧
      defaultVersion ∈ table.versionNames ∧
      generated = definition.describe
        (classConstants (naming.withVersionPrefix definition.versionPrefix) canonical table)
        (some ⟨table, defaultVersion, table.versionNames⟩)
        (keyModulesFrom 0 canonical.tables) := by
  rw [describeValues_eq]
  simp only [Checked.bind_eq_ok, describeTables_eq_ok_iff,
    ← typeScope_isOk_iff,
    ← constantScope_isOk_iff definition.source]
  constructor
  · rintro ⟨types, hTypes, scope, hKeys, modules, ⟨hTables, hFields, rfl⟩, last, hVersions, h⟩
    split at h
    · next hDefault =>
      cases h
      exact ⟨⟨types, hTypes, hTables⟩, ⟨scope, hKeys, last, hVersions⟩, hFields,
        List.contains_iff_mem.mp hDefault, rfl⟩
    · cases h
  · rintro ⟨⟨types, hTypes, hTables⟩, ⟨scope, hKeys, last, hVersions⟩, hFields, hDefault, rfl⟩
    refine ⟨types, hTypes, scope, hKeys, _, ⟨hTables, hFields, rfl⟩, last, hVersions, ?_⟩
    rw [if_pos (List.contains_iff_mem.mpr hDefault)]
    rfl

/-- When a module of constants is described, and how: the data is not grouped, the class can be
named, and its constants can be claimed. -/
theorem describeConstants_eq_ok_iff {definition : Definition} {source : Source}
    {generated : GeneratedModule} :
    describeConstants definition source = .ok generated ↔
      ∃ entries, flatEntries? source = some entries ∧ isIdentifier definition.className = true ∧
        Claimable (entries.map fun entry => flatIdentifier entry.1) ∧
        generated = definition.describe
          (entries.map fun entry => ⟨flatIdentifier entry.1, .text entry.2⟩) none [] := by
  have hClass : (∃ types, classScope definition = .ok types) ↔
      isIdentifier definition.className = true := by
    simp [classScope, claimName_eq_ok_iff, claim_eq_ok_iff, Registry.identifiers, Registry.empty]
  cases hEntries : flatEntries? source with
  | none => simp [describeConstants, Checked.bind_eq_ok, hEntries]
  | some entries =>
    have hScope := claimNames_empty_isOk_iff definition.source
      (entries.map fun entry => (flatIdentifier entry.1, entry.1))
    rw [List.map_map] at hScope
    simp only [describeConstants, hEntries, Checked.bind_eq_ok, Option.some.injEq,
      exists_eq_left', ← hClass]
    constructor
    · rintro ⟨types, hTypes, scope, hClaims, hEq⟩
      cases hEq
      exact ⟨⟨types, hTypes⟩, hScope.mp ⟨scope, hClaims⟩, rfl⟩
    · rintro ⟨⟨types, hTypes⟩, hClaimable, rfl⟩
      obtain ⟨scope, hClaims⟩ := hScope.mpr hClaimable
      exact ⟨types, hTypes, scope, hClaims, rfl⟩

theorem describe_values_eq_ok_iff {naming : Naming} {definition : Definition}
    {versions : List Version} {defaultVersion : String} {generated : GeneratedModule}
    (hBody : definition.body = .values versions defaultVersion) :
    describe naming definition = .ok generated ↔
      ∃ canonical table, reconcile versions defaultVersion = .ok (canonical, table) ∧
        describeValues naming definition canonical table defaultVersion = .ok generated := by
  simp only [describe, hBody, Checked.bind_eq_ok, Prod.exists]

end ResourceTables
