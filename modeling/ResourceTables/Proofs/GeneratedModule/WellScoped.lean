import ResourceTables.Proofs.GeneratedModule.Scopes

/-!
# Well-scoped modules

A module that is described has well-formed scopes, whatever it is described from: its types are one
scope, the constants of the class another, and the constants of each key type one of their own. The
places that the key types of grouped data carry number the identifiers of the table from zero on,
across all tables.

## Main definitions

* `GeneratedModule.WellScoped`: every scope of a module holds claimable names.
* `GeneratedModule.fieldValues`: what the constants of the key types carry, in order.
-/

namespace ResourceTables

namespace GeneratedModule

/-- In each scope of a module every name can be spelled, and none comes twice. -/
structure WellScoped (generated : GeneratedModule) : Prop where
  types : Claimable (generated.className :: generated.keyModules.map (·.name))
  constants : Claimable (generated.constants.map (·.name))
  fields : ∀ keys ∈ generated.keyModules, Claimable (keys.constants.map (·.name))

/-- What the constants of the key types carry, from one key type to the next. -/
def fieldValues (generated : GeneratedModule) : List ConstantValue :=
  generated.keyModules.flatMap fun keys => keys.constants.map (·.value)

end GeneratedModule

/-! ## Modules of constants -/

theorem wellScoped_of_describeConstants {definition : Definition} {source : Source}
    {generated : GeneratedModule} (h : describeConstants definition source = .ok generated) :
    generated.WellScoped := by
  obtain ⟨entries, -, hClass, hConstants, rfl⟩ := describeConstants_eq_ok_iff.mp h
  refine ⟨⟨?_, List.nodup_singleton _⟩, ?_, ?_⟩
  · exact List.forall_mem_singleton.mpr hClass
  · rw [Definition.describe, List.map_map]
    exact hConstants
  · exact fun keys hKeys => absurd hKeys List.not_mem_nil

/-! ## Modules of versions -/

section Values

variable {naming : Naming} {definition : Definition} {canonical : Canonical}
  {table : ReconciledTable} {versions : List Version} {mainVersion defaultVersion : String}
  {generated : GeneratedModule}

theorem wellScoped_of_describeValues
    (h : describeValues naming definition canonical table defaultVersion = .ok generated) :
    generated.WellScoped := by
  obtain ⟨hTypes, hConstants, hFields, -, rfl⟩ := describeValues_eq_ok_iff.mp h
  refine ⟨?_, hConstants, fun keys hKeys => ?_⟩
  · rw [Definition.describe, map_name_keyModulesFrom]
    exact hTypes
  · obtain ⟨own, hOwn, -, hNames⟩ := exists_table_of_mem_keyModulesFrom hKeys
    rw [hNames]
    exact hFields own hOwn

theorem map_value_fieldConstants (place : Nat) (fields : List String) :
    (fieldConstants place fields).map (·.value) =
      (List.range' place fields.length).map .index := by
  induction fields generalizing place with
  | nil => rfl
  | cons field rest ih =>
    have hCons : fieldConstants place (field :: rest) =
        ⟨flatIdentifier field, .index place⟩ :: fieldConstants (place + 1) rest := rfl
    rw [hCons, List.map_cons, ih, List.length_cons, List.range'_succ, List.map_cons]

/-- The places of the key types run on from one table to the next; a table without fields takes
none. -/
theorem flatMap_value_keyModulesFrom (place : Nat) (tables : List KeyTable) :
    (keyModulesFrom place tables).flatMap (fun keys => keys.constants.map (·.value)) =
      (List.range' place (Canonical.grouped tables).size).map .index := by
  induction tables generalizing place with
  | nil => rfl
  | cons first rest ih =>
    have hSize : (Canonical.grouped (first :: rest)).size =
        first.fields.length + (Canonical.grouped rest).size := by
      simp [Canonical.size]
    rw [keyModulesFrom, List.flatMap_cons, map_value_fieldConstants, ih, hSize,
      ← List.map_append, List.range'_append_1]

theorem length_identifiers_of_reconcile
    (h : reconcile versions mainVersion = .ok (canonical, table)) :
    table.identifiers.length = canonical.size := by
  rw [identifiers_of_reconcile h, List.length_map]
  cases canonical <;> simp [Canonical.keys, Canonical.size]

/-- The places of grouped keys number the identifiers of the table. -/
theorem fieldValues_of_describeValues
    (hReconcile : reconcile versions mainVersion = .ok (canonical, table))
    (hGrouped : canonical.isGrouped = true)
    (h : describeValues naming definition canonical table defaultVersion = .ok generated) :
    generated.fieldValues = (List.range table.identifiers.length).map .index := by
  obtain ⟨-, -, -, -, rfl⟩ := describeValues_eq_ok_iff.mp h
  cases canonical with
  | flat keys => cases hGrouped
  | grouped tables =>
    rw [GeneratedModule.fieldValues, Definition.describe, Canonical.tables,
      flatMap_value_keyModulesFrom, length_identifiers_of_reconcile hReconcile,
      List.range_eq_range']

end Values

/-- Every description is well-scoped, be it of reconciled versions, under whatever default version
and definition, or of a set of constants. Where the keys are grouped, the places that the key types
carry are `0`, `1` and so on up to the number of identifiers, in this order. -/
theorem wellScoped_of_described :
    (∀ {naming : Naming} {definition : Definition} {versions : List Version}
      {mainVersion defaultVersion : String} {canonical : Canonical} {table : ReconciledTable}
      {generated : GeneratedModule},
      reconcile versions mainVersion = .ok (canonical, table) →
      describeValues naming definition canonical table defaultVersion = .ok generated →
      generated.WellScoped ∧ (canonical.isGrouped = true →
        generated.fieldValues = (List.range table.identifiers.length).map .index)) ∧
    ∀ {definition : Definition} {source : Source} {generated : GeneratedModule},
      describeConstants definition source = .ok generated → generated.WellScoped := by
  refine ⟨fun hReconcile h => ⟨wellScoped_of_describeValues h, fun hGrouped => ?_⟩, fun h => ?_⟩
  · exact fieldValues_of_describeValues hReconcile hGrouped h
  · exact wellScoped_of_describeConstants h

/-- Two versions of three tables, the second of which has no fields. -/
def sparseVersions : List Version :=
  [("en", .grouped [("home", [("title", "Home"), ("text", "Hello")]), ("blank-page", []),
      ("end", [("text", "Bye")])]),
    ("de", .grouped [("end", [("text", "Ende")]), ("blank-page", []),
      ("home", [("text", "Hallo"), ("title", "Start")])])]

/-- A definition of these versions. -/
def sparsePages : Definition where
  source := ⟨"pages.json"⟩
  className := "Pages"
  namespacePath := ["app"]
  addedNamespace := []
  kind := .tableDirectory
  versionPrefix := some "IN_"
  body := .values sparseVersions "en"

/-- The table without fields has a key type, and the places run on past it. The same class is
well-scoped when it offers constants. -/
theorem wellScoped_sparsePages :
    (∃ canonical table generated, reconcile sparseVersions "en" = .ok (canonical, table) ∧
      describeValues {} sparsePages canonical table "en" = .ok generated ∧
      generated.keyModules.map (·.name) = ["Home", "BlankPage", "End"] ∧
      generated.WellScoped ∧ generated.fieldValues = [.index 0, .index 1, .index 2]) ∧
    ∃ generated, describeConstants sparsePages (.list ["red", "dark-red"]) = .ok generated ∧
      generated.WellScoped := by
  obtain ⟨canonical, table, hReconcile, hGrouped, hLength⟩ : ∃ canonical table,
      reconcile sparseVersions "en" = .ok (canonical, table) ∧ canonical.isGrouped = true ∧
        table.identifiers.length = 3 := ⟨_, _, rfl, rfl, rfl⟩
  obtain ⟨generated, hValues, hNames⟩ : ∃ generated,
      describeValues {} sparsePages canonical table "en" = .ok generated ∧
        generated.keyModules.map (·.name) = ["Home", "BlankPage", "End"] := by
    cases hReconcile
    exact ⟨_, rfl, rfl⟩
  obtain ⟨constants, hConstants⟩ : ∃ generated,
      describeConstants sparsePages (.list ["red", "dark-red"]) = .ok generated := ⟨_, rfl⟩
  obtain ⟨hScoped, hPlaces⟩ := wellScoped_of_described.1 hReconcile hValues
  refine ⟨⟨canonical, table, generated, hReconcile, hValues, hNames, hScoped, ?_⟩,
    constants, hConstants, wellScoped_of_described.2 hConstants⟩
  rw [hPlaces hGrouped, hLength]
  rfl

end ResourceTables
