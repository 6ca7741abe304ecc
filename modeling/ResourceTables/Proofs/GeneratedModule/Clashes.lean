import ResourceTables.Proofs.GeneratedModule.Scopes

/-!
# Clashes of a description

Reconciliation has settled that no two keys share an identifier, where the identifier of a field has
the name of its table in front. A description claims other names in other scopes: those of flat keys
in the class, those of fields in the type of their table, without the table's name. Neither is ever
taken, so a description of reconciled versions is only refused for a version constant or for the
name of a key type.

## Main definitions

* `Clash.Among`: the later of two claimants is one of some names.

## Main results

* `claimNames_eq_duplicate_of_describeTables`: key types clash over their own names alone.
* `clash_of_describeValues`: what a clash of a description is about.
-/

namespace ResourceTables

/-- A clash in which one of some names is spelled as what is taken: as an earlier one of the names,
or as a name that had been claimed before all of them. -/
def Clash.Among (spell : String → String) (names : List String) (taken : List (String × String))
    (clash : Clash) : Prop :=
  ∃ before after, names = before ++ clash.second :: after ∧
    spell clash.second = clash.identifier ∧
    ((clash.first ∈ before ∧ spell clash.first = clash.identifier) ∨
      (clash.identifier, clash.first) ∈ taken)

/-- Names claimed by their spellings clash among themselves, or with what their scope held. -/
theorem Clash.among_of_claimNames {file : Path} {scope : Registry} {spell : String → String}
    {names : List String} {clash : Clash}
    (h : claimNames file scope (names.map fun name => (spell name, name)) =
      .error (.duplicateIdentifier clash)) :
    clash.Among spell names scope.owners := by
  obtain ⟨front, back, hClaims, hOwner⟩ := exists_owner_of_claimNames_eq_duplicate h
  obtain ⟨before, rest, rfl, rfl, hRest⟩ := List.map_eq_append_iff.mp hClaims
  obtain ⟨second, after, rfl, hSecond, -⟩ := List.map_eq_cons_iff.mp hRest
  rw [Prod.mk.injEq] at hSecond
  obtain ⟨hSpell, rfl⟩ := hSecond
  refine ⟨before, after, rfl, hSpell, ?_⟩
  rcases List.mem_append.mp hOwner with hTaken | hEarlier
  · exact .inr hTaken
  · obtain ⟨first, hFirst, hEq⟩ := List.mem_map.mp hEarlier
    rw [Prod.mk.injEq] at hEq
    obtain ⟨hSame, rfl⟩ := hEq
    exact .inl ⟨hFirst, hSame⟩

/-! ## Names that are never taken -/

/-- Fields whose full identifiers differ have constants that differ: the table's name stands in
front of all of them. -/
theorem nodup_fields_of_nodup_identifiers {tables : List KeyTable}
    (hNodup : ((Canonical.grouped tables).keys.map Key.identifier).Nodup) {own : KeyTable}
    (hOwn : own ∈ tables) : (own.fields.map flatIdentifier).Nodup := by
  have hTable : (own.fields.map fun field => groupedIdentifier own.name field).Nodup := by
    rw [Canonical.keys, List.map_flatMap] at hNodup
    simpa [Function.comp_def, Key.identifier] using (List.nodup_flatMap.mp hNodup).1 own hOwn
  apply List.Nodup.of_map (fun constant => constantCase own.name ++ "_" ++ constant)
  rw [List.map_map]
  exact hTable

/-- Key types clash over their own names alone, if the fields of each table differ. -/
theorem claimNames_eq_duplicate_of_describeTables {file : Path} {types : Registry} {place : Nat}
    {tables : List KeyTable} {clash : Clash}
    (hFields : ∀ own ∈ tables, (own.fields.map flatIdentifier).Nodup)
    (h : describeTables file types place tables = .error (.duplicateIdentifier clash)) :
    claimNames file types (tables.map fun own => (pascalCase own.name, own.name)) =
      .error (.duplicateIdentifier clash) := by
  induction tables generalizing types place with
  | nil => cases h
  | cons own rest ih =>
    obtain ⟨hOwn, hRest⟩ := List.forall_mem_cons.mp hFields
    rw [describeTables] at h
    rw [List.map_cons, claimNames, Checked.bind_eq_error]
    rcases Checked.bind_eq_error.mp h with hType | ⟨next, hType, h⟩
    · exact .inl hType
    · rcases Checked.bind_eq_error.mp h with hField | ⟨scope, -, h⟩
      · refine absurd hField (claimNames_empty_ne_duplicate ?_ file clash)
        simpa [Function.comp_def] using hOwn
      · rcases Checked.bind_eq_error.mp h with hLater | ⟨modules, -, hEq⟩
        · exact .inr ⟨next, hType, ih hRest hLater⟩
        · cases hEq

/-! ## Reconciled versions -/

section Reconciled

variable {versions : List Version} {mainVersion : String} {canonical : Canonical}
  {table : ReconciledTable}

/-- Flat keys and their identifiers are paired without loss. -/
theorem zip_identifiers_of_reconcile {keys : List String}
    (h : reconcile versions mainVersion = .ok (.flat keys, table)) :
    table.identifiers.length = keys.length ∧
      table.identifiers.zip keys = keys.map fun key => (flatIdentifier key, key) := by
  have hIdentifiers : table.identifiers = keys.map flatIdentifier := by
    rw [identifiers_of_reconcile h, Canonical.keys, List.map_map]
    rfl
  rw [hIdentifiers]
  exact ⟨List.length_map _, List.map_prod_right_eq_zip.symm⟩

/-- The claims of flat keys are those of the identifiers, so none is made twice. -/
theorem nodup_classClaims (h : reconcile versions mainVersion = .ok (canonical, table)) :
    ((canonical.classClaims table.identifiers).map (·.1)).Nodup := by
  cases canonical with
  | grouped tables => exact List.nodup_nil
  | flat keys =>
    obtain ⟨hLength, -⟩ := zip_identifiers_of_reconcile h
    rw [Canonical.classClaims, List.map_fst_zip (Nat.le_of_eq hLength)]
    exact nodup_identifiers_of_reconcile h

/-- The constants of the fields of one table differ. -/
theorem nodup_fields_of_reconcile (h : reconcile versions mainVersion = .ok (canonical, table))
    {own : KeyTable} (hOwn : own ∈ canonical.tables) :
    (own.fields.map flatIdentifier).Nodup := by
  have hNodup := nodup_identifiers_of_reconcile h
  rw [identifiers_of_reconcile h] at hNodup
  cases canonical with
  | flat keys => cases hOwn
  | grouped tables => exact nodup_fields_of_nodup_identifiers hNodup hOwn

/-- What a description of reconciled versions can be refused for, if a name is taken: a version that
is spelled as a flat key or as another version, or a table whose type is spelled as the class or as
the type of another table. The claims of flat keys, which leave none out, and those of the fields of
a table are never refused so. -/
theorem clash_of_describeValues (h : reconcile versions mainVersion = .ok (canonical, table))
    (naming : Naming) (definition : Definition) (defaultVersion : String) :
    (∀ clash, describeValues naming definition canonical table defaultVersion =
        .error (.duplicateIdentifier clash) →
      clash.Among (naming.withVersionPrefix definition.versionPrefix).versionIdentifier
          table.versionNames (canonical.classClaims table.identifiers) ∨
        clash.Among pascalCase (canonical.tables.map (·.name))
          [(definition.className, definition.className)]) ∧
    (∀ file clash, claimNames file .empty (canonical.classClaims table.identifiers) ≠
      .error (.duplicateIdentifier clash)) ∧
    (∀ own ∈ canonical.tables, ∀ file clash,
      claimNames file .empty (own.fields.map fun field => (flatIdentifier field, field)) ≠
        .error (.duplicateIdentifier clash)) ∧
    ∀ keys, canonical = .flat keys → table.identifiers.length = keys.length ∧
      canonical.classClaims table.identifiers = keys.map fun key => (flatIdentifier key, key) := by
  have hKeys := claimNames_empty_ne_duplicate (nodup_classClaims h)
  refine ⟨fun clash hClash => ?_, hKeys, fun own hOwn => ?_, ?_⟩
  · rw [describeValues_eq] at hClash
    rcases Checked.bind_eq_error.mp hClash with hClass | ⟨types, hTypes, hClash⟩
    · -- The scope of the types starts empty, so the class name is free.
      have hFree : claimNames definition.source .empty
          [(definition.className, definition.className)] ≠ .error (.duplicateIdentifier clash) := by
        apply claimNames_empty_ne_duplicate
        exact List.nodup_singleton _
      exact absurd (Checked.bind_eq_error.mpr (.inl hClass)) hFree
    · rcases Checked.bind_eq_error.mp hClash with hFlat | ⟨scope, hScope, hClash⟩
      · exact absurd hFlat (hKeys definition.source clash)
      · rcases Checked.bind_eq_error.mp hClash with hTables | ⟨modules, -, hClash⟩
        · have hNames := claimNames_eq_duplicate_of_describeTables
            (fun own => nodup_fields_of_reconcile h) hTables
          rw [classScope, claimName_eq_ok_iff, claim_eq_ok_iff] at hTypes
          obtain ⟨-, -, rfl⟩ := hTypes
          rw [← Function.comp_def (fun name => (pascalCase name, name)), ← List.map_map] at hNames
          exact .inr (Clash.among_of_claimNames hNames)
        · rcases Checked.bind_eq_error.mp hClash with hVersions | ⟨last, -, hClash⟩
          · rw [claimNames_eq_ok_iff, claimAll_eq_ok_iff] at hScope
            obtain ⟨-, -, -, rfl⟩ := hScope
            exact .inl (Clash.among_of_claimNames hVersions)
          · split at hClash <;> cases hClash
  · apply claimNames_empty_ne_duplicate
    simpa [Function.comp_def] using nodup_fields_of_reconcile h hOwn
  · rintro keys rfl
    exact zip_identifiers_of_reconcile h

/-- Tables whose names are spelled as one type, with fields that are told apart by the table names
in front of them. -/
def likeNamedTables : Definition where
  source := ⟨"pages.json"⟩
  className := "Pages"
  namespacePath := ["app"]
  addedNamespace := []
  kind := .inline
  versionPrefix := none
  body := .values [("en", .grouped [("start_page", [("title", "Start")]),
    ("start-Page", [("text", "Hi")])])] "en"

/-- A flat key that is spelled as the constant of a version, and tables that are spelled as one
type: reconciliation accepts both, and both are refused for a clash of the kinds that are left. -/
theorem clash_of_describeValues_likeNamed :
    (∃ canonical table,
      reconcile [("en", .literal [("version-en", "English")])] "en" = .ok (canonical, table) ∧
      describeValues {} likeNamedTables canonical table "en" =
        .error (.duplicateIdentifier ⟨"VERSION_EN", "version-en", "en"⟩) ∧
      Clash.Among (({} : Naming).withVersionPrefix none).versionIdentifier ["en"]
        [("VERSION_EN", "version-en")] ⟨"VERSION_EN", "version-en", "en"⟩) ∧
    ∃ canonical table,
      reconcile [("en", .grouped [("start_page", [("title", "Start")]),
        ("start-Page", [("text", "Hi")])])] "en" = .ok (canonical, table) ∧
      describeValues {} likeNamedTables canonical table "en" =
        .error (.duplicateIdentifier ⟨"StartPage", "start_page", "start-Page"⟩) ∧
      Clash.Among pascalCase ["start_page", "start-Page"] [("Pages", "Pages")]
        ⟨"StartPage", "start_page", "start-Page"⟩ := by
  obtain ⟨flatKeys, flatTable, hFlat, hVersion, hNames, hClaims, hTables⟩ :
      ∃ canonical table,
        reconcile [("en", .literal [("version-en", "English")])] "en" = .ok (canonical, table) ∧
        describeValues {} likeNamedTables canonical table "en" =
          .error (.duplicateIdentifier ⟨"VERSION_EN", "version-en", "en"⟩) ∧
        table.versionNames = ["en"] ∧
        canonical.classClaims table.identifiers = [("VERSION_EN", "version-en")] ∧
        canonical.tables = [] :=
    ⟨_, _, rfl, rfl, rfl, rfl, rfl⟩
  obtain ⟨keys, table, hGrouped, hType, hPages⟩ :
      ∃ canonical table,
        reconcile [("en", .grouped [("start_page", [("title", "Start")]),
          ("start-Page", [("text", "Hi")])])] "en" = .ok (canonical, table) ∧
        describeValues {} likeNamedTables canonical table "en" =
          .error (.duplicateIdentifier ⟨"StartPage", "start_page", "start-Page"⟩) ∧
        canonical.tables.map (·.name) = ["start_page", "start-Page"] :=
    ⟨_, _, rfl, rfl, rfl⟩
  refine ⟨⟨_, _, hFlat, hVersion, ?_⟩, _, _, hGrouped, hType, ?_⟩
  · -- There is no table, so the clash is one of versions.
    have hClash := (clash_of_describeValues hFlat {} likeNamedTables "en").1 _ hVersion
    rw [hNames, hClaims, hTables] at hClash
    rcases hClash with hVersions | ⟨before, after, hEq, -⟩
    · exact hVersions
    · simp at hEq
  · -- No version is spelled as a type.
    have hClash := (clash_of_describeValues hGrouped {} likeNamedTables "en").1 _ hType
    rw [hPages] at hClash
    rcases hClash with ⟨before, after, -, hSpell, -⟩ | hTypes
    · exact absurd hSpell (by decide +kernel)
    · exact hTypes

end Reconciled

end ResourceTables
