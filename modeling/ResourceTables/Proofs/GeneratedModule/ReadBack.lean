import ResourceTables.Proofs.GeneratedModule.Clashes
import ResourceTables.Proofs.GeneratedModule.Declared
import ResourceTables.Proofs.Identifier.Words

/-!
# Reading a generated module back

The body of a module of versions tells all that its values are looked up in. The versions and the
values are read off its arrays, whatever texts the values are and whichever characters the literals
show, and the identifiers are those of the constants of keys, in the class or in the types that hold
the keys of tables. So modules of different tables never have the same body.

## Main definitions

* `identifiersOf`: the identifiers of the constants of a module.

## Main results

* `identifiers_eq_identifiersOf`: the table has the identifiers of the constants of its module.
* `run?_reader_of_describeValues`: the body of a module is read, for any characters to show.
* `eq_of_bodyShowing_eq`: modules of different tables have different bodies, for any such sets.
* `readBack_of_describeValues`: the body of a module is read as what it was made from.
-/

namespace ResourceTables

open Text Text.Reader

/-! ## Names of tables -/

/-- The name of a table keeps a backtick in the name of its type, which no identifier has. -/
theorem backtick_notMem_of_isIdentifier {table : String}
    (h : isIdentifier (pascalCase table) = true) : '\x60' ∉ table.toList := by
  intro hMem
  have hType := mem_pascalCase (by decide) (by decide) (by decide) hMem
  exact absurd (isWordPart_of_mem_identifier h hType) (by decide)

/-- The comment of a key type ends the name of its table by a character that is not in it. -/
theorem backtick_notMem_keyModulesFrom {tables : List KeyTable} {place : Nat}
    (hTypes : ∀ own ∈ tables, isIdentifier (pascalCase own.name) = true) :
    ∀ keys ∈ keyModulesFrom place tables, '\x60' ∉ keys.table.toList := by
  intro keys hKeys
  have hTable : keys.table ∈ tables.map (·.name) := by
    rw [← map_table_keyModulesFrom place]
    exact List.mem_map_of_mem hKeys
  obtain ⟨own, hOwn, hName⟩ := List.mem_map.mp hTable
  rw [← hName]
  exact backtick_notMem_of_isIdentifier (hTypes own hOwn)

/-! ## Identifiers -/

/-- The name of a constant that carries the place of a key. -/
def Constant.keyName? (constant : Constant) : Option String :=
  match constant.value with
  | .index _ => some constant.name
  | .text _ => none

/-- The identifiers of the keys of a table: the name of the table stands in front. -/
def KeyModule.identifiers (keys : KeyModule) : List String :=
  keys.constants.map fun constant => constantCase keys.table ++ "_" ++ constant.name

/-- The identifiers of the constants of a module, in their order. -/
def identifiersOf (constants : List Constant) (keyModules : List KeyModule) : List String :=
  constants.filterMap Constant.keyName? ++ keyModules.flatMap KeyModule.identifiers

theorem filterMap_keyName?_classConstants (naming : Naming) (canonical : Canonical)
    (table : ReconciledTable) :
    (classConstants naming canonical table).filterMap Constant.keyName? =
      (canonical.classClaims table.identifiers).map (·.1) := by
  have hVersions : (table.versionNames.map fun version =>
      (⟨naming.versionIdentifier version, .text version⟩ : Constant)).filterMap
        Constant.keyName? = [] := by
    rw [List.filterMap_map]
    exact List.filterMap_eq_nil_iff.mpr fun _ _ => rfl
  rw [classConstants, List.filterMap_append, hVersions, List.append_nil, ← map_name_keyConstants,
    List.filterMap_map, List.map_map, ← List.filterMap_eq_map]
  rfl

theorem flatMap_identifiers_keyModulesFrom (place : Nat) (tables : List KeyTable) :
    (keyModulesFrom place tables).flatMap KeyModule.identifiers =
      (Canonical.grouped tables).keys.map Key.identifier := by
  induction tables generalizing place with
  | nil => rfl
  | cons own rest ih =>
    have hFields : KeyModule.identifiers ⟨pascalCase own.name, own.name,
        fieldConstants place own.fields⟩ =
        (own.fields.map (Key.grouped own.name)).map Key.identifier := by
      rw [KeyModule.identifiers, ← Function.comp_def, ← List.map_map, map_name_fieldConstants,
        List.map_map, List.map_map]
      rfl
    rw [keyModulesFrom, List.flatMap_cons, ih, hFields, Canonical.keys, Canonical.keys,
      List.flatMap_cons, List.map_append]

/-- The table of a module has the identifiers of the constants of the module. -/
theorem identifiers_eq_identifiersOf {versions : List Version} {mainVersion : String}
    {canonical : Canonical} {table : ReconciledTable}
    (h : reconcile versions mainVersion = .ok (canonical, table)) (naming : Naming) :
    table.identifiers = identifiersOf (classConstants naming canonical table)
      (keyModulesFrom 0 canonical.tables) := by
  rw [identifiersOf, filterMap_keyName?_classConstants]
  cases canonical with
  | flat keys =>
    obtain ⟨hLength, -⟩ := zip_identifiers_of_reconcile h
    rw [Canonical.classClaims, List.map_fst_zip (Nat.le_of_eq hLength)]
    exact (List.append_nil _).symm
  | grouped tables =>
    rw [identifiers_of_reconcile h, Canonical.classClaims, Canonical.tables,
      flatMap_identifiers_keyModulesFrom]
    rfl

/-- Rows of the same names and the same values are the same. -/
theorem eq_of_map_rows {rows others : List VersionRow}
    (hNames : rows.map (·.name) = others.map (·.name))
    (hValues : rows.map (·.values) = others.map (·.values)) : rows = others := by
  have hPairs : Function.Injective fun row : VersionRow => (row.name, row.values) := by
    rintro ⟨name, values⟩ ⟨other, otherValues⟩ h
    rw [Prod.mk.injEq] at h
    exact VersionRow.mk.injEq .. ▸ h
  apply hPairs.list_map
  show rows.map _ = others.map _
  rw [← List.zip_map', ← List.zip_map', hNames, hValues]

section Described

variable {naming : Naming} {definition : Definition} {versions : List Version}
  {mainVersion defaultVersion : String} {canonical : Canonical} {table : ReconciledTable}
  {generated : GeneratedModule}

/-- A module of versions is read as what its description holds, whichever characters its literals
show, and the identifiers of its table are those of its constants. -/
theorem run?_reader_of_describeValues (shown : Char → Bool)
    (hReconcile : reconcile versions mainVersion = .ok (canonical, table))
    (h : describeValues naming definition canonical table defaultVersion = .ok generated) :
    generated.lookup? = some ⟨table, defaultVersion, table.versionNames⟩ ∧
      table.identifiers = identifiersOf generated.constants generated.keyModules ∧
      DeclaredModule.reader.run? (generated.bodyShowing shown).toList =
        some (.ofLookup generated ⟨table, defaultVersion, table.versionNames⟩) := by
  have hNamed := wellNamed_of_describeValues h
  obtain ⟨⟨hTypes, -⟩, -, -, -, rfl⟩ := describeValues_eq_ok_iff.mp h
  refine ⟨rfl, identifiers_eq_identifiersOf hReconcile _, ?_⟩
  refine DeclaredModule.run?_reader_bodyShowing rfl hNamed (fun row hRow => ?_) ?_
  · exact length_values_of_mem_rows hReconcile hRow
  · apply backtick_notMem_keyModulesFrom
    rw [List.forall_mem_cons, List.forall_mem_map] at hTypes
    exact hTypes.2

/-- Modules of versions with the same body have the same table and the same default version, even
where their literals show different characters. -/
theorem eq_of_bodyShowing_eq {otherVersions : List Version} {otherMain : String}
    {otherCanonical : Canonical} {otherTable : ReconciledTable} {otherNaming : Naming}
    {other : Definition} {otherDefault : String} {built : GeneratedModule}
    {shown otherShown : Char → Bool}
    (hReconcile : reconcile versions mainVersion = .ok (canonical, table))
    (h : describeValues naming definition canonical table defaultVersion = .ok generated)
    (hOther : reconcile otherVersions otherMain = .ok (otherCanonical, otherTable))
    (hBuilt : describeValues otherNaming other otherCanonical otherTable otherDefault = .ok built)
    (hSame : built.bodyShowing otherShown = generated.bodyShowing shown) :
    otherTable = table ∧ otherDefault = defaultVersion := by
  obtain ⟨-, hIdentifiers, hRead⟩ := run?_reader_of_describeValues shown hReconcile h
  obtain ⟨-, hOtherIdentifiers, hOtherRead⟩ :=
    run?_reader_of_describeValues otherShown hOther hBuilt
  rw [hSame, hRead, Option.some.injEq, DeclaredModule.mk.injEq] at hOtherRead
  obtain ⟨-, hConstants, hDefault, -, hNames, -, -, hValues, hKeys⟩ := hOtherRead
  obtain ⟨identifiers, rows⟩ := table
  obtain ⟨otherIdentifiers, otherRows⟩ := otherTable
  rw [ReconciledTable.mk.injEq]
  refine ⟨⟨?_, eq_of_map_rows hNames.symm hValues.symm⟩, hDefault.symm⟩
  exact hOtherIdentifiers.trans ((congrArg₂ identifiersOf hConstants hKeys).symm.trans
    hIdentifiers.symm)

/-- The body of a module of versions is read back. The default version, the versions, the rows of
values and the constants come out as they went in, with arrays as long as there are versions and
identifiers, and every literal lies on one line. So a module of versions with the same body has the
same table and the same default version. -/
theorem readBack_of_describeValues
    (hReconcile : reconcile versions mainVersion = .ok (canonical, table))
    (h : describeValues naming definition canonical table defaultVersion = .ok generated) :
    generated.lookup? = some ⟨table, defaultVersion, table.versionNames⟩ ∧
      DeclaredModule.reader.run? generated.body.toList = some {
        className := generated.className
        constants := generated.constants
        defaultVersion := defaultVersion
        versionCount := versions.length
        versions := table.versionNames
        width := table.identifiers.length
        height := versions.length
        rows := table.rows.map (·.values)
        keyModules := generated.keyModules } ∧
      (∀ line ∈ generated.members, OneLine line) ∧
      ∀ (otherVersions : List Version) (otherMain : String) (otherCanonical : Canonical)
        (otherTable : ReconciledTable) (otherNaming : Naming) (other : Definition)
        (otherDefault : String) (built : GeneratedModule),
        reconcile otherVersions otherMain = .ok (otherCanonical, otherTable) →
        describeValues otherNaming other otherCanonical otherTable otherDefault = .ok built →
        built.body = generated.body → otherTable = table ∧ otherDefault = defaultVersion := by
  obtain ⟨hLookup, -, hRead⟩ := run?_reader_of_describeValues isPrintable hReconcile h
  have hRows := length_rows_of_reconcile hReconcile
  have hVersions : table.versionNames.length = versions.length := by
    rw [ReconciledTable.versionNames, List.length_map, hRows]
  refine ⟨hLookup, ?_, forall_oneLine_members (wellNamed_of_describeValues h), ?_⟩
  · rw [GeneratedModule.body, hRead, DeclaredModule.ofLookup]
    simp only [hRows, hVersions]
  · intro _ _ _ _ _ _ _ _ hOther hBuilt hSame
    exact eq_of_bodyShowing_eq hReconcile h hOther hBuilt hSame

end Described

/-- A definition with one value in each version. -/
def noteOf (english german : String) : Definition where
  source := ⟨"notes.json"⟩
  className := "Notes"
  namespacePath := ["app"]
  addedNamespace := []
  kind := .inline
  versionPrefix := none
  body := .values [("en", .grouped [("page-notes", [("end", english)])]),
    ("de", .grouped [("page-notes", [("end", german)])])] "en"

/-- Values that look like the end of an array and like a row are read back, and a module with one
other value has another body. -/
theorem readBack_of_describeValues_notes :
    ∃ generated built,
      describe {} (noteOf "\n    ];\n" "a \\ \"],\n        [\"b") = .ok generated ∧
      describe {} (noteOf "\n    ];\n" "a") = .ok built ∧
      DeclaredModule.reader.run? generated.body.toList = some {
        className := "Notes"
        constants := [⟨"VERSION_EN", .text "en"⟩, ⟨"VERSION_DE", .text "de"⟩]
        defaultVersion := "en"
        versionCount := 2
        versions := ["en", "de"]
        width := 1
        height := 2
        rows := [["\n    ];\n"], ["a \\ \"],\n        [\"b"]]
        keyModules := [⟨"PageNotes", "page-notes", [⟨"END", .index 0⟩]⟩] } ∧
      built.body ≠ generated.body := by
  obtain ⟨generated, hGenerated⟩ : ∃ generated,
      describe {} (noteOf "\n    ];\n" "a \\ \"],\n        [\"b") = .ok generated := ⟨_, rfl⟩
  obtain ⟨built, hBuilt⟩ : ∃ built, describe {} (noteOf "\n    ];\n" "a") = .ok built := ⟨_, rfl⟩
  obtain ⟨canonical, table, hReconcile, hDescribe⟩ :=
    (describe_values_eq_ok_iff (rfl : (noteOf _ _).body = _)).mp hGenerated
  obtain ⟨otherCanonical, otherTable, hOther, hOtherDescribe⟩ :=
    (describe_values_eq_ok_iff (rfl : (noteOf _ _).body = _)).mp hBuilt
  obtain ⟨-, hRead, -, hSame⟩ := readBack_of_describeValues hReconcile hDescribe
  refine ⟨generated, built, hGenerated, hBuilt, ?_, fun hBody => ?_⟩
  · rw [hRead]
    cases hReconcile
    cases hGenerated
    rfl
  · have hTables := (hSame _ _ _ _ _ _ _ _ hOther hOtherDescribe hBody).1
    cases hReconcile
    cases hOther
    revert hTables
    decide

end ResourceTables
