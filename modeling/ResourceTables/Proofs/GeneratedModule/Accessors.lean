import ResourceTables.GeneratedModule.Rendering
import ResourceTables.Proofs.GeneratedModule.Scopes

/-!
# Accessors of a generated module

What the functions of a generated module return, and that it is what the definition says. The
accessors read two arrays: the position of a version among the allowed versions is the number of its
row, and the value of a key's constant is the place in the row.

## Main definitions

* `Lookup.values`: the rows of the array of values.
* `Lookup.getValue`, `Lookup.hasValue`, `Lookup.isVersionAllowed`: what the generated functions do.
* `GeneratedModule.Declares`: the constant of a key carries a place.
-/

namespace ResourceTables

namespace Lookup

/-- The rows of the array of values, in the order in which they are written. -/
def values (lookup : Lookup) : List (List String) :=
  lookup.table.rows.map (·.values)

/-- What the generated `get_value` does: the position of the version among the allowed versions
selects a row, the place a value of that row. There is no outer result if the row is out of bounds,
where the generated function aborts. -/
def getValue (lookup : Lookup) (place : Nat) (version : String) : Option (Option String) :=
  match lookup.allowedVersions.idxOf? version with
  | none => some none
  | some row => (lookup.values[row]?).map fun values => values[place]?

/-- What the generated `has_value` does. -/
def hasValue (lookup : Lookup) (place : Nat) (version : String) : Option Bool :=
  (lookup.getValue place version).map Option.isSome

/-- What the generated `is_version_allowed` does. -/
def isVersionAllowed (lookup : Lookup) (version : String) : Bool :=
  lookup.allowedVersions.contains version

end Lookup

/-- The constant of a key carries a place. The constant of a flat key is the one of its name in the
class, that of a field is the one of its name in the key type of its table, which is the only key
type of the table and the only one of its name. -/
def GeneratedModule.Declares (generated : GeneratedModule) (place : Nat) : Key → Prop
  | .flat key =>
    (generated.constants.filter fun constant => constant.name == flatIdentifier key) =
      [⟨flatIdentifier key, .index place⟩]
  | .grouped table field => ∃ keys,
    (generated.keyModules.filter fun keys => keys.table == table) = [keys] ∧
    (generated.keyModules.filter fun keys => keys.name == pascalCase table) = [keys] ∧
    (keys.constants.filter fun constant => constant.name == flatIdentifier field) =
      [⟨flatIdentifier field, .index place⟩]

/-! ## Constants of keys -/

theorem mem_fieldConstants {fields : List String} {place : Nat} {field : String} (start : Nat)
    (hField : fields[place]? = some field) :
    ⟨flatIdentifier field, .index (start + place)⟩ ∈ fieldConstants start fields := by
  refine List.mem_map.mpr ⟨(field, start + place), ?_, rfl⟩
  rw [List.mem_zipIdx_iff_le_and_getElem?_sub]
  exact ⟨by simp, by simpa using hField⟩

/-- At its place among all keys, a field of a table has its constant in the key type of the
table. -/
theorem exists_keyModule_of_getElem? {tables : List KeyTable} {place : Nat} {table field : String}
    (start : Nat) (hKey : (Canonical.grouped tables).keys[place]? = some (.grouped table field)) :
    ∃ keys ∈ keyModulesFrom start tables, keys.table = table ∧ keys.name = pascalCase table ∧
      ⟨flatIdentifier field, .index (start + place)⟩ ∈ keys.constants := by
  induction tables generalizing start place with
  | nil => simp [Canonical.keys] at hKey
  | cons first rest ih =>
    have hKeys : (Canonical.grouped (first :: rest)).keys =
        first.fields.map (Key.grouped first.name) ++ (Canonical.grouped rest).keys := rfl
    rw [hKeys] at hKey
    -- The place is one of the first table, or one of the rest after as many fields as it has.
    by_cases hPlace : place < first.fields.length
    · rw [List.getElem?_append_left (by simpa using hPlace), List.getElem?_map] at hKey
      obtain ⟨own, hOwn, hEq⟩ := Option.map_eq_some_iff.mp hKey
      cases hEq
      exact ⟨_, List.mem_cons_self, rfl, rfl, mem_fieldConstants start hOwn⟩
    · rw [List.getElem?_append_right (by simpa using hPlace), List.length_map] at hKey
      obtain ⟨keys, hMem, hTable, hName, hConstant⟩ := ih (start + first.fields.length) hKey
      have hSum : start + first.fields.length + (place - first.fields.length) = start + place := by
        omega
      exact ⟨keys, List.mem_cons_of_mem _ hMem, hTable, hName, hSum ▸ hConstant⟩

theorem mem_classConstants {naming : Naming} {table : ReconciledTable} {keys : List String}
    {place : Nat} {key : String} (hIdentifiers : table.identifiers = keys.map flatIdentifier)
    (hKey : keys[place]? = some key) :
    ⟨flatIdentifier key, .index place⟩ ∈ classConstants naming (.flat keys) table := by
  refine List.mem_append_left _ (List.mem_map.mpr ⟨((flatIdentifier key, key), place), ?_, rfl⟩)
  rw [List.mem_zipIdx_iff_getElem?, Canonical.classClaims, List.getElem?_zip_eq_some,
    hIdentifiers, List.getElem?_map, hKey]
  exact ⟨rfl, rfl⟩

/-- Every key of the default version has its constant, which carries the place of the key. -/
theorem declares_of_describeValues {naming : Naming} {definition : Definition} {main : Source}
    {table : ReconciledTable} {defaultVersion : String} {generated : GeneratedModule}
    (hMain : main.HasUniqueKeys)
    (hIdentifiers : table.identifiers = main.keys.map Key.identifier)
    (h : describeValues naming definition (.ofSource main) table defaultVersion = .ok generated)
    {place : Nat} {key : Key} (hKey : main.keys[place]? = some key) :
    generated.Declares place key := by
  obtain ⟨hTypes, hConstants, hFields, -, rfl⟩ := describeValues_eq_ok_iff.mp h
  cases hCanonical : Canonical.ofSource main with
  | flat keys =>
    have hKeys := (keys_eq_of_ofSource_flat hCanonical).1
    rw [hCanonical] at hConstants
    rw [hKeys, List.getElem?_map] at hKey
    obtain ⟨name, hName, rfl⟩ := Option.map_eq_some_iff.mp hKey
    rw [hKeys, List.map_map] at hIdentifiers
    exact filter_eq_singleton hConstants.2 (mem_classConstants hIdentifiers hName) rfl
  | grouped tables =>
    obtain ⟨own, rfl, -⟩ := eq_grouped_of_ofSource_grouped hCanonical
    rw [← Canonical.keys_ofSource, hCanonical] at hKey
    have hModules : (Canonical.ofSource (.grouped own)).tables = tables := by rw [hCanonical]; rfl
    have hTables : ((keyModulesFrom 0 tables).map (·.table)).Nodup := by
      rw [map_table_keyModulesFrom, ← hModules, Canonical.tables_ofSource]
      exact hMain.1
    have hNames : ((keyModulesFrom 0 tables).map (·.name)).Nodup := by
      rw [map_name_keyModulesFrom, ← hModules]
      exact (List.nodup_cons.mp hTypes.2).2
    cases key with
    | flat key =>
      rw [← hCanonical, Canonical.keys_ofSource] at hKey
      exact absurd (List.mem_of_getElem? hKey) flat_notMem_keys_grouped
    | grouped table field =>
      -- Names are distinct, so no other module and no other constant has the name of what is found.
      obtain ⟨keys, hKeys, hTable, hName, hConstant⟩ := exists_keyModule_of_getElem? 0 hKey
      obtain ⟨own, hOwn, -, hConstants⟩ := exists_table_of_mem_keyModulesFrom hKeys
      have hUnique : (keys.constants.map (·.name)).Nodup := by
        rw [hConstants]
        exact (hFields own (hModules ▸ hOwn)).2
      rw [Nat.zero_add] at hConstant
      exact ⟨keys, filter_eq_singleton hTables hKeys hTable,
        filter_eq_singleton hNames hKeys hName, filter_eq_singleton hUnique hConstant rfl⟩

/-! ## Rows of versions -/

section Rows

variable {versions : List Version} {defaultVersion : String} {canonical : Canonical}
  {table : ReconciledTable} {generated : GeneratedModule}

theorem getValue_of_mem (hUnique : UniqueVersions versions)
    (h : reconcile versions defaultVersion = .ok (canonical, table)) {version : Version}
    (hVersion : version ∈ versions) (place : Nat) :
    ∃ value? : Option String,
      value?.map some = canonical.keys[place]?.map (version.2.value? place) ∧
      (⟨table, defaultVersion, table.versionNames⟩ : Lookup).getValue place version.1 =
        some value? := by
  obtain ⟨number, hNumber, rfl⟩ := List.mem_iff_getElem.mp hVersion
  obtain ⟨row, hRow, hAligned⟩ := exists_row_of_reconcile h (List.getElem?_eq_getElem hNumber)
  have hPosition : table.versionNames.idxOf? versions[number].1 = some number := by
    rw [versionNames_of_reconcile h]
    exact idxOf?_eq_of_nodup hUnique.names (by simpa using hNumber) (by simp)
  have hValues := map_some_of_alignVersion (hUnique.keys _ hVersion) hAligned
  refine ⟨row.values[place]?, ?_, ?_⟩
  · rw [← List.getElem?_map, hValues, List.getElem?_mapIdx]
  · simp only [Lookup.getValue, hPosition, Lookup.values, List.getElem?_map, hRow,
      Option.map_some]

theorem getValue_of_notMem (h : reconcile versions defaultVersion = .ok (canonical, table))
    {version : String} (hVersion : version ∉ versions.map (·.1)) (place : Nat) :
    (⟨table, defaultVersion, table.versionNames⟩ : Lookup).getValue place version = some none := by
  have hNone : table.versionNames.idxOf? version = none := by
    rw [List.idxOf?_eq_none_iff, versionNames_of_reconcile h]
    exact hVersion
  simp only [Lookup.getValue, hNone]

/-- The accessor reads the table as the description does. -/
theorem getValue_eq_get? {lookup : Lookup} (hLookup : lookup.allowedVersions = lookup.table.versionNames)
    {identifier : String} {place : Nat} (hPlace : lookup.table.index? identifier = some place)
    (version : String) : lookup.getValue place version = some (lookup.table.get? version identifier) := by
  -- The first row with the name of the version stands where the version stands among the names.
  have hRow : lookup.table.row? version =
      (lookup.allowedVersions.idxOf? version).bind fun row => lookup.table.rows[row]? := by
    rw [hLookup, ReconciledTable.versionNames, List.idxOf?, List.findIdx?_map,
      ReconciledTable.row?, List.find?_eq_bind_findIdx?_getElem?]
    rfl
  rw [Lookup.getValue, ReconciledTable.get?, hPlace, hRow]
  cases hPosition : lookup.allowedVersions.idxOf? version with
  | none => rfl
  | some row =>
    obtain ⟨hBound, -⟩ := List.idxOf?_eq_some_iff.mp hPosition
    have hRows : row < lookup.table.rows.length := by
      simpa [hLookup, ReconciledTable.versionNames] using hBound
    simp [Lookup.values, hRows]

end Rows

/-! ## What a description answers -/

section Described

variable {naming : Naming} {definition : Definition} {versions : List Version}
  {defaultVersion : String} {generated : GeneratedModule}

/-- A generated module answers what its definition says. At the place that the constant of a key
carries, the accessor returns for every version the value that the version's own data gives to the
key. It returns nothing for any other version or place, and never reads past a row. The description
itself answers the same for every identifier and every text as a version. -/
theorem getValue_eq_source_value (hBody : definition.body = .values versions defaultVersion)
    (hUnique : UniqueVersions versions) (h : describe naming definition = .ok generated) :
    ∃ main lookup, (defaultVersion, main) ∈ versions ∧ generated.lookup? = some lookup ∧
      (∀ place key, main.keys[place]? = some key →
        generated.Declares place key ∧ lookup.table.index? key.identifier = some place ∧
        ∀ version ∈ versions, ∃ value, version.2.value? place key = some value ∧
          lookup.getValue place version.1 = some (some value)) ∧
      (∀ place version, version ∉ versions.map (·.1) ∨ main.keys.length ≤ place →
        lookup.getValue place version = some none) ∧
      ∀ identifier version,
        (∀ place, lookup.table.index? identifier = some place →
          lookup.getValue place version = some (generated.get? identifier version) ∧
          lookup.hasValue place version = some (generated.has identifier version)) ∧
        (lookup.table.index? identifier = none → generated.get? identifier version = none) ∧
        lookup.isVersionAllowed version = generated.isAllowed version := by
  obtain ⟨canonical, table, hReconcile, hDescribe⟩ := (describe_values_eq_ok_iff hBody).mp h
  obtain ⟨main, hDefault, rfl, -, hIdentifiersNodup, hIdentifiers⟩ :=
    reconcile_eq_ok_iff.mp hReconcile
  have hMain := mem_of_lookup hDefault
  have hLookup : generated.lookup? = some ⟨table, defaultVersion, table.versionNames⟩ := by
    obtain ⟨-, -, -, -, rfl⟩ := describeValues_eq_ok_iff.mp hDescribe
    rfl
  refine ⟨main, _, hMain, hLookup, fun place key hKey => ⟨?_, ?_, ?_⟩, ?_, ?_⟩
  · exact declares_of_describeValues (hUnique.keys _ hMain) hIdentifiers hDescribe hKey
  · exact index?_eq_of_getElem? hIdentifiersNodup hIdentifiers hKey
  · intro version hVersion
    obtain ⟨value?, hValue, hGet⟩ := getValue_of_mem hUnique hReconcile hVersion place
    rw [Canonical.keys_ofSource, hKey, Option.map_some] at hValue
    obtain ⟨value, rfl, hOwn⟩ := Option.map_eq_some_iff.mp hValue
    exact ⟨value, hOwn.symm, hGet⟩
  · rintro place version (hNone | hPlace)
    · exact getValue_of_notMem hReconcile hNone place
    · by_cases hVersion : version ∈ versions.map (·.1)
      · obtain ⟨listed, hListed, rfl⟩ := List.mem_map.mp hVersion
        obtain ⟨value?, hValue, hGet⟩ := getValue_of_mem hUnique hReconcile hListed place
        rw [Canonical.keys_ofSource, List.getElem?_eq_none hPlace, Option.map_none,
          Option.map_eq_none_iff] at hValue
        rw [hGet, hValue]
      · exact getValue_of_notMem hReconcile hVersion place
  · intro identifier version
    refine ⟨fun place hPlace => ?_, fun hNone => ?_, ?_⟩
    · have hGet := getValue_eq_get? rfl hPlace version
      have hSame : generated.get? identifier version = table.get? version identifier := by
        rw [GeneratedModule.get?, hLookup]
        rfl
      rw [Lookup.hasValue, GeneratedModule.has, hSame, hGet]
      exact ⟨rfl, rfl⟩
    · rw [GeneratedModule.get?, hLookup]
      exact get?_eq_none hNone version
    · rw [GeneratedModule.isAllowed, hLookup]
      rfl

end Described

/-- Two versions of the fields of two tables, in different orders. -/
def pageVersions : List Version :=
  [("en", .grouped [("home", [("title", "Home"), ("text", "Hello")]), ("end", [("text", "Bye")])]),
    ("de", .grouped [("end", [("text", "Ende")]), ("home", [("text", "Hallo"), ("title", "Start")])])]

/-- A definition of these versions. -/
def pages : Definition where
  source := ⟨"pages.json"⟩
  className := "Pages"
  namespacePath := ["app"]
  addedNamespace := []
  kind := .tableDirectory
  versionPrefix := none
  body := .values pageVersions "en"

/-- The field of the second table has the place after the fields of the first table, and the
accessor finds there what the second version says first. -/
theorem getValue_pages :
    ∃ generated lookup, describe {} pages = .ok generated ∧ generated.lookup? = some lookup ∧
      generated.Declares 2 (.grouped "end" "text") ∧
      lookup.getValue 2 "de" = some (some "Ende") ∧ lookup.getValue 3 "de" = some none := by
  obtain ⟨generated, hGenerated⟩ : ∃ generated, describe {} pages = .ok generated := ⟨_, rfl⟩
  obtain ⟨main, lookup, hMain, hLookup, hKeys, hNone, -⟩ :=
    getValue_eq_source_value (rfl : pages.body = _) ⟨by decide, by decide⟩ hGenerated
  obtain rfl : main = .grouped
      [("home", [("title", "Home"), ("text", "Hello")]), ("end", [("text", "Bye")])] := by
    simpa [pageVersions] using hMain
  obtain ⟨hDeclares, -, hValues⟩ := hKeys 2 (.grouped "end" "text") rfl
  obtain ⟨value, hValue, hGet⟩ := hValues _ (List.mem_cons_of_mem _ List.mem_cons_self)
  cases hValue
  exact ⟨generated, lookup, hGenerated, hLookup, hDeclares, hGet,
    hNone 3 "de" (.inr (Nat.le_refl 3))⟩

end ResourceTables
