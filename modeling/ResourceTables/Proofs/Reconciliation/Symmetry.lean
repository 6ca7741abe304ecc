import ResourceTables.Proofs.Claims
import ResourceTables.Proofs.Reconciliation.Alignment

/-!
# Symmetric versions

Reconciliation accepts exactly the versions that are symmetric: the default version is among them,
every version agrees with it, and the keys have identifiers that differ from each other. The table
that comes out has a row for each version and in each row a value for each identifier.

## Main definitions

* `SymmetricVersions`: versions that all have the keys of the default version.
-/

namespace ResourceTables

/-- Versions that all have the layout and the keys of the default version, whose keys can be told
apart by their identifiers. -/
def SymmetricVersions (versions : List Version) (defaultVersion : String) : Prop :=
  ∃ main, (defaultVersion, main) ∈ versions ∧
    (∀ version ∈ versions, version.2.AgreesWith main) ∧ (main.keys.map Key.identifier).Nodup

/-- What reconciliation makes of versions: the keys are those of the default version, each version
is aligned with them, and their identifiers can all be claimed. -/
theorem reconcile_eq_ok_iff {versions : List Version} {defaultVersion : String}
    {canonical : Canonical} {table : ReconciledTable} :
    reconcile versions defaultVersion = .ok (canonical, table) ↔
      ∃ main, versions.lookup defaultVersion = some main ∧ canonical = .ofSource main ∧
        List.Forall₂ (fun version row => alignVersion canonical version = .ok row)
          versions table.rows ∧
        (main.keys.map Key.identifier).Nodup ∧
        table.identifiers = main.keys.map Key.identifier := by
  have hClaims : ∀ main : Source, (Canonical.ofSource main).claims.map (·.1) =
      main.keys.map Key.identifier := by
    intro main
    rw [Canonical.claims_eq_map_keys, List.map_map, Canonical.keys_ofSource]
    rfl
  rw [reconcile]
  cases hDefault : versions.lookup defaultVersion with
  | none => simp
  | some main =>
    simp only [Checked.bind_eq_ok, Checked.mapM_eq_ok_iff, hClaims, Option.some.injEq,
      exists_eq_left']
    constructor
    · rintro ⟨rows, hRows, scope, hScope, hEq⟩
      cases hEq
      refine ⟨rfl, hRows, ?_, rfl⟩
      rw [← hClaims]
      exact claimAll_empty_isOk_iff.mp ⟨scope, hScope⟩
    · rintro ⟨rfl, hRows, hNodup, hIdentifiers⟩
      rw [← hClaims] at hNodup
      obtain ⟨scope, hScope⟩ := claimAll_empty_isOk_iff.mpr hNodup
      refine ⟨table.rows, hRows, scope, hScope, ?_⟩
      rw [← hIdentifiers]
      rfl

section Accepted

variable {versions : List Version} {defaultVersion : String} {canonical : Canonical}
  {table : ReconciledTable}

/-- The rows are those that the versions are aligned to. -/
theorem forall₂_of_reconcile (h : reconcile versions defaultVersion = .ok (canonical, table)) :
    List.Forall₂ (fun version row => alignVersion canonical version = .ok row)
      versions table.rows := by
  obtain ⟨main, -, -, hRows, -⟩ := reconcile_eq_ok_iff.mp h
  exact hRows

theorem identifiers_of_reconcile
    (h : reconcile versions defaultVersion = .ok (canonical, table)) :
    table.identifiers = canonical.keys.map Key.identifier := by
  obtain ⟨main, -, rfl, -, -, hIdentifiers⟩ := reconcile_eq_ok_iff.mp h
  rw [hIdentifiers, Canonical.keys_ofSource]

theorem nodup_identifiers_of_reconcile
    (h : reconcile versions defaultVersion = .ok (canonical, table)) :
    table.identifiers.Nodup := by
  obtain ⟨main, -, -, -, hNodup, hIdentifiers⟩ := reconcile_eq_ok_iff.mp h
  rwa [hIdentifiers]

/-- At the place of a version there is the row that it is aligned to. -/
theorem exists_row_of_reconcile (h : reconcile versions defaultVersion = .ok (canonical, table))
    {place : Nat} {version : Version} (hVersion : versions[place]? = some version) :
    ∃ row, table.rows[place]? = some row ∧ alignVersion canonical version = .ok row :=
  exists_getElem?_of_forall₂ (forall₂_of_reconcile h) hVersion

theorem length_rows_of_reconcile
    (h : reconcile versions defaultVersion = .ok (canonical, table)) :
    table.rows.length = versions.length :=
  (forall₂_of_reconcile h).length_eq.symm

theorem versionNames_of_reconcile
    (h : reconcile versions defaultVersion = .ok (canonical, table)) :
    table.versionNames = versions.map (·.1) := by
  -- Names are compared place by place, because that is how versions and rows correspond.
  refine List.ext_getElem? fun place => ?_
  rw [ReconciledTable.versionNames, List.getElem?_map, List.getElem?_map]
  cases hVersion : versions[place]? with
  | some version =>
    obtain ⟨row, hRow, hAligned⟩ := exists_row_of_reconcile h hVersion
    rw [hRow, Option.map_some, Option.map_some, (alignVersion_eq_ok_iff.mp hAligned).1]
  | none =>
    have hPlace := List.getElem?_eq_none_iff.mp hVersion
    rw [List.getElem?_eq_none (length_rows_of_reconcile h ▸ hPlace)]
    rfl

/-- A row has as many values as there are identifiers. -/
theorem length_values_of_mem_rows
    (h : reconcile versions defaultVersion = .ok (canonical, table)) {row : VersionRow}
    (hRow : row ∈ table.rows) : row.values.length = table.identifiers.length := by
  obtain ⟨place, hPlace, rfl⟩ := List.mem_iff_getElem.mp hRow
  have hVersion := List.getElem?_eq_getElem (length_rows_of_reconcile h ▸ hPlace)
  obtain ⟨row, hGet, hAligned⟩ := exists_row_of_reconcile h hVersion
  rw [List.getElem?_eq_getElem hPlace, Option.some.injEq] at hGet
  rw [hGet, length_of_alignVersion hAligned, identifiers_of_reconcile h, List.length_map]

/-- The row of a listed version is the one that the version is aligned to. -/
theorem row?_of_reconcile (hUnique : UniqueVersions versions)
    (h : reconcile versions defaultVersion = .ok (canonical, table)) {version : Version}
    (hVersion : version ∈ versions) :
    ∃ row, table.row? version.1 = some row ∧ alignVersion canonical version = .ok row := by
  obtain ⟨place, hPlace⟩ := List.mem_iff_getElem?.mp hVersion
  obtain ⟨row, hRow, hAligned⟩ := exists_row_of_reconcile h hPlace
  have hNames : (table.rows.map (·.name)).Nodup := by
    rw [← ReconciledTable.versionNames, versionNames_of_reconcile h]
    exact hUnique.names
  refine ⟨row, ?_, hAligned⟩
  rw [ReconciledTable.row?, ← List.head?_filter, filter_eq_singleton hNames
    (List.mem_of_getElem? hRow) (alignVersion_eq_ok_iff.mp hAligned).1, List.head?_cons]

theorem row?_eq_none (h : reconcile versions defaultVersion = .ok (canonical, table))
    {version : String} (hVersion : version ∉ versions.map (·.1)) : table.row? version = none := by
  rw [← versionNames_of_reconcile h, ReconciledTable.versionNames, List.mem_map] at hVersion
  rw [ReconciledTable.row?, List.find?_eq_none]
  intro row hRow hName
  exact hVersion ⟨row, hRow, beq_iff_eq.mp hName⟩

theorem get?_eq_none_of_row? {version : String} (hNone : table.row? version = none)
    (identifier : String) : table.get? version identifier = none := by
  rw [ReconciledTable.get?, hNone]
  cases table.index? identifier <;> rfl

theorem get?_eq_none {identifier : String} (hNone : table.index? identifier = none)
    (version : String) : table.get? version identifier = none := by
  rw [ReconciledTable.get?, hNone]
  rfl

theorem index?_eq_of_getElem? {keys : List Key} (hUnique : (keys.map Key.identifier).Nodup)
    (hIdentifiers : table.identifiers = keys.map Key.identifier) {place : Nat} {key : Key}
    (hKey : keys[place]? = some key) : table.index? key.identifier = some place := by
  obtain ⟨hPlace, rfl⟩ := List.getElem?_eq_some_iff.mp hKey
  rw [ReconciledTable.index?, hIdentifiers]
  exact idxOf?_eq_of_nodup hUnique (by simpa using hPlace) (by simp)

/-- The value under the identifier of a key is the one that the version itself gives to the key. -/
theorem get?_of_reconcile (hUnique : UniqueVersions versions)
    (h : reconcile versions defaultVersion = .ok (canonical, table)) {version : Version}
    (hVersion : version ∈ versions) {place : Nat} {key : Key}
    (hKey : canonical.keys[place]? = some key) :
    table.get? version.1 key.identifier = version.2.value? place key := by
  obtain ⟨row, hRow, hAligned⟩ := row?_of_reconcile hUnique h hVersion
  have hDistinct := nodup_identifiers_of_reconcile h
  rw [identifiers_of_reconcile h] at hDistinct
  have hPlace : table.index? key.identifier = some place :=
    index?_eq_of_getElem? hDistinct (identifiers_of_reconcile h) hKey
  have hValue : row.values[place]?.map some = some (version.2.value? place key) := by
    rw [← List.getElem?_map, map_some_of_alignVersion (hUnique.keys _ hVersion) hAligned,
      List.getElem?_mapIdx, hKey, Option.map_some]
  obtain ⟨value, hGet, hOwn⟩ := Option.map_eq_some_iff.mp hValue
  rw [ReconciledTable.get?, hPlace, hRow, ← hOwn]
  exact hGet

end Accepted

/-- Versions can be reconciled if they are symmetric. -/
theorem exists_reconcile_iff {versions : List Version} {defaultVersion : String}
    (hUnique : UniqueVersions versions) :
    (∃ canonical table, reconcile versions defaultVersion = .ok (canonical, table)) ↔
      SymmetricVersions versions defaultVersion := by
  -- Either way the identifiers differ from each other, hence the keys do, which alignment needs.
  have hAligned : ∀ main, (defaultVersion, main) ∈ versions →
      (main.keys.map Key.identifier).Nodup → ∀ version ∈ versions,
      ((∃ row, alignVersion (.ofSource main) version = .ok row) ↔ version.2.AgreesWith main) :=
    fun main hMain hNodup version hVersion =>
      alignVersion_isOk_iff (hUnique.keys _ hMain) (hNodup.of_map _) (hUnique.keys _ hVersion)
  constructor
  · rintro ⟨canonical, table, h⟩
    obtain ⟨main, hDefault, rfl, hRows, hNodup, -⟩ := reconcile_eq_ok_iff.mp h
    have hMain := mem_of_lookup hDefault
    have hAll := Checked.mapM_isOk_iff.mp ⟨table.rows, Checked.mapM_eq_ok_iff.mpr hRows⟩
    exact ⟨main, hMain, fun version hVersion =>
      (hAligned main hMain hNodup version hVersion).mp (hAll version hVersion), hNodup⟩
  · rintro ⟨main, hMain, hAgree, hNodup⟩
    obtain ⟨rows, hRows⟩ := Checked.mapM_isOk_iff.mpr fun version hVersion =>
      (hAligned main hMain hNodup version hVersion).mpr (hAgree version hVersion)
    exact ⟨.ofSource main, ⟨main.keys.map Key.identifier, rows⟩, reconcile_eq_ok_iff.mpr
      ⟨main, (lookup_eq_some_iff_mem hUnique.names).mpr hMain, rfl,
        Checked.mapM_eq_ok_iff.mp hRows, hNodup, rfl⟩⟩

/-- Reconciliation accepts exactly the symmetric versions, also lists and tables whose flattened
identifiers might collide. Its result has the keys of the default version in their order, the
identifier of each key, one row for each version in the order of the versions, and in each row as
many values as there are identifiers. -/
theorem reconcile_isOk_iff_symmetric {versions : List Version} {defaultVersion : String}
    (hUnique : UniqueVersions versions) :
    ((∃ canonical table, reconcile versions defaultVersion = .ok (canonical, table)) ↔
      SymmetricVersions versions defaultVersion) ∧
    ∀ canonical table, reconcile versions defaultVersion = .ok (canonical, table) →
      ∃ main, (defaultVersion, main) ∈ versions ∧
        canonical = .ofSource main ∧ canonical.keys = main.keys ∧
        table.identifiers = main.keys.map Key.identifier ∧
        table.rows.map (·.name) = versions.map (·.1) ∧
        ∀ row ∈ table.rows, row.values.length = table.identifiers.length := by
  refine ⟨exists_reconcile_iff hUnique, fun canonical table h => ?_⟩
  obtain ⟨main, hDefault, rfl, -, -, hIdentifiers⟩ := reconcile_eq_ok_iff.mp h
  exact ⟨main, mem_of_lookup hDefault, rfl, Canonical.keys_ofSource main, hIdentifiers,
    versionNames_of_reconcile h, fun row hRow => length_values_of_mem_rows h hRow⟩

/-- Three versions of two keys: records in two orders, and a list. -/
def greetings : List Version :=
  [("en", .literal [("hello", "Hello"), ("good-bye", "Bye")]),
    ("de", .keyed [("good-bye", "Tschau"), ("hello", "Hallo")]),
    ("fr", .list ["Bonjour", "Au revoir"])]

theorem uniqueVersions_greetings : UniqueVersions greetings where
  names := by decide
  keys := by decide

/-- The greetings are reconciled, hence they are symmetric. -/
theorem symmetricVersions_greetings :
    UniqueVersions greetings ∧ SymmetricVersions greetings "en" :=
  ⟨uniqueVersions_greetings,
    (reconcile_isOk_iff_symmetric uniqueVersions_greetings).1.mp ⟨_, _, rfl⟩⟩

end ResourceTables
