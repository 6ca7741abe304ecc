import ResourceTables.Proofs.Reconciliation.Symmetry

/-!
# Lists as records

Values that go by their places go as well by keys, namely by the elements of the default list at
these places: lists of one length are reconciled as the records that pair these keys with their
elements, whatever the elements are.

## Main definitions

* `listVersion`, `keyedVersion`: values as a list, and as records with given keys.

## Main results

* `takeKeys_zip`: values that are paired with keys are taken out in order.
* `reconcile_eq_of_rows`: what is left of reconciliation when all versions are aligned.
* `reconcile_lists_eq_keyed`: lists and their records are reconciled alike.
-/

namespace ResourceTables

variable {keys values : List String} {defaultVersion : String}

/-- A version whose values go by their places. -/
def listVersion (version : String × List String) : Version :=
  (version.1, .list version.2)

/-- The version with the same values, each under the key at its place. -/
def keyedVersion (keys : List String) (version : String × List String) : Version :=
  (version.1, .keyed (keys.zip version.2))

/-! ## One version -/

/-- Keys that differ from each other find the values they are paired with. -/
theorem map_lastValue_zip (hDistinct : keys.Nodup) (hLength : values.length = keys.length) :
    keys.map (lastValue? (keys.zip values)) = values.map some := by
  have hKeys : (keys.zip values).map (·.1) = keys := List.map_fst_zip (Nat.le_of_eq hLength.symm)
  refine List.ext_getElem (by simp [hLength]) fun place hKey hValue => ?_
  rw [List.length_map] at hKey hValue
  rw [List.getElem_map, List.getElem_map, lastValue_eq_lookup _ (hKeys.symm ▸ hDistinct),
    lookup_eq_some_iff_mem (hKeys.symm ▸ hDistinct), List.mem_iff_getElem]
  exact ⟨place, by rw [List.length_zip]; omega, List.getElem_zip⟩

/-- Values that are paired with keys are taken out in the order of the keys. -/
theorem takeKeys_zip {version : String} {label : String → String} (hDistinct : keys.Nodup)
    (hLength : values.length = keys.length) :
    takeKeys version label keys (keys.zip values) = .ok values :=
  takeKeys_eq_ok_iff.mpr ⟨hDistinct, fun _ hEntry => (List.of_mem_zip hEntry).1,
    (map_lastValue_zip hDistinct hLength).symm⟩

theorem alignVersion_listVersion {version : String × List String}
    (hLength : version.2.length = keys.length) :
    alignVersion (.flat keys) (listVersion version) = .ok ⟨version.1, version.2⟩ :=
  alignVersion_eq_ok_iff.mpr ⟨rfl, takePositions_eq_ok_iff.mpr ⟨hLength, rfl⟩⟩

theorem alignVersion_keyedVersion {version : String × List String} (hDistinct : keys.Nodup)
    (hLength : version.2.length = keys.length) :
    alignVersion (.flat keys) (keyedVersion keys version) = .ok ⟨version.1, version.2⟩ :=
  alignVersion_eq_ok_iff.mpr ⟨rfl, takeKeys_zip hDistinct hLength⟩

/-! ## All versions -/

/-- When all versions are aligned, it is left to claim the identifiers. -/
theorem reconcile_eq_of_rows {versions : List Version} {main : Source} {rows : List VersionRow}
    (hMain : versions.lookup defaultVersion = some main)
    (hRows : versions.mapM (alignVersion (.ofSource main)) = .ok rows) :
    reconcile versions defaultVersion =
      (claimAll .empty (Canonical.ofSource main).claims).map fun _ =>
        (.ofSource main, ⟨(Canonical.ofSource main).claims.map (·.1), rows⟩) := by
  rw [reconcile, hMain]
  simp only [hRows]
  cases claimAll .empty (Canonical.ofSource main).claims <;> rfl

/-- Sources that are aligned as the lists they are made of, with the keys of the default version,
come down to one result. -/
theorem reconcile_of_aligned {lists : List (String × List String)}
    {source : String × List String → Source} (hDefault : lists.lookup defaultVersion = some keys)
    (hKeys : Canonical.ofSource (source (defaultVersion, keys)) = .flat keys)
    (hAligned : ∀ version ∈ lists,
      alignVersion (.flat keys) (version.1, source version) = .ok ⟨version.1, version.2⟩) :
    reconcile (lists.map fun version => (version.1, source version)) defaultVersion =
      (claimAll .empty (Canonical.flat keys).claims).map fun _ =>
        (.flat keys, ⟨(Canonical.flat keys).claims.map (·.1),
          lists.map fun version => ⟨version.1, version.2⟩⟩) := by
  have hRows : (lists.map fun version => (version.1, source version)).mapM
      (alignVersion (.ofSource (source (defaultVersion, keys)))) =
      .ok (lists.map fun version => ⟨version.1, version.2⟩) := by
    rw [hKeys, Checked.mapM_eq_ok_iff, List.forall₂_map_left_iff, List.forall₂_map_right_iff,
      List.forall₂_same]
    exact hAligned
  rw [reconcile_eq_of_rows (lookup_map_of_lookup hDefault source) hRows, hKeys]

/-- Lists as long as the default list, whose elements differ from each other, are reconciled as the
records that pair its elements with theirs. The result has a row for each list, which is the list
itself; only two elements of the default list with one identifier are refused. -/
theorem reconcile_lists_eq_keyed {lists : List (String × List String)}
    (hDefault : lists.lookup defaultVersion = some keys) (hDistinct : keys.Nodup)
    (hLength : ∀ version ∈ lists, version.2.length = keys.length) :
    reconcile (lists.map listVersion) defaultVersion =
        reconcile (lists.map (keyedVersion keys)) defaultVersion ∧
      ((keys.map flatIdentifier).Nodup →
        reconcile (lists.map listVersion) defaultVersion =
          .ok (.flat keys, ⟨keys.map flatIdentifier,
            lists.map fun version => ⟨version.1, version.2⟩⟩)) ∧
      (¬(keys.map flatIdentifier).Nodup →
        ∃ clash, reconcile (lists.map listVersion) defaultVersion =
          .error (.duplicateIdentifier clash)) := by
  have hIdentifiers : (Canonical.flat keys).claims.map (·.1) = keys.map flatIdentifier := by
    simp [Canonical.claims, Function.comp_def]
  have hKeys : Canonical.ofSource (.keyed (keys.zip keys)) = .flat keys :=
    congrArg Canonical.flat (List.map_fst_zip (Nat.le_refl _))
  have hLists : reconcile (lists.map listVersion) defaultVersion = _ :=
    reconcile_of_aligned hDefault rfl fun version hVersion =>
      alignVersion_listVersion (hLength version hVersion)
  have hRecords : reconcile (lists.map (keyedVersion keys)) defaultVersion = _ :=
    reconcile_of_aligned hDefault hKeys fun version hVersion =>
      alignVersion_keyedVersion hDistinct (hLength version hVersion)
  refine ⟨hLists.trans hRecords.symm, fun hNodup => ?_, fun hClash => ?_⟩
  · obtain ⟨scope, hScope⟩ := claimAll_empty_isOk_iff.mpr (hIdentifiers ▸ hNodup)
    rw [hLists, hScope, hIdentifiers]
    rfl
  · cases hScope : claimAll .empty (Canonical.flat keys).claims with
    | ok scope => exact absurd (hIdentifiers ▸ claimAll_empty_isOk_iff.mp ⟨scope, hScope⟩) hClash
    | error fault =>
      obtain ⟨_, claim, _, first, -, -, rfl⟩ := claimAll_eq_error_iff.mp hScope
      exact ⟨_, by rw [hLists, hScope]; rfl⟩

/-- Colours by their places, where the second version has one word for both. -/
def colourLists : List (String × List String) :=
  [("en", ["light", "dark-blue"]), ("de", ["hell", "hell"])]

/-- The colours are reconciled in both forms, and refused in both once the default list spells one
identifier in two ways. -/
theorem reconcile_colourLists :
    (∃ table, reconcile (colourLists.map listVersion) "en" =
        .ok (.flat ["light", "dark-blue"], table) ∧
      reconcile (colourLists.map (keyedVersion ["light", "dark-blue"])) "en" =
        .ok (.flat ["light", "dark-blue"], table) ∧
      table.identifiers = ["LIGHT", "DARK_BLUE"]) ∧
    ∃ clash, reconcile ([("en", ["dark_blue", "dark-blue"])].map listVersion) "en" =
        .error (.duplicateIdentifier clash) ∧
      reconcile ([("en", ["dark_blue", "dark-blue"])].map
        (keyedVersion ["dark_blue", "dark-blue"])) "en" = .error (.duplicateIdentifier clash) := by
  have hColours : ["light", "dark-blue"].map flatIdentifier = ["LIGHT", "DARK_BLUE"] := by
    decide +kernel
  have hSpellings : ["dark_blue", "dark-blue"].map flatIdentifier = ["DARK_BLUE", "DARK_BLUE"] := by
    decide +kernel
  obtain ⟨hSame, hAccepted, -⟩ := @reconcile_lists_eq_keyed ["light", "dark-blue"] "en" colourLists
    rfl (by decide) (by decide)
  obtain ⟨hSameClash, -, hRefused⟩ := @reconcile_lists_eq_keyed ["dark_blue", "dark-blue"] "en"
    [("en", ["dark_blue", "dark-blue"])] rfl (by decide) (by decide)
  rw [hColours] at hAccepted
  rw [hSpellings] at hRefused
  obtain ⟨clash, hClash⟩ := hRefused (by decide)
  exact ⟨⟨_, hAccepted (by decide), hSame ▸ hAccepted (by decide), rfl⟩,
    clash, hClash, hSameClash ▸ hClash⟩

end ResourceTables
