import Mathlib.Data.List.Perm.Basic
import ResourceTables.Proofs.Reconciliation.Symmetry

/-!
# The choice of the default version

The default version decides in which order keys come. Where every version names its keys, it decides
nothing else: agreement of keys is symmetric and transitive, so versions that agree with one of them
agree with any, and a value is found by its identifier wherever it stands.

## Main definitions

* `Source.NamesKeys`: a source that is no list.

## Main results

* `SymmetricVersions.of_listed`: versions are symmetric about every one of them.
* `reconcile_independent_of_default`: what does not depend on the default version.
-/

namespace ResourceTables

/-- A source has keys of its own, other than a list, whose elements go by their places. -/
def Source.NamesKeys : Source → Prop
  | .list _ => False
  | _ => True

instance : DecidablePred Source.NamesKeys
  | .list _ => inferInstanceAs (Decidable False)
  | .literal _ => inferInstanceAs (Decidable True)
  | .keyed _ => inferInstanceAs (Decidable True)
  | .grouped _ => inferInstanceAs (Decidable True)

namespace Source.NamesKeys

variable {source main other : Source}

/-- Where keys are named, agreement is equality of layout, tables and keys. -/
theorem agreesWith_iff (h : source.NamesKeys) :
    source.AgreesWith main ↔ source.isGrouped = main.isGrouped ∧
      (∀ name, name ∈ source.tableNames ↔ name ∈ main.tableNames) ∧
      ∀ key, key ∈ source.keys ↔ key ∈ main.keys := by
  cases source with
  | list elements => cases h
  | literal records => rfl
  | keyed records => rfl
  | grouped tables => rfl

/-- Two sources that agree with a third one agree with each other. -/
theorem agreesWith_of_both (h : source.NamesKeys) (hOther : other.NamesKeys)
    (hAgree : source.AgreesWith main) (hOtherAgree : other.AgreesWith main) :
    source.AgreesWith other := by
  obtain ⟨hLayout, hTables, hKeys⟩ := h.agreesWith_iff.mp hAgree
  obtain ⟨hLayout', hTables', hKeys'⟩ := hOther.agreesWith_iff.mp hOtherAgree
  exact h.agreesWith_iff.mpr ⟨hLayout.trans hLayout'.symm,
    fun name => (hTables name).trans (hTables' name).symm,
    fun key => (hKeys key).trans (hKeys' key).symm⟩

/-- Named keys are different, also those of different tables. -/
theorem nodup_keys (h : source.NamesKeys) (hUnique : source.HasUniqueKeys) :
    source.keys.Nodup := by
  have hRecords : ∀ records : Records, (records.map (·.1)).Nodup →
      (records.map fun record => Key.flat record.1).Nodup := by
    intro records hNodup
    simpa [Function.comp_def] using hNodup.map fun _ _ => Key.flat.inj
  cases source with
  | list elements => cases h
  | literal records => exact hRecords records hUnique
  | keyed records => exact hRecords records hUnique
  | grouped tables =>
    refine List.nodup_flatMap.mpr ⟨fun table hTable => ?_, ?_⟩
    · simpa [Function.comp_def] using
        (hUnique.2 table hTable).map fun _ _ hEq => (Key.grouped.inj hEq).2
    · refine (List.pairwise_map.mp hUnique.1).imp fun hne key hFirst hSecond => ?_
      obtain ⟨_, -, rfl⟩ := List.mem_map.mp hFirst
      obtain ⟨_, -, hEq⟩ := List.mem_map.mp hSecond
      exact hne (Key.grouped.inj hEq).1.symm

/-- Sources that agree have the same keys, in two orders. -/
theorem perm_keys (h : source.NamesKeys) (hUnique : source.HasUniqueKeys) (hMain : main.keys.Nodup)
    (hAgree : source.AgreesWith main) : source.keys.Perm main.keys :=
  (List.perm_ext_iff_of_nodup (h.nodup_keys hUnique) hMain).mpr (h.agreesWith_iff.mp hAgree).2.2

/-- Where keys are named, the place of a key does not matter for its value. -/
theorem value?_eq (h : source.NamesKeys) (place other : Nat) (key : Key) :
    source.value? place key = source.value? other key := by
  cases source with
  | list elements => cases h
  | literal records => cases key <;> rfl
  | keyed records => cases key <;> rfl
  | grouped tables => cases key <;> rfl

end Source.NamesKeys

section Choice

variable {versions : List Version} {first second : String}

/-- Where all keys are named, symmetric versions are symmetric about every one of them. -/
theorem SymmetricVersions.of_listed (hUnique : UniqueVersions versions)
    (hNamed : ∀ version ∈ versions, version.2.NamesKeys) (h : SymmetricVersions versions first)
    (hSecond : second ∈ versions.map (·.1)) : SymmetricVersions versions second := by
  obtain ⟨main, hMain, hAgree, hDistinct⟩ := h
  obtain ⟨⟨_, other⟩, hOther, rfl⟩ := List.mem_map.mp hSecond
  refine ⟨other, hOther, fun version hVersion => ?_, ?_⟩
  · exact (hNamed version hVersion).agreesWith_of_both (hNamed _ hOther) (hAgree version hVersion)
      (hAgree _ hOther)
  · have hKeys := (hNamed _ hOther).perm_keys (hUnique.keys _ hOther) (hDistinct.of_map _)
      (hAgree _ hOther)
    exact (hKeys.map _).nodup_iff.mpr hDistinct

theorem exists_reconcile_iff_of_listed (hUnique : UniqueVersions versions)
    (hNamed : ∀ version ∈ versions, version.2.NamesKeys) (hFirst : first ∈ versions.map (·.1))
    (hSecond : second ∈ versions.map (·.1)) :
    (∃ canonical table, reconcile versions first = .ok (canonical, table)) ↔
      ∃ canonical table, reconcile versions second = .ok (canonical, table) := by
  rw [exists_reconcile_iff hUnique, exists_reconcile_iff hUnique]
  exact ⟨fun h => h.of_listed hUnique hNamed hSecond, fun h => h.of_listed hUnique hNamed hFirst⟩

/-- Keys that are reconciled about two versions are the same, in two orders. -/
theorem perm_keys_of_reconcile {canonical canonicalOther : Canonical}
    {table other : ReconciledTable} (hUnique : UniqueVersions versions)
    (hNamed : ∀ version ∈ versions, version.2.NamesKeys)
    (h : reconcile versions first = .ok (canonical, table))
    (hOther : reconcile versions second = .ok (canonicalOther, other)) :
    canonical.keys.Perm canonicalOther.keys := by
  obtain ⟨main, hMain, hAgree, -⟩ := (exists_reconcile_iff hUnique).mp ⟨_, _, h⟩
  obtain ⟨own, hOwn, rfl, -, -, -⟩ := reconcile_eq_ok_iff.mp h
  obtain ⟨ownOther, hOwnOther, rfl, -, hDistinct, -⟩ := reconcile_eq_ok_iff.mp hOther
  have hFirst := mem_of_lookup hOwn
  have hSecond := mem_of_lookup hOwnOther
  rw [Canonical.keys_ofSource, Canonical.keys_ofSource]
  exact (hNamed _ hFirst).perm_keys (hUnique.keys _ hFirst) (hDistinct.of_map _)
    ((hNamed _ hFirst).agreesWith_of_both (hNamed _ hSecond) (hAgree _ hFirst) (hAgree _ hSecond))

/-- A value is found by its identifier, whichever version the table is reconciled about. -/
theorem get?_eq_of_reconcile {canonical canonicalOther : Canonical}
    {table other : ReconciledTable} (hUnique : UniqueVersions versions)
    (hNamed : ∀ version ∈ versions, version.2.NamesKeys)
    (h : reconcile versions first = .ok (canonical, table))
    (hOther : reconcile versions second = .ok (canonicalOther, other))
    (version identifier : String) :
    table.get? version identifier = other.get? version identifier := by
  have hKeys := perm_keys_of_reconcile hUnique hNamed h hOther
  by_cases hVersion : version ∈ versions.map (·.1)
  · obtain ⟨listed, hListed, rfl⟩ := List.mem_map.mp hVersion
    by_cases hIdentifier : identifier ∈ canonical.keys.map Key.identifier
    · -- The key of the identifier has a place in both tables, and its value needs neither.
      obtain ⟨key, hKey, rfl⟩ := List.mem_map.mp hIdentifier
      obtain ⟨place, hPlace⟩ := List.mem_iff_getElem?.mp hKey
      obtain ⟨placeOther, hPlaceOther⟩ := List.mem_iff_getElem?.mp (hKeys.mem_iff.mp hKey)
      rw [get?_of_reconcile hUnique h hListed hPlace,
        get?_of_reconcile hUnique hOther hListed hPlaceOther]
      exact (hNamed listed hListed).value?_eq place placeOther key
    · have hIdentifierOther : identifier ∉ canonicalOther.keys.map Key.identifier :=
        fun hMem => hIdentifier ((hKeys.map _).mem_iff.mpr hMem)
      rw [← identifiers_of_reconcile h] at hIdentifier
      rw [← identifiers_of_reconcile hOther] at hIdentifierOther
      rw [get?_eq_none (List.idxOf?_eq_none_iff.mpr hIdentifier),
        get?_eq_none (List.idxOf?_eq_none_iff.mpr hIdentifierOther)]
  · rw [get?_eq_none_of_row? (row?_eq_none h hVersion),
      get?_eq_none_of_row? (row?_eq_none hOther hVersion)]

/-- Where no version is a list, any listed version can be the default version: reconciliation
succeeds with one exactly if it succeeds with another, and then the two tables have the same
identifiers and the same value for every version and identifier. -/
theorem reconcile_independent_of_default (hUnique : UniqueVersions versions)
    (hNamed : ∀ version ∈ versions, version.2.NamesKeys) (hFirst : first ∈ versions.map (·.1))
    (hSecond : second ∈ versions.map (·.1)) :
    ((∃ result, reconcile versions first = .ok result) ↔
      ∃ result, reconcile versions second = .ok result) ∧
    ∀ result other, reconcile versions first = .ok result →
      reconcile versions second = .ok other →
      (∀ identifier, identifier ∈ result.2.identifiers ↔ identifier ∈ other.2.identifiers) ∧
      ∀ version identifier, result.2.get? version identifier = other.2.get? version identifier := by
  refine ⟨?_, fun ⟨canonical, table⟩ ⟨canonicalOther, other⟩ h hOther => ⟨fun identifier => ?_,
    get?_eq_of_reconcile hUnique hNamed h hOther⟩⟩
  · simpa only [Prod.exists] using exists_reconcile_iff_of_listed hUnique hNamed hFirst hSecond
  · rw [identifiers_of_reconcile h, identifiers_of_reconcile hOther]
    exact ((perm_keys_of_reconcile hUnique hNamed h hOther).map _).mem_iff

end Choice

/-- The fields of two tables, which the German version has in another order. -/
def sitePages : List Version :=
  [("en", .grouped [("home", [("title", "Home"), ("text", "Hello")]), ("end", [("text", "Bye")])]),
    ("de", .grouped [("end", [("text", "Ende")]),
      ("home", [("text", "Hallo"), ("title", "Start")])])]

/-- About the German version the pages have another order, and the same values. -/
theorem get?_sitePages :
    ∃ english german, reconcile sitePages "en" = .ok english ∧
      reconcile sitePages "de" = .ok german ∧
      english.2.identifiers ≠ german.2.identifiers ∧
      ∀ version identifier,
        english.2.get? version identifier = german.2.get? version identifier := by
  have hChoice := @reconcile_independent_of_default sitePages "en" "de" ⟨by decide, by decide⟩
    (by decide) (by decide) (by decide)
  obtain ⟨german, hGerman⟩ := hChoice.1.mp ⟨_, rfl⟩
  obtain rfl := Except.ok.inj hGerman
  exact ⟨_, _, rfl, rfl, by decide, (hChoice.2 _ _ rfl rfl).2⟩

end ResourceTables
