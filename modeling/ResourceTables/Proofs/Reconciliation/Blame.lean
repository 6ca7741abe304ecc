import ResourceTables.Proofs.Reconciliation.Refusal

/-!
# What reconciliation finds at fault

When no key comes twice, the default version is listed and all versions have one layout, then the
default version agrees with itself, so what is refused is refused for another version: it lacks a
key, or it has keys of its own. Else two keys share an identifier.

## Main definitions

* `LoadedVersions`: what loading promises about versions and their default version.
* `Fault.BlamesKeys`: a version lacks a key, or has others than the default version.

## Main results

* `alignVersion_default_isOk`: the default version agrees with itself.
* `LoadedVersions.fault_of_reconcile`: what reconciliation refuses such versions for.
-/

namespace ResourceTables

/-- What loading promises about versions and their default version: no name and no key comes twice,
the default version is listed, and all versions are parted into tables, or none is. -/
structure LoadedVersions (versions : List Version) (defaultVersion : String) : Prop
    extends UniqueVersions versions where
  listed : defaultVersion ∈ versions.map (·.1)
  layout : (∀ version ∈ versions, version.2.isGrouped = true) ∨
    ∀ version ∈ versions, version.2.isGrouped = false

/-- A version lacks a key of the default version, or has keys that the default version lacks. -/
def Fault.BlamesKeys (version : String) (fault : Fault) : Prop :=
  (∃ key, fault = .missingKey version key) ∨ ∃ keys, fault = .undefinedKeys version keys

/-! ## Faults of an alignment -/

theorem KeysRefused.blamesKeys {version : String} {label : String → String}
    {keys own : List String} {fault : Fault} (h : KeysRefused version label keys own fault) :
    fault.BlamesKeys version := by
  cases h with
  | lacking => exact .inl ⟨_, rfl⟩
  | extra => exact .inr ⟨_, rfl⟩

theorem PlacesRefused.blamesKeys {version : String} {keys : List String} {size : Nat}
    {fault : Fault} (h : PlacesRefused version keys size fault) : fault.BlamesKeys version := by
  cases h with
  | lacking => exact .inl ⟨_, rfl⟩
  | extra => exact .inr ⟨_, rfl⟩

/-- A version with the layout of the keys is refused for its keys alone. -/
theorem VersionRefused.blamesKeys {canonical : Canonical} {version : Version} {fault : Fault}
    (hLayout : version.2.isGrouped = canonical.isGrouped)
    (h : VersionRefused canonical version fault) : fault.BlamesKeys version.1 := by
  cases h with
  | groupedAmongFlat => cases hLayout
  | flatAmongGrouped _ _ _ hFlat => cases hFlat.symm.trans hLayout
  | literal hKeys => exact hKeys.blamesKeys
  | keyed hKeys => exact hKeys.blamesKeys
  | list hPlaces => exact hPlaces.blamesKeys
  | tableNames hNames => exact hNames.blamesKeys
  | fields _ _ _ _ _ _ _ _ hFields => exact hFields.blamesKeys

/-! ## The default version -/

/-- A source without repeated keys agrees with the keys that it has itself; the elements of a list
may repeat. -/
theorem alignVersion_default_isOk {main : Source} (hMain : main.HasUniqueKeys) (name : String) :
    ∃ row, alignVersion (.ofSource main) (name, main) = .ok row := by
  have hRow : ∀ aligned : Checked (List String), (∃ values, aligned = .ok values) →
      ∃ row : VersionRow, (aligned >>= fun values => pure ⟨name, values⟩) = .ok row := by
    rintro aligned ⟨values, rfl⟩
    exact ⟨⟨name, values⟩, rfl⟩
  cases main with
  | literal records => exact hRow _ (takeKeys_isOk_iff.mpr ⟨hMain, fun _ => Iff.rfl⟩)
  | keyed records => exact hRow _ (takeKeys_isOk_iff.mpr ⟨hMain, fun _ => Iff.rfl⟩)
  | list elements => exact hRow _ ⟨elements, takePositions_eq_ok_iff.mpr ⟨rfl, rfl⟩⟩
  | grouped tables =>
    apply hRow
    exact (alignGrouped_isOk_iff_agreesWith hMain hMain).mpr
      ⟨rfl, fun _ => Iff.rfl, fun _ => Iff.rfl⟩

theorem Canonical.isGrouped_ofSource (source : Source) :
    (Canonical.ofSource source).isGrouped = source.isGrouped := by
  cases source <;> rfl

namespace LoadedVersions

variable {versions : List Version} {defaultVersion : String}

/-- The default version has a source, and all others have its layout. -/
theorem exists_default (h : LoadedVersions versions defaultVersion) :
    ∃ main, versions.lookup defaultVersion = some main ∧ (defaultVersion, main) ∈ versions ∧
      ∀ version ∈ versions, version.2.isGrouped = main.isGrouped := by
  obtain ⟨main, hMain⟩ := exists_lookup_iff.mpr h.listed
  have hMem := mem_of_lookup hMain
  refine ⟨main, hMain, hMem, fun version hVersion => ?_⟩
  rcases h.layout with hGrouped | hFlat
  · rw [hGrouped version hVersion, ← hGrouped _ hMem]
  · rw [hFlat version hVersion, ← hFlat _ hMem]

/-- Loaded versions are refused because two keys share an identifier, or because a version other
than the default version has not its keys. -/
theorem fault_of_reconcile (h : LoadedVersions versions defaultVersion) {fault : Fault}
    (hFault : reconcile versions defaultVersion = .error fault) :
    (∃ clash, fault = .duplicateIdentifier clash) ∨
      ∃ version ∈ versions, version.1 ≠ defaultVersion ∧ fault.BlamesKeys version.1 := by
  obtain ⟨main, hDefault, hMain, hLayout⟩ := h.exists_default
  rw [reconcile, hDefault] at hFault
  rcases Checked.bind_eq_error.mp hFault with hRows | ⟨rows, -, hAfter⟩
  · obtain ⟨version, hVersion, hAligned⟩ := Checked.exists_of_mapM_eq_error hRows
    refine .inr ⟨version, hVersion, ?_, ?_⟩
    · -- Under the name of the default version there is only the default version.
      rintro rfl
      have hSame : versions.lookup version.1 = some version.2 :=
        (lookup_eq_some_iff_mem h.names).mpr hVersion
      obtain rfl := Option.some.inj (hDefault.symm.trans hSame)
      obtain ⟨row, hRow⟩ := alignVersion_default_isOk (h.keys version hVersion) version.1
      rw [hRow] at hAligned
      cases hAligned
    · apply VersionRefused.blamesKeys _
        ((alignVersion_eq_error_iff (h.keys version hVersion)).mp hAligned)
      rw [Canonical.isGrouped_ofSource]
      exact hLayout version hVersion
  · rcases Checked.bind_eq_error.mp hAfter with hClaims | ⟨scope, -, hEq⟩
    · obtain ⟨_, _, _, _, _, _, rfl⟩ := claimAll_eq_error_iff.mp hClaims
      exact .inl ⟨_, rfl⟩
    · cases hEq

end LoadedVersions

end ResourceTables
