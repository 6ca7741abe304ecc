import Mathlib.Data.List.Perm.Basic
import ResourceTables.Proofs.Reconciliation.Refusal

/-!
# Order of entries and versions

Reconciliation goes through versions, tables and entries in an order and stops at the first fault.
The order of the entries of a version that is not the default matters only for the order in which
its extra keys are told, and the order of the versions only for the order of the rows; a row is made
of its own version and the default version alone.

## Main definitions

* `Source.Reordered`: the same tables and entries, in another order.
* `Fault.Reordered`: the same fault, but for the order of the extra keys.

## Main results

* `VersionRefused.reordered`, `alignVersion_reordered`: the order of the entries of one version.
* `reconcile_reordered`, `exists_reconcile_of_perm`: the order of entries, and of versions.
-/

namespace ResourceTables

/-- The entries of a source in another order; for grouped data the tables, and then the entries of
each table. A list, whose elements go by their places, has no other order. -/
inductive Source.Reordered : Source → Source → Prop where
  | literal {records others : Records} (h : records.Perm others) :
      Reordered (.literal records) (.literal others)
  | keyed {records others : Records} (h : records.Perm others) :
      Reordered (.keyed records) (.keyed others)
  | grouped {tables moved others : List (String × Records)} (hTables : tables.Perm moved)
      (hFields : List.Forall₂ (fun table other => table.1 = other.1 ∧ table.2.Perm other.2)
        moved others) : Reordered (.grouped tables) (.grouped others)

/-- The same fault, but for the order in which extra keys are told. -/
inductive Fault.Reordered : Fault → Fault → Prop where
  | same (fault : Fault) : Reordered fault fault
  | keys (version : String) {keys others : List String} (h : keys.Perm others) :
      Reordered (.undefinedKeys version keys) (.undefinedKeys version others)

/-! ## One version -/

namespace Source.Reordered

variable {source other : Source} {tables others : List (String × Records)}

theorem symm (h : source.Reordered other) : other.Reordered source := by
  cases h with
  | literal h => exact .literal h.symm
  | keyed h => exact .keyed h.symm
  | @grouped tables moved others hTables hFields =>
    -- The tables can be moved after their entries just as well as before.
    obtain ⟨middle, hMiddle, hMoved⟩ := List.perm_comp_forall₂ hTables hFields
    exact .grouped hMoved.symm (hMiddle.flip.imp fun _ _ h => ⟨h.1.symm, h.2.symm⟩)

theorem perm_names (h : (Source.grouped tables).Reordered (.grouped others)) :
    (tables.map (·.1)).Perm (others.map (·.1)) := by
  cases h with
  | grouped hTables hFields =>
    have hNames := List.forall₂_map_right_iff.mpr (List.forall₂_map_left_iff.mpr
      (hFields.imp fun _ _ h => h.1))
    rw [List.forall₂_eq_eq_eq] at hNames
    exact hNames ▸ hTables.map _

theorem exists_of_mem (h : (Source.grouped tables).Reordered (.grouped others)) {name : String}
    {records : Records} (hMem : (name, records) ∈ tables) :
    ∃ moved, (name, moved) ∈ others ∧ records.Perm moved := by
  cases h with
  | grouped hTables hFields =>
    obtain ⟨place, hPlace⟩ := List.mem_iff_getElem?.mp (hTables.mem_iff.mp hMem)
    obtain ⟨⟨_, moved⟩, hMoved, rfl, hPerm⟩ := exists_getElem?_of_forall₂ hFields hPlace
    exact ⟨moved, List.mem_of_getElem? hMoved, hPerm⟩

theorem exists_grouped (h : (Source.grouped tables).Reordered other) :
    ∃ others, other = .grouped others := by
  cases h with
  | @grouped _ _ others => exact ⟨others, rfl⟩

theorem isGrouped_eq (h : source.Reordered other) : other.isGrouped = source.isGrouped := by
  cases h <;> rfl

theorem hasUniqueKeys (h : source.Reordered other) (hUnique : source.HasUniqueKeys) :
    other.HasUniqueKeys := by
  cases source with
  | literal records =>
    cases h with
    | literal hPerm => exact (hPerm.map _).nodup_iff.mp hUnique
  | keyed records =>
    cases h with
    | keyed hPerm => exact (hPerm.map _).nodup_iff.mp hUnique
  | list elements => cases h
  | grouped tables =>
    obtain ⟨others, rfl⟩ := h.exists_grouped
    refine ⟨h.perm_names.nodup_iff.mp hUnique.1, fun table hTable => ?_⟩
    obtain ⟨records, hRecords, hPerm⟩ := h.symm.exists_of_mem hTable
    exact (hPerm.map _).nodup_iff.mpr (hUnique.2 _ hRecords)

/-- A source gives the same values, in whatever order its entries are. -/
theorem value?_eq (h : source.Reordered other) (hUnique : source.HasUniqueKeys) (place : Nat)
    (key : Key) : source.value? place key = other.value? place key := by
  cases source with
  | literal records =>
    cases h with
    | literal hPerm =>
      cases key with
      | flat key => exact lookup_eq_of_perm hUnique hPerm key
      | grouped table field => rfl
  | keyed records =>
    cases h with
    | keyed hPerm =>
      cases key with
      | flat key => exact lookup_eq_of_perm hUnique hPerm key
      | grouped table field => rfl
  | list elements => cases h
  | grouped tables =>
    obtain ⟨others, rfl⟩ := h.exists_grouped
    cases key with
    | flat key => rfl
    | grouped table field =>
      -- A table that one source has, the other has too, with its entries in another order.
      have hOthers := h.hasUniqueKeys hUnique
      rw [Source.value?, Source.value?]
      cases hTable : tables.lookup table with
      | none =>
        cases hOther : others.lookup table with
        | none => rfl
        | some moved =>
          obtain ⟨records, hRecords, -⟩ := h.symm.exists_of_mem (mem_of_lookup hOther)
          rw [(lookup_eq_some_iff_mem hUnique.1).mpr hRecords] at hTable
          cases hTable
      | some records =>
        obtain ⟨moved, hMoved, hPerm⟩ := h.exists_of_mem (mem_of_lookup hTable)
        rw [(lookup_eq_some_iff_mem hOthers.1).mpr hMoved]
        exact lookup_eq_of_perm (hUnique.2 _ (mem_of_lookup hTable)) hPerm field

end Source.Reordered

/-- The order of keys matters only for the order in which extra keys are told. -/
theorem KeysRefused.reordered {version : String} {label : String → String}
    {keys own others : List String} {fault : Fault} (h : KeysRefused version label keys own fault)
    (hPerm : own.Perm others) :
    ∃ other, KeysRefused version label keys others other ∧ fault.Reordered other := by
  cases h with
  | lacking before key after hKeys hDistinct hBefore hKey =>
    refine ⟨_, .lacking before key after hKeys hDistinct (fun earlier hMem => ?_) ?_, .same _⟩
    · exact hPerm.mem_iff.mp (hBefore earlier hMem)
    · rwa [← hPerm.mem_iff]
  | extra hDistinct hKeys hExtra =>
    obtain ⟨key, hKey, hNot⟩ := hExtra
    exact ⟨_, .extra hDistinct (fun key hMem => hPerm.mem_iff.mp (hKeys key hMem))
      ⟨key, hPerm.mem_iff.mp hKey, hNot⟩, .keys version ((hPerm.filter _).map label)⟩

theorem forall_not_keysRefused_of_perm {version : String} {label : String → String}
    {keys own others : List String} (hPerm : own.Perm others)
    (h : ∀ fault, ¬KeysRefused version label keys own fault) (fault : Fault) :
    ¬KeysRefused version label keys others fault := by
  intro hRefused
  obtain ⟨other, hOther, -⟩ := hRefused.reordered hPerm.symm
  exact h other hOther

/-- The order of tables and entries matters only for the order in which extra keys are told. -/
theorem VersionRefused.reordered {canonical : Canonical} {name : String} {source moved : Source}
    {fault : Fault} (h : VersionRefused canonical (name, source) fault)
    (hMoved : source.Reordered moved) :
    ∃ other, VersionRefused canonical (name, moved) other ∧ fault.Reordered other := by
  cases h with
  | groupedAmongFlat keys _ tables =>
    cases hMoved
    exact ⟨_, .groupedAmongFlat keys name _, .same _⟩
  | flatAmongGrouped tables _ _ hFlat =>
    exact ⟨_, .flatAmongGrouped tables name moved (hMoved.isGrouped_eq.trans hFlat), .same _⟩
  | literal hKeys =>
    cases hMoved with
    | literal hPerm =>
      obtain ⟨other, hOther, hFault⟩ := hKeys.reordered (hPerm.map _)
      exact ⟨other, .literal hOther, hFault⟩
  | keyed hKeys =>
    cases hMoved with
    | keyed hPerm =>
      obtain ⟨other, hOther, hFault⟩ := hKeys.reordered (hPerm.map _)
      exact ⟨other, .keyed hOther, hFault⟩
  | list => cases hMoved
  | tableNames hNames =>
    obtain ⟨others, rfl⟩ := hMoved.exists_grouped
    obtain ⟨other, hOther, hFault⟩ := hNames.reordered hMoved.perm_names
    exact ⟨other, .tableNames hOther, hFault⟩
  | fields hNames before table after hTables hBefore records hRecords hFields =>
    obtain ⟨others, rfl⟩ := hMoved.exists_grouped
    obtain ⟨entries, hEntries, hPerm⟩ := hMoved.exists_of_mem hRecords
    obtain ⟨other, hOther, hFault⟩ := hFields.reordered (hPerm.map _)
    refine ⟨other, .fields ?_ before table after hTables ?_ entries hEntries hOther, hFault⟩
    · exact forall_not_keysRefused_of_perm hMoved.perm_names hNames
    · intro earlier hEarlier entries hEntries
      obtain ⟨records, hRecords, hSame⟩ := hMoved.symm.exists_of_mem hEntries
      exact forall_not_keysRefused_of_perm (hSame.symm.map _)
        (hBefore earlier hEarlier records hRecords)

/-- A version whose entries are in another order is aligned to the same row, or told of alike. -/
theorem alignVersion_reordered {canonical : Canonical} {name : String} {source moved : Source}
    (hUnique : source.HasUniqueKeys) (hMoved : source.Reordered moved) :
    Checked.Related Fault.Reordered Eq (alignVersion canonical (name, source))
      (alignVersion canonical (name, moved)) := by
  have hOther := hMoved.hasUniqueKeys hUnique
  cases hSource : alignVersion canonical (name, source) with
  | error fault =>
    obtain ⟨other, hRefused, hFault⟩ :=
      ((alignVersion_eq_error_iff hUnique).mp hSource).reordered hMoved
    rw [(alignVersion_eq_error_iff hOther).mpr hRefused]
    exact .error hFault
  | ok row =>
    obtain ⟨other, hAligned⟩ : ∃ row, alignVersion canonical (name, moved) = .ok row := by
      rw [alignVersion_isOk_iff_forall hOther]
      intro fault hRefused
      obtain ⟨other, hBack, -⟩ := hRefused.reordered hMoved.symm
      exact (alignVersion_isOk_iff_forall hUnique).mp ⟨row, hSource⟩ other hBack
    rw [hAligned]
    refine .ok ?_
    -- Both rows hold the values that the two sources give to the keys, which are the same.
    have hValues : row.values = other.values := by
      refine (List.map_inj_right fun _ _ => Option.some.inj).mp ?_
      rw [map_some_of_alignVersion hUnique hSource, map_some_of_alignVersion hOther hAligned]
      exact congrArg (List.mapIdx · _) (funext₂ fun place key => hMoved.value?_eq hUnique place key)
    have hNames :=
      (alignVersion_eq_ok_iff.mp hSource).1.trans (alignVersion_eq_ok_iff.mp hAligned).1.symm
    cases row
    cases other
    simp_all

/-! ## All versions -/

/-- A version is kept as it is, or it is not the default version and its entries are in another
order. -/
def ReorderedBut (defaultVersion : String) (version other : Version) : Prop :=
  version = other ∨
    version.1 ≠ defaultVersion ∧ version.1 = other.1 ∧ version.2.Reordered other.2

section Versions

variable {versions others : List Version} {defaultVersion : String} {canonical : Canonical}
  {table : ReconciledTable}

theorem lookup_eq_of_reorderedBut
    (h : List.Forall₂ (ReorderedBut defaultVersion) versions others) :
    versions.lookup defaultVersion = others.lookup defaultVersion := by
  induction h with
  | nil => rfl
  | @cons version other _ _ hVersion _ ih =>
    rcases hVersion with rfl | ⟨hne, hName, -⟩
    · rw [List.lookup_cons, List.lookup_cons, ih]
    · have hOther : (defaultVersion == other.1) = false := by
        rw [← hName]
        exact beq_eq_false_iff_ne.mpr hne.symm
      rw [List.lookup_cons, List.lookup_cons, hOther, beq_eq_false_iff_ne.mpr hne.symm, ih]

/-- The order of the entries of versions other than the default version does not matter for what
reconciliation yields, nor for what it reports, but for the order of extra keys. -/
theorem reconcile_reordered (hUnique : UniqueVersions versions)
    (h : List.Forall₂ (ReorderedBut defaultVersion) versions others) :
    Checked.Related Fault.Reordered Eq (reconcile versions defaultVersion)
      (reconcile others defaultVersion) := by
  rw [reconcile, reconcile, ← lookup_eq_of_reorderedBut h]
  cases versions.lookup defaultVersion with
  | none => exact .error (.same _)
  | some main =>
    have hEach : List.Forall₂ (fun version other => Checked.Related Fault.Reordered Eq
        (alignVersion (.ofSource main) version) (alignVersion (.ofSource main) other))
        versions others := by
      refine ((List.forall₂_and_left _ _).mpr ⟨hUnique.keys, h⟩).imp ?_
      rintro ⟨name, source⟩ ⟨_, moved⟩ ⟨hKeys, hEq | ⟨-, rfl, hMoved⟩⟩
      · cases hEq
        exact .refl .same (fun _ => rfl) _
      · exact alignVersion_reordered hKeys hMoved
    refine (Checked.Related.mapM hEach).bind fun rows moved _ _ hRows => ?_
    rw [List.forall₂_eq_eq_eq] at hRows
    subst hRows
    exact .refl .same (fun _ => rfl) _

/-- Versions with the results of a step, where the step succeeds. -/
theorem zip_eq_filterMap {α β : Type} {f : α → Checked β} {xs : List α} {ys : List β}
    (h : List.Forall₂ (fun x y => f x = .ok y) xs ys) :
    xs.zip ys = xs.filterMap fun x => (f x).toOption.map (x, ·) := by
  induction h with
  | nil => rfl
  | cons hFirst _ ih => simp [hFirst, ih, Except.toOption]

theorem UniqueVersions.perm (hUnique : UniqueVersions versions) (h : versions.Perm others) :
    UniqueVersions others where
  names := (h.map _).nodup_iff.mp hUnique.names
  keys version hVersion := hUnique.keys version (h.mem_iff.mpr hVersion)

/-- Versions in another order are reconciled to the same keys and identifiers, and to the same row
for each version. -/
theorem exists_reconcile_of_perm (hUnique : UniqueVersions versions) (hPerm : versions.Perm others)
    (h : reconcile versions defaultVersion = .ok (canonical, table)) :
    ∃ moved, reconcile others defaultVersion = .ok (canonical, moved) ∧
      table.identifiers = moved.identifiers ∧
      (versions.zip table.rows).Perm (others.zip moved.rows) := by
  obtain ⟨main, hDefault, hCanonical, hRows, hDistinct, hIdentifiers⟩ := reconcile_eq_ok_iff.mp h
  have hAligned := Checked.mapM_isOk_iff.mp ⟨table.rows, Checked.mapM_eq_ok_iff.mpr hRows⟩
  obtain ⟨rows, hMoved⟩ := Checked.mapM_isOk_iff.mpr fun version hVersion =>
    hAligned version (hPerm.mem_iff.mpr hVersion)
  rw [Checked.mapM_eq_ok_iff] at hMoved
  refine ⟨⟨table.identifiers, rows⟩, reconcile_eq_ok_iff.mpr ⟨main, ?_, hCanonical, hMoved,
    hDistinct, hIdentifiers⟩, rfl, ?_⟩
  · rw [← lookup_eq_of_perm hUnique.names hPerm, hDefault]
  · rw [zip_eq_filterMap hRows, zip_eq_filterMap hMoved]
    exact hPerm.filterMap _

/-- With the same default version, the keys, the identifiers and the row of a version do not depend
on what other versions there are. -/
theorem row?_eq_of_reconcile {other : Canonical × ReconciledTable} {main : Source}
    (hUnique : UniqueVersions versions) (hOthers : UniqueVersions others)
    (hMain : (defaultVersion, main) ∈ versions) (hMainOthers : (defaultVersion, main) ∈ others)
    (h : reconcile versions defaultVersion = .ok (canonical, table))
    (hOther : reconcile others defaultVersion = .ok other) :
    canonical = other.1 ∧ table.identifiers = other.2.identifiers ∧
      ∀ version ∈ versions, version ∈ others →
        ∃ row, table.row? version.1 = some row ∧ other.2.row? version.1 = some row := by
  obtain ⟨main₁, hDefault₁, rfl, -, -, hIdentifiers⟩ := reconcile_eq_ok_iff.mp h
  obtain ⟨main₂, hDefault₂, hCanonical, -, -, hIdentifiersOther⟩ := reconcile_eq_ok_iff.mp hOther
  rw [(lookup_eq_some_iff_mem hUnique.names).mpr hMain, Option.some.injEq] at hDefault₁
  rw [(lookup_eq_some_iff_mem hOthers.names).mpr hMainOthers, Option.some.injEq] at hDefault₂
  subst hDefault₁ hDefault₂
  refine ⟨hCanonical.symm, hIdentifiers.trans hIdentifiersOther.symm, ?_⟩
  intro version hMem hMemOther
  obtain ⟨row, hRow, hAligned⟩ := row?_of_reconcile hUnique h hMem
  obtain ⟨rowOther, hRowOther, hAlignedOther⟩ := row?_of_reconcile hOthers hOther hMemOther
  rw [hCanonical, hAligned, Except.ok.injEq] at hAlignedOther
  exact ⟨row, hRow, hAlignedOther ▸ hRowOther⟩

/-- Reconciliation and the order of what it reads. First, the order of the entries of versions other
than the default version changes nothing, or only the order in which extra keys are reported. Second,
versions in another order are reconciled as well, to the same keys and identifiers, and each version
keeps its row. Third, versions can be removed and replaced: as long as the default version stays and
reconciliation succeeds, the keys, the identifiers and the row of a version that stays are the
same. -/
theorem reconcile_independent_of_order (hUnique : UniqueVersions versions) (others : List Version) :
    (List.Forall₂ (ReorderedBut defaultVersion) versions others →
      Checked.Related Fault.Reordered Eq (reconcile versions defaultVersion)
        (reconcile others defaultVersion)) ∧
    (versions.Perm others →
      Checked.Related (fun _ _ => True)
        (fun result other => result.1 = other.1 ∧ result.2.identifiers = other.2.identifiers ∧
          (versions.zip result.2.rows).Perm (others.zip other.2.rows))
        (reconcile versions defaultVersion) (reconcile others defaultVersion)) ∧
    (UniqueVersions others →
      (∃ main, (defaultVersion, main) ∈ versions ∧ (defaultVersion, main) ∈ others) →
      ∀ result other, reconcile versions defaultVersion = .ok result →
        reconcile others defaultVersion = .ok other →
        result.1 = other.1 ∧ result.2.identifiers = other.2.identifiers ∧
          ∀ version ∈ versions, version ∈ others →
            ∃ row, result.2.row? version.1 = some row ∧ other.2.row? version.1 = some row) := by
  refine ⟨reconcile_reordered hUnique, fun hPerm => ?_, ?_⟩
  · cases hResult : reconcile versions defaultVersion with
    | ok result =>
      obtain ⟨moved, hMoved, hIdentifiers, hRows⟩ := exists_reconcile_of_perm hUnique hPerm hResult
      rw [hMoved]
      exact .ok ⟨rfl, hIdentifiers, hRows⟩
    | error fault =>
      cases hOther : reconcile others defaultVersion with
      | error _ => exact .error trivial
      | ok other =>
        -- Success carries over in both directions, so a fault does, too.
        obtain ⟨moved, hMoved, -⟩ :=
          exists_reconcile_of_perm (hUnique.perm hPerm) hPerm.symm hOther
        rw [hResult] at hMoved
        cases hMoved
  · rintro hOthers ⟨main, hMain, hMainOthers⟩ ⟨canonical, table⟩ other hResult hOther
    exact row?_eq_of_reconcile hUnique hOthers hMain hMainOthers hResult hOther

end Versions

/-- The greetings, the German ones in the order of the English ones. -/
def greetingsMoved : List Version :=
  [("en", .literal [("hello", "Hello"), ("good-bye", "Bye")]),
    ("de", .keyed [("hello", "Hallo"), ("good-bye", "Tschau")]),
    ("fr", .list ["Bonjour", "Au revoir"])]

/-- The order of the German greetings does not matter, nor that of the versions, and without the
French ones the German row is the same. -/
theorem reconcile_greetings_moved :
    Checked.Related Fault.Reordered Eq (reconcile greetings "en") (reconcile greetingsMoved "en") ∧
    Checked.Related (fun _ _ => True)
      (fun result other => result.1 = other.1 ∧ result.2.identifiers = other.2.identifiers ∧
        (greetings.zip result.2.rows).Perm (greetings.reverse.zip other.2.rows))
      (reconcile greetings "en") (reconcile greetings.reverse "en") ∧
    ∃ result other, reconcile greetings "en" = .ok result ∧
      reconcile (greetings.take 2) "en" = .ok other ∧
      result.2.identifiers = other.2.identifiers ∧
      ∃ row, result.2.row? "de" = some row ∧ other.2.row? "de" = some row := by
  have hMoved : List.Forall₂ (ReorderedBut "en") greetings greetingsMoved :=
    .cons (.inl rfl) (.cons (.inr ⟨by decide, rfl, .keyed (.swap _ _ _)⟩) (.cons (.inl rfl) .nil))
  have hOrder := @reconcile_independent_of_order greetings "en" uniqueVersions_greetings
  refine ⟨(hOrder greetingsMoved).1 hMoved,
    (hOrder greetings.reverse).2.1 (List.reverse_perm greetings).symm, _, _, rfl, rfl, ?_⟩
  obtain ⟨-, hIdentifiers, hRows⟩ := (hOrder (greetings.take 2)).2.2 ⟨by decide, by decide⟩
    ⟨_, List.mem_cons_self, List.mem_cons_self⟩ _ _ rfl rfl
  exact ⟨hIdentifiers, hRows _ (List.mem_cons_of_mem _ List.mem_cons_self)
    (List.mem_cons_of_mem _ List.mem_cons_self)⟩

end ResourceTables
