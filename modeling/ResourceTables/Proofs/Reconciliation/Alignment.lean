import ResourceTables.Proofs.Checked
import ResourceTables.Proofs.Entries
import ResourceTables.Proofs.Reconciliation.Keys

/-!
# Alignment of a version

When the values of a version can be brought into the order of the canonical keys, and which values
they are then. Taking keys out one by one succeeds exactly if the keys differ from each other, all
of them are there, and nothing is left over; the tables of grouped data are taken out like keys, and
then the fields of each table.
-/

namespace ResourceTables

variable {α : Type} {version : String} {label : String → String}

/-! ## Keys and positions -/

theorem lastValue_filter_self (entries : List (String × α)) (key : String) :
    lastValue? (entries.filter fun entry => entry.1 != key) key = none := by
  rw [lastValue?, List.lookup_eq_none_iff]
  intro entry hEntry
  have hne : entry.1 ≠ key := by
    simpa using (List.mem_filter.mp (List.mem_reverse.mp hEntry)).2
  simpa using hne.symm

/-- Keys can be taken out of entries if they differ from each other, all of them have a value, and
no entry has another key. -/
theorem takeKeys_eq_ok_iff {keys : List String} {entries : List (String × α)} {values : List α} :
    takeKeys version label keys entries = .ok values ↔
      keys.Nodup ∧ (∀ entry ∈ entries, entry.1 ∈ keys) ∧
        values.map some = keys.map (lastValue? entries) := by
  induction keys generalizing entries values with
  | nil =>
    cases entries with
    | nil => cases values <;> simp [takeKeys]
    | cons entry rest =>
      simp only [takeKeys, reduceCtorEq, false_iff]
      rintro ⟨-, hLeft, -⟩
      exact List.not_mem_nil (hLeft entry List.mem_cons_self)
  | cons key keys ih =>
    rw [takeKeys]
    cases hValue : lastValue? entries key with
    | none => cases values <;> simp [hValue]
    | some value =>
      simp only [Checked.bind_eq_ok, ih, List.map_cons, hValue, List.nodup_cons]
      constructor
      · rintro ⟨rest, ⟨hNodup, hLeft, hRest⟩, hEq⟩
        cases hEq
        -- A key that came again would have to have a value after it was taken out.
        have hFresh : key ∉ keys := by
          intro hMem
          have hNone : none ∈ rest.map some := by
            rw [hRest, ← lastValue_filter_self entries key]
            exact List.mem_map_of_mem hMem
          simp at hNone
        refine ⟨⟨hFresh, hNodup⟩, fun entry hEntry => ?_, ?_⟩
        · by_cases hKey : entry.1 = key
          · simp [hKey]
          · exact List.mem_cons_of_mem _
              (hLeft entry (List.mem_filter.mpr ⟨hEntry, by simpa using hKey⟩))
        · rw [List.map_cons, hRest]
          congr 1
          exact List.map_congr_left fun other hOther =>
            lastValue_filter (by rintro rfl; exact hFresh hOther)
      · rintro ⟨⟨hFresh, hNodup⟩, hLeft, hValues⟩
        cases values with
        | nil => simp at hValues
        | cons first rest =>
          rw [List.map_cons, List.cons.injEq] at hValues
          obtain ⟨hFirst, hRest⟩ := hValues
          cases hFirst
          refine ⟨rest, ⟨hNodup, fun entry hEntry => ?_, ?_⟩, rfl⟩
          · obtain ⟨hMem, hne⟩ := List.mem_filter.mp hEntry
            exact (List.mem_cons.mp (hLeft entry hMem)).resolve_left (by simpa using hne)
          · rw [hRest]
            exact List.map_congr_left fun other hOther =>
              (lastValue_filter (by rintro rfl; exact hFresh hOther)).symm

theorem length_of_takeKeys {keys : List String} {entries : List (String × α)} {values : List α}
    (h : takeKeys version label keys entries = .ok values) : values.length = keys.length := by
  have hValues := congrArg List.length (takeKeys_eq_ok_iff.mp h).2.2
  simpa using hValues

/-- Keys can be taken out of entries if they differ from each other and are the keys of the
entries. -/
theorem takeKeys_isOk_iff {keys : List String} {entries : List (String × α)} :
    (∃ values, takeKeys version label keys entries = .ok values) ↔
      keys.Nodup ∧ ∀ key, key ∈ entries.map (·.1) ↔ key ∈ keys := by
  simp only [takeKeys_eq_ok_iff, exists_and_left, exists_map_some_eq_iff, exists_lastValue_iff]
  refine and_congr_right fun _ => ?_
  constructor
  · rintro ⟨hLeft, hAll⟩ key
    refine ⟨fun hKey => ?_, hAll key⟩
    obtain ⟨entry, hEntry, rfl⟩ := List.mem_map.mp hKey
    exact hLeft entry hEntry
  · intro hSame
    exact ⟨fun entry hEntry => (hSame _).mp (List.mem_map_of_mem hEntry),
      fun key hKey => (hSame key).mpr hKey⟩

theorem takePositions_eq_ok_iff {keys elements values : List String} :
    takePositions version keys elements = .ok values ↔
      elements.length = keys.length ∧ values = elements := by
  rw [takePositions]
  cases hMissing : keys[elements.length]? with
  | some missing =>
    have := (List.getElem?_eq_some_iff.mp hMissing).1
    simp only [reduceCtorEq, false_iff]
    omega
  | none =>
    have := List.getElem?_eq_none_iff.mp hMissing
    -- No key is left without an element; a superfluous element is all that can go wrong.
    by_cases hLonger : keys.length < elements.length
    · rw [if_pos hLonger]
      simp only [reduceCtorEq, false_iff]
      omega
    · rw [if_neg hLonger]
      constructor
      · intro h
        cases h
        exact ⟨by omega, rfl⟩
      · rintro ⟨-, rfl⟩
        rfl

/-! ## Tables -/

section Tables

variable {own : List (String × Records)} {tables : List KeyTable} {groups : List Records}
  {values : List String}

theorem mem_keys_grouped_iff {table field : String} :
    Key.grouped table field ∈ (Source.grouped own).keys ↔
      ∃ records, (table, records) ∈ own ∧ field ∈ records.map (·.1) := by
  simp only [Source.keys, List.mem_flatMap, List.mem_map, Key.grouped.injEq, Prod.exists]
  grind

/-- The values of tables are the values that the source gives to their fields. -/
theorem map_some_of_alignTables (hFields : ∀ table ∈ own, (table.2.map (·.1)).Nodup)
    (hGroups : groups.map some = tables.map fun table => own.lookup table.name)
    (h : alignTables version tables groups = .ok values) :
    values.map some = tables.flatMap fun table => table.fields.map fun field =>
      (Source.grouped own).value? 0 (.grouped table.name field) := by
  -- Tables and groups are walked in step, and `hGroups` keeps each table with its own records.
  induction tables generalizing groups values with
  | nil =>
    cases h
    rfl
  | cons table tables ih =>
    rw [List.map_cons] at hGroups
    obtain ⟨records, groups, rfl, hRecords, hGroups⟩ := List.map_eq_cons_iff.mp hGroups
    obtain ⟨first, hFirst, hAfter⟩ := Checked.bind_eq_ok.mp h
    obtain ⟨rest, hRest, hEq⟩ := Checked.bind_eq_ok.mp hAfter
    cases hEq
    have hUnique := hFields _ (mem_of_lookup hRecords.symm)
    rw [List.map_append, ih hGroups hRest, (takeKeys_eq_ok_iff.mp hFirst).2.2, List.flatMap_cons]
    congr 1
    refine List.map_congr_left fun field _ => ?_
    rw [lastValue_eq_lookup field hUnique, Source.value?, ← hRecords, Option.bind_some]

/-- Each field of the tables has a value, if there is a group for each table. -/
theorem length_of_alignTables (hGroups : groups.length = tables.length)
    (h : alignTables version tables groups = .ok values) :
    values.length = (Canonical.grouped tables).keys.length := by
  induction tables generalizing groups values with
  | nil =>
    cases h
    rfl
  | cons table tables ih =>
    cases groups with
    | nil => simp at hGroups
    | cons records groups =>
      obtain ⟨first, hFirst, hAfter⟩ := Checked.bind_eq_ok.mp h
      obtain ⟨rest, hRest, hEq⟩ := Checked.bind_eq_ok.mp hAfter
      cases hEq
      have hLater := ih (Nat.succ.inj hGroups) hRest
      rw [Canonical.keys] at hLater ⊢
      rw [List.length_append, length_of_takeKeys hFirst, hLater, List.flatMap_cons,
        List.length_append, List.length_map]

/-- Tables can be aligned if the fields of each differ from each other and are the fields of the
table of the source. -/
theorem alignTables_isOk_iff
    (hGroups : groups.map some = tables.map fun table => own.lookup table.name) :
    (∃ values, alignTables version tables groups = .ok values) ↔
      ∀ table ∈ tables, table.fields.Nodup ∧ ∀ field,
        (∃ records, own.lookup table.name = some records ∧ field ∈ records.map (·.1)) ↔
          field ∈ table.fields := by
  induction tables generalizing groups with
  | nil => simp [alignTables]
  | cons table tables ih =>
    rw [List.map_cons] at hGroups
    obtain ⟨records, groups, rfl, hRecords, hGroups⟩ := List.map_eq_cons_iff.mp hGroups
    rw [List.forall_mem_cons, ← ih hGroups, ← hRecords]
    simp only [Option.some.injEq, exists_eq_left', alignTables, Checked.bind_eq_ok,
      ← @takeKeys_isOk_iff _ version (groupedLabel table.name)]
    constructor
    · rintro ⟨values, first, hFirst, rest, hRest, -⟩
      exact ⟨⟨first, hFirst⟩, rest, hRest⟩
    · rintro ⟨⟨first, hFirst⟩, rest, hRest⟩
      exact ⟨first ++ rest, first, hFirst, rest, hRest, rfl⟩

/-- The tables of grouped data are taken out by their names, like keys. -/
theorem alignGrouped_eq_ok_iff (hNames : (own.map (·.1)).Nodup) :
    alignGrouped version tables (.grouped own) = .ok values ↔
      (tables.map (·.name)).Nodup ∧ (∀ name, name ∈ own.map (·.1) ↔ name ∈ tables.map (·.name)) ∧
        ∃ groups : List Records, (groups.map some = tables.map fun table => own.lookup table.name) ∧
          alignTables version tables groups = .ok values := by
  have hLookup : (tables.map (·.name)).map (lastValue? own) =
      tables.map fun table => own.lookup table.name := by
    rw [List.map_map]
    exact List.map_congr_left fun table _ => lastValue_eq_lookup table.name hNames
  rw [alignGrouped, Checked.bind_eq_ok]
  constructor
  · rintro ⟨groups, hGroups, hValues⟩
    obtain ⟨hNodup, hSame⟩ := takeKeys_isOk_iff.mp ⟨groups, hGroups⟩
    exact ⟨hNodup, hSame, groups, hLookup ▸ (takeKeys_eq_ok_iff.mp hGroups).2.2, hValues⟩
  · rintro ⟨hNodup, hSame, groups, hGroups, hValues⟩
    refine ⟨groups, takeKeys_eq_ok_iff.mpr ⟨hNodup, fun table hTable => ?_, ?_⟩, hValues⟩
    · exact (hSame table.1).mp (List.mem_map_of_mem hTable)
    · rw [hGroups, hLookup]

theorem alignGrouped_isOk_iff (hNames : (own.map (·.1)).Nodup) :
    (∃ values, alignGrouped version tables (.grouped own) = .ok values) ↔
      (tables.map (·.name)).Nodup ∧ (∀ name, name ∈ own.map (·.1) ↔ name ∈ tables.map (·.name)) ∧
        ∀ table ∈ tables, table.fields.Nodup ∧
          ∀ field, .grouped table.name field ∈ (Source.grouped own).keys ↔ field ∈ table.fields := by
  simp only [alignGrouped_eq_ok_iff hNames, mem_keys_grouped_iff, ← lookup_eq_some_iff_mem hNames,
    exists_and_left]
  refine and_congr_right fun _ => and_congr_right fun hSame => ?_
  constructor
  · rintro ⟨values, groups, hGroups, hValues⟩
    exact (alignTables_isOk_iff hGroups).mp ⟨values, hValues⟩
  · intro hTables
    -- Every table is found by its name, so there are groups to align.
    obtain ⟨groups, hGroups⟩ := (exists_map_some_eq_iff (f := fun table : KeyTable =>
      own.lookup table.name)).mpr fun table hTable =>
        exists_lookup_iff.mpr ((hSame _).mpr (List.mem_map_of_mem hTable))
    obtain ⟨values, hValues⟩ := (alignTables_isOk_iff hGroups).mpr hTables
    exact ⟨values, groups, hGroups, hValues⟩

end Tables

/-! ## Versions -/

section Versions

variable {main source : Source} {values : List String}

theorem forall_mem_map_flat_iff {own keys : List String} :
    (∀ key, key ∈ own.map Key.flat ↔ key ∈ keys.map Key.flat) ↔ ∀ key, key ∈ own ↔ key ∈ keys := by
  constructor
  · intro h key
    simpa using h (.flat key)
  · intro h key
    cases key with
    | flat key => simpa using h key
    | grouped table field => simp

theorem keys_eq_of_ofSource_flat {keys : List String} (h : Canonical.ofSource main = .flat keys) :
    main.keys = keys.map Key.flat ∧ main.isGrouped = false ∧ main.tableNames = [] := by
  rw [← Canonical.keys_ofSource, h]
  cases main <;> simp_all [Canonical.ofSource, Canonical.keys, Source.isGrouped, Source.tableNames]

theorem eq_grouped_of_ofSource_grouped {tables : List KeyTable}
    (h : Canonical.ofSource main = .grouped tables) :
    ∃ own, main = .grouped own ∧ tables = own.map fun table => ⟨table.1, table.2.map (·.1)⟩ := by
  cases main <;> simp_all [Canonical.ofSource]

/-- The values of flat data are the values that the source gives to the keys. -/
theorem map_some_of_alignFlat {keys : List String} (hUnique : source.HasUniqueKeys)
    (h : alignFlat version keys source = .ok values) :
    values.map some = (keys.map Key.flat).mapIdx fun place key => source.value? place key := by
  refine (List.mapIdx_eq_iff.mpr fun place => ?_).symm
  -- Records give their values by key and do not ask for the place; a list does the opposite.
  have hRecords : ∀ records : Records, (records.map (·.1)).Nodup →
      takeKeys version id keys records = .ok values →
      (values.map some)[place]? = keys[place]?.map fun key => records.lookup key := by
    intro records hNodup hTaken
    have hLookup : lastValue? records = fun key => records.lookup key :=
      funext fun key => lastValue_eq_lookup key hNodup
    rw [(takeKeys_eq_ok_iff.mp hTaken).2.2, List.getElem?_map, hLookup]
  rw [List.getElem?_map (f := Key.flat), Option.map_map]
  cases source with
  | literal records => exact hRecords records hUnique h
  | keyed records => exact hRecords records hUnique h
  | list elements =>
    obtain ⟨hLength, rfl⟩ := takePositions_eq_ok_iff.mp h
    rw [List.getElem?_map]
    by_cases hPlace : place < values.length
    · rw [List.getElem?_eq_getElem hPlace, List.getElem?_eq_getElem (hLength ▸ hPlace)]
      simp [Source.value?, hPlace]
    · rw [List.getElem?_eq_none (by omega), List.getElem?_eq_none (by omega)]
      rfl
  | grouped tables => simp [alignFlat] at h

/-- Flat data can be aligned if it agrees with the default version. -/
theorem alignFlat_isOk_iff {keys : List String} (hMain : Canonical.ofSource main = .flat keys)
    (hKeys : keys.Nodup) :
    (∃ values, alignFlat version keys source = .ok values) ↔ source.AgreesWith main := by
  obtain ⟨hSame, hFlat, hTables⟩ := keys_eq_of_ofSource_flat hMain
  have hNoTables : ∀ name, name ∈ ([] : List String) ↔ name ∈ main.tableNames := by
    simp [hTables]
  have hRecords : ∀ records : Records,
      (∃ values, takeKeys version id keys records = .ok values) ↔
        ∀ key, key ∈ records.map (fun record => Key.flat record.1) ↔ key ∈ main.keys := by
    intro records
    have hMap : (records.map fun record => Key.flat record.1) =
        (records.map (·.1)).map Key.flat := by simp
    rw [takeKeys_isOk_iff, hSame, hMap, forall_mem_map_flat_iff]
    exact and_iff_right hKeys
  cases source with
  | literal records =>
    exact (hRecords records).trans
      ⟨fun h => ⟨hFlat.symm, hNoTables, h⟩, fun h => h.2.2⟩
  | keyed records =>
    exact (hRecords records).trans
      ⟨fun h => ⟨hFlat.symm, hNoTables, h⟩, fun h => h.2.2⟩
  | list elements =>
    simp [alignFlat, takePositions_eq_ok_iff, Source.AgreesWith, hFlat, hSame]
  | grouped tables =>
    simp only [alignFlat, reduceCtorEq, exists_false, false_iff]
    intro h
    exact Bool.noConfusion (h.1.trans hFlat)

theorem flat_notMem_keys_grouped {own : List (String × Records)} {key : String} :
    Key.flat key ∉ (Source.grouped own).keys := by
  simp [Source.keys]

/-- Two grouped sources with the same tables have the same keys if each table of the one has the
fields that it has in the other. -/
theorem forall_mem_keys_grouped_iff {own tables : List (String × Records)}
    (hUnique : (tables.map (·.1)).Nodup)
    (hSame : ∀ name, name ∈ own.map (·.1) ↔ name ∈ tables.map (·.1)) :
    (∀ key, key ∈ (Source.grouped own).keys ↔ key ∈ (Source.grouped tables).keys) ↔
      ∀ table ∈ tables, ∀ field,
        .grouped table.1 field ∈ (Source.grouped own).keys ↔ field ∈ table.2.map (·.1) := by
  constructor
  · intro h table hTable field
    rw [h, mem_keys_grouped_iff]
    simp only [← lookup_eq_some_iff_mem hUnique, (lookup_eq_some_iff_mem hUnique).mpr hTable,
      Option.some.injEq, exists_eq_left']
  · intro h key
    cases key with
    | flat key => simp [flat_notMem_keys_grouped]
    | grouped name field =>
      by_cases hName : name ∈ tables.map (·.1)
      · obtain ⟨table, hTable, rfl⟩ := List.mem_map.mp hName
        rw [h table hTable, mem_keys_grouped_iff]
        simp only [← lookup_eq_some_iff_mem hUnique, (lookup_eq_some_iff_mem hUnique).mpr hTable,
          Option.some.injEq, exists_eq_left']
      · -- A table that neither source has gives no key to either.
        have hOwn : name ∉ own.map (·.1) := fun h => hName ((hSame name).mp h)
        simp only [mem_keys_grouped_iff]
        constructor
        · rintro ⟨records, hRecords, -⟩
          exact absurd (List.mem_map_of_mem hRecords) hOwn
        · rintro ⟨records, hRecords, -⟩
          exact absurd (List.mem_map_of_mem hRecords) hName

theorem map_some_of_alignGrouped {tables : List KeyTable} (hUnique : source.HasUniqueKeys)
    (h : alignGrouped version tables source = .ok values) :
    values.map some =
      (Canonical.grouped tables).keys.mapIdx fun place key => source.value? place key := by
  cases source with
  | grouped own =>
    obtain ⟨-, -, groups, hGroups, hValues⟩ := (alignGrouped_eq_ok_iff hUnique.1).mp h
    have hPlace : ∀ place key,
        (Source.grouped own).value? place key = (Source.grouped own).value? 0 key := by
      intro place key
      cases key <;> rfl
    refine (List.mapIdx_eq_iff.mpr fun place => ?_).symm
    simp only [hPlace place]
    rw [map_some_of_alignTables hUnique.2 hGroups hValues, ← List.getElem?_map, Canonical.keys,
      List.map_flatMap]
    simp only [List.map_map, Function.comp_def]
  | literal records => simp [alignGrouped] at h
  | keyed records => simp [alignGrouped] at h
  | list elements => simp [alignGrouped] at h

theorem alignGrouped_isOk_iff_agreesWith {tables : List (String × Records)}
    (hMain : (Source.grouped tables).HasUniqueKeys) (hUnique : source.HasUniqueKeys) :
    (∃ values, alignGrouped version (tables.map fun table => ⟨table.1, table.2.map (·.1)⟩) source =
      .ok values) ↔ source.AgreesWith (.grouped tables) := by
  cases source with
  | grouped own =>
    have hNames : (tables.map fun table : String × Records =>
        (⟨table.1, table.2.map (·.1)⟩ : KeyTable)).map (·.name) = tables.map (·.1) := by
      simp
    rw [alignGrouped_isOk_iff hUnique.1, hNames]
    simp only [List.forall_mem_map]
    constructor
    · rintro ⟨-, hSame, hTables⟩
      exact ⟨rfl, hSame, (forall_mem_keys_grouped_iff hMain.1 hSame).mpr fun table hTable =>
        (hTables table hTable).2⟩
    · rintro ⟨-, hSame, hKeys⟩
      have hTables := (forall_mem_keys_grouped_iff hMain.1 hSame).mp hKeys
      exact ⟨hMain.1, hSame, fun table hTable => ⟨hMain.2 table hTable, hTables table hTable⟩⟩
  | literal records => simp [alignGrouped, Source.AgreesWith, Source.isGrouped]
  | keyed records => simp [alignGrouped, Source.AgreesWith, Source.isGrouped]
  | list elements => simp [alignGrouped, Source.AgreesWith, Source.isGrouped]

theorem alignVersion_eq_ok_iff {canonical : Canonical} {version : Version} {row : VersionRow} :
    alignVersion canonical version = .ok row ↔
      row.name = version.1 ∧
        match canonical with
        | .flat keys => alignFlat version.1 keys version.2 = .ok row.values
        | .grouped tables => alignGrouped version.1 tables version.2 = .ok row.values := by
  have hRow : ∀ aligned : Checked (List String),
      (aligned >>= fun values => pure ⟨version.1, values⟩) = .ok row ↔
        row.name = version.1 ∧ aligned = .ok row.values := by
    intro aligned
    rw [Checked.bind_eq_ok]
    constructor
    · rintro ⟨values, hValues, hEq⟩
      cases hEq
      exact ⟨rfl, hValues⟩
    · rintro ⟨hName, hValues⟩
      refine ⟨row.values, hValues, ?_⟩
      rw [← hName]
      rfl
  cases canonical <;> exact hRow _

theorem map_some_of_alignVersion {canonical : Canonical} {version : Version} {row : VersionRow}
    (hUnique : version.2.HasUniqueKeys) (h : alignVersion canonical version = .ok row) :
    row.values.map some = canonical.keys.mapIdx fun place key => version.2.value? place key := by
  have hValues := (alignVersion_eq_ok_iff.mp h).2
  cases canonical with
  | flat keys => exact map_some_of_alignFlat hUnique hValues
  | grouped tables => exact map_some_of_alignGrouped hUnique hValues

/-- An aligned version has a value for each key. -/
theorem length_of_alignVersion {canonical : Canonical} {version : Version} {row : VersionRow}
    (h : alignVersion canonical version = .ok row) :
    row.values.length = canonical.keys.length := by
  obtain ⟨-, hValues⟩ := alignVersion_eq_ok_iff.mp h
  obtain ⟨own, source⟩ := version
  cases canonical with
  | flat keys =>
    rw [Canonical.keys, List.length_map]
    cases source with
    | literal records => exact length_of_takeKeys hValues
    | keyed records => exact length_of_takeKeys hValues
    | list elements =>
      obtain ⟨hLength, hEq⟩ := takePositions_eq_ok_iff.mp hValues
      rw [hEq, hLength]
    | grouped tables => cases hValues
  | grouped tables =>
    cases source with
    | grouped records =>
      obtain ⟨groups, hGroups, hAligned⟩ := Checked.bind_eq_ok.mp hValues
      refine length_of_alignTables ?_ hAligned
      rw [length_of_takeKeys hGroups, List.length_map]
    | literal records => cases hValues
    | keyed records => cases hValues
    | list elements => cases hValues

/-- A version can be aligned if it agrees with the default version, whose keys differ from each
other. -/
theorem alignVersion_isOk_iff {version : Version} (hMain : main.HasUniqueKeys)
    (hKeys : main.keys.Nodup) (hUnique : version.2.HasUniqueKeys) :
    (∃ row, alignVersion (.ofSource main) version = .ok row) ↔ version.2.AgreesWith main := by
  simp only [alignVersion_eq_ok_iff]
  cases hCanonical : Canonical.ofSource main with
  | flat keys =>
    have hNodup : keys.Nodup := by
      rw [(keys_eq_of_ofSource_flat hCanonical).1] at hKeys
      exact hKeys.of_map _
    have hAligned : (∃ values, alignFlat version.1 keys version.2 = .ok values) ↔ _ :=
      alignFlat_isOk_iff hCanonical hNodup
    rw [← hAligned]
    exact ⟨fun ⟨row, _, h⟩ => ⟨row.values, h⟩, fun ⟨values, h⟩ => ⟨⟨version.1, values⟩, rfl, h⟩⟩
  | grouped tables =>
    obtain ⟨own, rfl, rfl⟩ := eq_grouped_of_ofSource_grouped hCanonical
    have hAligned : (∃ values, alignGrouped version.1 _ version.2 = .ok values) ↔ _ :=
      alignGrouped_isOk_iff_agreesWith hMain hUnique
    rw [← hAligned]
    exact ⟨fun ⟨row, _, h⟩ => ⟨row.values, h⟩, fun ⟨values, h⟩ => ⟨⟨version.1, values⟩, rfl, h⟩⟩

end Versions

end ResourceTables
