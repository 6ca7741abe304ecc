import ResourceTables.Proofs.Reconciliation.Symmetry

/-!
# Which fault reconciliation reports

Versions can disagree with the default version in many places at once, and only one of them is told.
The relations below say which: they go by what a version has and lacks, not by how it is searched,
and reconciliation reports a fault exactly if they allow it.

## Main definitions

* `KeysRefused`, `PlacesRefused`: what is told of records, tables or a list against canonical keys.
* `VersionRefused`: what is told of a version against the default version.
* `Refused`: what is told of versions.

## Main results

* `takeKeys_eq_error_iff`, `alignVersion_eq_error_iff`: each step tells what its relation allows.
* `reconcile_eq_error_iff_refused`: so does reconciliation.
-/

namespace ResourceTables

/-- What is told of a version whose keys are `own`, of which each canonical key takes one away: the
first canonical key that finds none, else all keys that are left, in the order of the version. Only
elements of a list can be canonical keys twice, and then no key is there for the second. -/
inductive KeysRefused (version : String) (label : String → String) (keys own : List String) :
    Fault → Prop where
  | lacking (before : List String) (key : String) (after : List String)
      (hKeys : keys = before ++ key :: after) (hDistinct : before.Nodup)
      (hBefore : ∀ earlier ∈ before, earlier ∈ own) (hKey : key ∉ own ∨ key ∈ before) :
      KeysRefused version label keys own (.missingKey version (label key))
  | extra (hDistinct : keys.Nodup) (hKeys : ∀ key ∈ keys, key ∈ own)
      (hExtra : ∃ key ∈ own, key ∉ keys) :
      KeysRefused version label keys own
        (.undefinedKeys version ((own.filter fun key => key ∉ keys).map label))

/-- What is told of a list with `size` elements: the canonical key at the place after its last
element, else the places of the elements that belong to no key. -/
inductive PlacesRefused (version : String) (keys : List String) (size : Nat) : Fault → Prop where
  | lacking (key : String) (hKey : keys[size]? = some key) :
      PlacesRefused version keys size (.missingKey version key)
  | extra (hSize : keys.length < size) :
      PlacesRefused version keys size (.undefinedKeys version
        (((List.range size).drop keys.length).map fun place => "[" ++ toString place ++ "]"))

/-- What is told of a version: that its layout is not that of the default version, else what is told
of its keys. For grouped data these are first the names of its tables, and only if they are those of
the default version, the fields of its tables: of the first table that has anything told of it. -/
inductive VersionRefused : Canonical → Version → Fault → Prop where
  | groupedAmongFlat (keys : List String) (version : String) (tables : List (String × Records)) :
      VersionRefused (.flat keys) (version, .grouped tables)
        (.invalidVersion version .groupedAmongFlat)
  | flatAmongGrouped (tables : List KeyTable) (version : String) (source : Source)
      (hFlat : source.isGrouped = false) :
      VersionRefused (.grouped tables) (version, source) (.invalidVersion version .flatAmongGrouped)
  | literal {keys : List String} {version : String} {records : Records} {fault : Fault}
      (hKeys : KeysRefused version id keys (records.map (·.1)) fault) :
      VersionRefused (.flat keys) (version, .literal records) fault
  | keyed {keys : List String} {version : String} {records : Records} {fault : Fault}
      (hKeys : KeysRefused version id keys (records.map (·.1)) fault) :
      VersionRefused (.flat keys) (version, .keyed records) fault
  | list {keys : List String} {version : String} {elements : List String} {fault : Fault}
      (hPlaces : PlacesRefused version keys elements.length fault) :
      VersionRefused (.flat keys) (version, .list elements) fault
  | tableNames {tables : List KeyTable} {version : String} {own : List (String × Records)}
      {fault : Fault}
      (hNames : KeysRefused version id (tables.map (·.name)) (own.map (·.1)) fault) :
      VersionRefused (.grouped tables) (version, .grouped own) fault
  | fields {tables : List KeyTable} {version : String} {own : List (String × Records)}
      {fault : Fault}
      (hNames : ∀ other, ¬KeysRefused version id (tables.map (·.name)) (own.map (·.1)) other)
      (before : List KeyTable) (table : KeyTable) (after : List KeyTable)
      (hTables : tables = before ++ table :: after)
      (hBefore : ∀ earlier ∈ before, ∀ records, (earlier.name, records) ∈ own → ∀ other,
        ¬KeysRefused version (groupedLabel earlier.name) earlier.fields (records.map (·.1)) other)
      (records : Records) (hRecords : (table.name, records) ∈ own)
      (hFields : KeysRefused version (groupedLabel table.name) table.fields (records.map (·.1))
        fault) :
      VersionRefused (.grouped tables) (version, .grouped own) fault

/-- What is told of versions: that the default version is not among them, else what is told of the
first version that has anything told of it, else the first key whose identifier an earlier key has,
with that key. -/
inductive Refused (versions : List Version) (defaultVersion : String) : Fault → Prop where
  | unlisted (hDefault : defaultVersion ∉ versions.map (·.1)) :
      Refused versions defaultVersion (.invalidVersion defaultVersion .undefinedDefault)
  | version (main : Source) (hMain : (defaultVersion, main) ∈ versions)
      (before : List Version) (version : Version) (after : List Version)
      (hVersions : versions = before ++ version :: after)
      (hBefore : ∀ earlier ∈ before, ∀ other, ¬VersionRefused (.ofSource main) earlier other)
      (fault : Fault) (hVersion : VersionRefused (.ofSource main) version fault) :
      Refused versions defaultVersion fault
  | identifiers (main : Source) (hMain : (defaultVersion, main) ∈ versions)
      (hVersions : ∀ version ∈ versions, ∀ other, ¬VersionRefused (.ofSource main) version other)
      (before : List Key) (first : Key) (between : List Key) (second : Key) (after : List Key)
      (hKeys : main.keys = (before ++ first :: between) ++ second :: after)
      (hDistinct : ((before ++ first :: between).map Key.identifier).Nodup)
      (hSame : first.identifier = second.identifier) :
      Refused versions defaultVersion
        (.duplicateIdentifier ⟨second.identifier, first.label, second.label⟩)

/-! ## Keys and places -/

section Keys

variable {α : Type} {version : String} {label : String → String} {fault : Fault}

theorem keysRefused_nil_iff {own : List String} :
    KeysRefused version label [] own fault ↔
      own ≠ [] ∧ fault = .undefinedKeys version (own.map label) := by
  constructor
  · rintro (⟨before, key, after, hKeys, -, -, -⟩ | ⟨-, -, key, hKey, -⟩)
    · simp at hKeys
    · exact ⟨List.ne_nil_of_mem hKey, by simp⟩
  · rintro ⟨hOwn, rfl⟩
    obtain ⟨key, hKey⟩ := List.exists_mem_of_ne_nil own hOwn
    simpa using
      @KeysRefused.extra version label [] own List.nodup_nil (by simp) ⟨key, hKey, by simp⟩

/-- The first canonical key takes its own key away, and the rest is told of what is left. -/
theorem keysRefused_cons_iff {key : String} {keys own : List String} :
    KeysRefused version label (key :: keys) own fault ↔
      key ∉ own ∧ fault = .missingKey version (label key) ∨
        key ∈ own ∧ KeysRefused version label keys (own.filter (· != key)) fault := by
  have hLeft : ∀ other, other ∈ own.filter (· != key) ↔ other ∈ own ∧ other ≠ key := by
    simp [List.mem_filter]
  have hRest : (own.filter fun other => other ∉ key :: keys) =
      (own.filter (· != key)).filter fun other => other ∉ keys := by
    rw [List.filter_filter]
    refine List.filter_congr fun other _ => ?_
    by_cases hEq : other = key <;> simp [hEq]
  constructor
  · rintro (⟨before, last, after, hKeys, hDistinct, hBefore, hLast⟩ | ⟨hDistinct, hKeys, hExtra⟩)
    -- The key that is told of is the first one, or a later one; what is asked of those before it
    -- passes to what the first one leaves.
    · cases before with
      | nil =>
        cases hKeys
        exact .inl ⟨hLast.resolve_right List.not_mem_nil, rfl⟩
      | cons first before =>
        cases hKeys
        rw [List.nodup_cons] at hDistinct
        obtain ⟨hFirst, hBefore⟩ := List.forall_mem_cons.mp hBefore
        refine .inr ⟨hFirst, .lacking before last after rfl hDistinct.2 (fun earlier hMem => ?_) ?_⟩
        · refine (hLeft earlier).mpr ⟨hBefore earlier hMem, ?_⟩
          rintro rfl
          exact hDistinct.1 hMem
        · rw [hLeft]
          grind
    · rw [List.nodup_cons] at hDistinct
      obtain ⟨hKey, hKeys⟩ := List.forall_mem_cons.mp hKeys
      obtain ⟨other, hOther, hNot⟩ := hExtra
      rw [List.mem_cons, not_or] at hNot
      refine .inr ⟨hKey, ?_⟩
      rw [hRest]
      refine .extra hDistinct.2 (fun other hMem => ?_) ⟨other, (hLeft other).mpr ⟨hOther, hNot.1⟩,
        hNot.2⟩
      exact (hLeft other).mpr ⟨hKeys other hMem, by rintro rfl; exact hDistinct.1 hMem⟩
  · rintro (⟨hKey, rfl⟩ | ⟨hKey, ⟨before, last, after, rfl, hDistinct, hBefore, hLast⟩ |
      ⟨hDistinct, hKeys, hExtra⟩⟩)
    · exact .lacking [] key keys rfl List.nodup_nil (by simp) (.inl hKey)
    · refine .lacking (key :: before) last after rfl (List.nodup_cons.mpr ⟨?_, hDistinct⟩) ?_ ?_
      · exact fun hMem => ((hLeft key).mp (hBefore key hMem)).2 rfl
      · exact List.forall_mem_cons.mpr ⟨hKey, fun earlier hMem =>
          ((hLeft earlier).mp (hBefore earlier hMem)).1⟩
      · rw [hLeft] at hLast
        grind
    · obtain ⟨other, hOther, hNot⟩ := hExtra
      obtain ⟨hOwn, hne⟩ := (hLeft other).mp hOther
      rw [← hRest]
      refine .extra (List.nodup_cons.mpr ⟨?_, hDistinct⟩) ?_ ⟨other, hOwn, ?_⟩
      · exact fun hMem => ((hLeft key).mp (hKeys key hMem)).2 rfl
      · exact List.forall_mem_cons.mpr ⟨hKey, fun other hMem =>
          ((hLeft other).mp (hKeys other hMem)).1⟩
      · exact fun hMem => (List.mem_cons.mp hMem).elim hne hNot

/-- Taking keys out tells what there is to tell of them. -/
theorem takeKeys_eq_error_iff {keys : List String} {entries : List (String × α)} :
    takeKeys version label keys entries = .error fault ↔
      KeysRefused version label keys (entries.map (·.1)) fault := by
  induction keys generalizing entries with
  | nil =>
    rw [keysRefused_nil_iff]
    cases entries with
    | nil => simp [takeKeys]
    | cons entry rest => simp [takeKeys, Function.comp_def, eq_comm (a := fault)]
  | cons key keys ih =>
    have hFilter : (entries.map (·.1)).filter (· != key) =
        (entries.filter fun entry => entry.1 != key).map (·.1) := by
      rw [List.filter_map]
      rfl
    rw [keysRefused_cons_iff, ← exists_lastValue_iff, hFilter, ← ih, takeKeys]
    cases lastValue? entries key with
    | none => simp [eq_comm]
    | some value => simp

/-- Taking a list by its places tells what there is to tell of it. -/
theorem takePositions_eq_error_iff {keys elements : List String} :
    takePositions version keys elements = .error fault ↔
      PlacesRefused version keys elements.length fault := by
  rw [takePositions]
  -- The key at the place behind the last element is the first one that has no element.
  cases hMissing : keys[elements.length]? with
  | some missing =>
    have hShorter := (List.getElem?_eq_some_iff.mp hMissing).1
    constructor
    · intro hFault
      cases hFault
      exact .lacking missing hMissing
    · rintro (⟨key, hKey⟩ | hSize)
      · rw [hMissing, Option.some.injEq] at hKey
        rw [hKey]
      · omega
  | none =>
    have hPlaces : List.range' keys.length (elements.length - keys.length) =
        (List.range elements.length).drop keys.length := by
      rw [List.range_eq_range', List.drop_range']
      simp
    rw [hPlaces]
    by_cases hSize : keys.length < elements.length
    · rw [if_pos hSize]
      constructor
      · intro hFault
        cases hFault
        exact .extra hSize
      · rintro (⟨key, hKey⟩ | -)
        · rw [hMissing] at hKey
          cases hKey
        · rfl
    · rw [if_neg hSize]
      constructor
      · intro hFault
        cases hFault
      · rintro (⟨key, hKey⟩ | hLonger)
        · rw [hMissing] at hKey
          cases hKey
        · exact absurd hLonger hSize

theorem takeKeys_isOk_iff_forall {keys : List String} {entries : List (String × α)} :
    (∃ values, takeKeys version label keys entries = .ok values) ↔
      ∀ other, ¬KeysRefused version label keys (entries.map (·.1)) other := by
  simp only [Checked.isOk_iff_forall_ne_error, ne_eq, takeKeys_eq_error_iff]

end Keys

/-! ## Tables -/

section Tables

variable {version : String} {own : List (String × Records)} {tables : List KeyTable}
  {groups : List Records} {fault : Fault}

/-- Tables are told of at the first whose fields have anything told of them. -/
theorem alignTables_eq_error_iff (hNames : (own.map (·.1)).Nodup)
    (hGroups : groups.map some = tables.map fun table => own.lookup table.name) :
    alignTables version tables groups = .error fault ↔
      ∃ before table after records, tables = before ++ table :: after ∧
        (∀ earlier ∈ before, ∀ records, (earlier.name, records) ∈ own → ∀ other,
          ¬KeysRefused version (groupedLabel earlier.name) earlier.fields (records.map (·.1))
            other) ∧
        (table.name, records) ∈ own ∧
        KeysRefused version (groupedLabel table.name) table.fields (records.map (·.1)) fault := by
  induction tables generalizing groups with
  | nil => simp [alignTables]
  | cons table tables ih =>
    rw [List.map_cons] at hGroups
    obtain ⟨records, groups, rfl, hRecords, hGroups⟩ := List.map_eq_cons_iff.mp hGroups
    have hOwn := (lookup_eq_some_iff_mem hNames).mp hRecords.symm
    -- The name of a table picks its records, so a table is told of in one way only.
    have hOnly : ∀ others, (table.name, others) ∈ own → others = records := by
      intro others hOthers
      rw [← lookup_eq_some_iff_mem hNames, ← hRecords, Option.some.injEq] at hOthers
      exact hOthers.symm
    rw [alignTables, Checked.bind_eq_error]
    constructor
    · rintro (hFirst | ⟨first, hFirst, hAfter⟩)
      · exact ⟨[], table, tables, records, rfl, by simp, hOwn, takeKeys_eq_error_iff.mp hFirst⟩
      · have hRest := (Checked.map_eq_error_iff (f := (first ++ ·))).mp (by simpa using hAfter)
        obtain ⟨before, later, after, others, rfl, hBefore, hLater, hFields⟩ :=
          (ih hGroups).mp hRest
        refine ⟨table :: before, later, after, others, rfl, ?_, hLater, hFields⟩
        refine List.forall_mem_cons.mpr ⟨fun records hMem => ?_, hBefore⟩
        rw [hOnly records hMem]
        exact takeKeys_isOk_iff_forall.mp ⟨first, hFirst⟩
    · rintro ⟨before, later, after, others, hTables, hBefore, hLater, hFields⟩
      cases before with
      | nil =>
        cases hTables
        rw [hOnly others hLater] at hFields
        exact .inl (takeKeys_eq_error_iff.mpr hFields)
      | cons earlier before =>
        cases hTables
        obtain ⟨hFirst, hBefore⟩ := List.forall_mem_cons.mp hBefore
        obtain ⟨first, hFirst⟩ := takeKeys_isOk_iff_forall.mpr (hFirst records hOwn)
        refine .inr ⟨first, hFirst, ?_⟩
        have hRest :=
          (ih hGroups).mpr ⟨before, later, after, others, rfl, hBefore, hLater, hFields⟩
        simpa using hRest

theorem alignGrouped_eq_error_iff (hNames : (own.map (·.1)).Nodup) :
    alignGrouped version tables (.grouped own) = .error fault ↔
      VersionRefused (.grouped tables) (version, .grouped own) fault := by
  rw [alignGrouped, Checked.bind_eq_error, takeKeys_eq_error_iff]
  -- Tables that are taken out are those that the names find.
  have hGroups : ∀ groups, takeKeys version id (tables.map (·.name)) own = .ok groups →
      groups.map some = tables.map fun table => own.lookup table.name := by
    intro groups hTaken
    rw [(takeKeys_eq_ok_iff.mp hTaken).2.2, List.map_map]
    exact List.map_congr_left fun table _ => lastValue_eq_lookup table.name hNames
  constructor
  · rintro (hRefused | ⟨groups, hTaken, hTables⟩)
    · exact .tableNames hRefused
    · obtain ⟨before, table, after, records, hEq, hBefore, hRecords, hFields⟩ :=
        (alignTables_eq_error_iff hNames (hGroups groups hTaken)).mp hTables
      exact .fields (takeKeys_isOk_iff_forall.mp ⟨groups, hTaken⟩) before table after hEq hBefore
        records hRecords hFields
  · intro hRefused
    cases hRefused with
    | flatAmongGrouped _ _ _ hFlat => cases hFlat
    | tableNames hRefused => exact .inl hRefused
    | fields hTaken before table after hEq hBefore records hRecords hFields =>
      obtain ⟨groups, hTaken⟩ := takeKeys_isOk_iff_forall.mpr hTaken
      exact .inr ⟨groups, hTaken, (alignTables_eq_error_iff hNames (hGroups groups hTaken)).mpr
        ⟨before, table, after, records, hEq, hBefore, hRecords, hFields⟩⟩

end Tables

/-! ## Versions -/

/-- Aligning a version tells what there is to tell of it. -/
theorem alignVersion_eq_error_iff {canonical : Canonical} {version : Version} {fault : Fault}
    (hUnique : version.2.HasUniqueKeys) :
    alignVersion canonical version = .error fault ↔ VersionRefused canonical version fault := by
  obtain ⟨name, source⟩ := version
  have hValues : ∀ aligned : Checked (List String),
      (aligned >>= fun values => pure (⟨name, values⟩ : VersionRow)) = .error fault ↔
        aligned = .error fault := by
    intro aligned
    simp
  cases canonical with
  | flat keys =>
    refine (hValues _).trans ?_
    cases source with
    | literal records =>
      rw [alignFlat, takeKeys_eq_error_iff]
      exact ⟨.literal, fun hRefused => by cases hRefused; assumption⟩
    | keyed records =>
      rw [alignFlat, takeKeys_eq_error_iff]
      exact ⟨.keyed, fun hRefused => by cases hRefused; assumption⟩
    | list elements =>
      rw [alignFlat, takePositions_eq_error_iff]
      exact ⟨.list, fun hRefused => by cases hRefused; assumption⟩
    | grouped tables =>
      constructor
      · intro hFault
        cases hFault
        exact .groupedAmongFlat keys name tables
      · intro hRefused
        cases hRefused
        rfl
  | grouped tables =>
    refine (hValues _).trans ?_
    -- All layouts but the grouped one are refused alike.
    by_cases hGrouped : source.isGrouped = true
    · cases source with
      | grouped own => exact alignGrouped_eq_error_iff hUnique.1
      | literal records => cases hGrouped
      | keyed records => cases hGrouped
      | list elements => cases hGrouped
    · have hFlat : alignGrouped name tables source =
          .error (.invalidVersion name .flatAmongGrouped) := by
        cases source with
        | grouped own => exact absurd rfl hGrouped
        | literal records => rfl
        | keyed records => rfl
        | list elements => rfl
      rw [hFlat]
      constructor
      · intro hFault
        cases hFault
        exact .flatAmongGrouped tables name source (by simpa using hGrouped)
      · intro hRefused
        cases hRefused with
        | flatAmongGrouped => rfl
        | tableNames => exact absurd rfl hGrouped
        | fields => exact absurd rfl hGrouped

theorem alignVersion_isOk_iff_forall {canonical : Canonical} {version : Version}
    (hUnique : version.2.HasUniqueKeys) :
    (∃ row, alignVersion canonical version = .ok row) ↔
      ∀ other, ¬VersionRefused canonical version other := by
  simp only [Checked.isOk_iff_forall_ne_error, ne_eq, alignVersion_eq_error_iff hUnique]

/-- Versions are told of at the first that has anything told of it. -/
theorem mapM_alignVersion_eq_error_iff {canonical : Canonical} {versions : List Version}
    {fault : Fault} (hUnique : ∀ version ∈ versions, version.2.HasUniqueKeys) :
    versions.mapM (alignVersion canonical) = .error fault ↔
      ∃ before version after, versions = before ++ version :: after ∧
        (∀ earlier ∈ before, ∀ other, ¬VersionRefused canonical earlier other) ∧
        VersionRefused canonical version fault := by
  rw [Checked.mapM_eq_error_iff]
  refine exists_congr fun before => exists_congr fun version => exists_congr fun after =>
    and_congr_right fun hVersions => ?_
  subst hVersions
  rw [List.forall_mem_append, List.forall_mem_cons] at hUnique
  obtain ⟨hBefore, hVersion, -⟩ := hUnique
  refine and_congr ?_ (alignVersion_eq_error_iff hVersion)
  exact forall₂_congr fun earlier hEarlier =>
    alignVersion_isOk_iff_forall (hBefore earlier hEarlier)

theorem mapM_alignVersion_isOk_iff {canonical : Canonical} {versions : List Version}
    (hUnique : ∀ version ∈ versions, version.2.HasUniqueKeys) :
    (∃ rows, versions.mapM (alignVersion canonical) = .ok rows) ↔
      ∀ version ∈ versions, ∀ other, ¬VersionRefused canonical version other := by
  rw [Checked.mapM_isOk_iff]
  exact forall₂_congr fun version hVersion =>
    alignVersion_isOk_iff_forall (hUnique version hVersion)

/-- Claims of keys are refused at the first key whose identifier an earlier key has. -/
theorem claimAll_claims_eq_error_iff {canonical : Canonical} {fault : Fault} :
    claimAll .empty canonical.claims = .error fault ↔
      ∃ before first between second after,
        canonical.keys = (before ++ first :: between) ++ second :: after ∧
        ((before ++ first :: between).map Key.identifier).Nodup ∧
        first.identifier = second.identifier ∧
        fault = .duplicateIdentifier ⟨second.identifier, first.label, second.label⟩ := by
  rw [claimAll_empty_eq_error_iff, Canonical.claims_eq_map_keys]
  constructor
  · rintro ⟨before, first, between, second, after, hClaims, hNodup, hSame, rfl⟩
    obtain ⟨front, back, hKeys, hFront, hBack⟩ := List.map_eq_append_iff.mp hClaims
    obtain ⟨second, after, rfl, rfl, rfl⟩ := List.map_eq_cons_iff.mp hBack
    obtain ⟨before, middle, rfl, rfl, hMiddle⟩ := List.map_eq_append_iff.mp hFront
    obtain ⟨first, between, rfl, rfl, rfl⟩ := List.map_eq_cons_iff.mp hMiddle
    refine ⟨before, first, between, second, after, hKeys, ?_, hSame, rfl⟩
    simpa [Function.comp_def] using hNodup
  · rintro ⟨before, first, between, second, after, hKeys, hNodup, hSame, rfl⟩
    refine ⟨_, _, _, _, _, by rw [hKeys, List.map_append, List.map_append, List.map_cons,
      List.map_cons], ?_, hSame, rfl⟩
    simpa [Function.comp_def] using hNodup

/-- Reconciliation reports a fault exactly if it is what is told of the versions: the default
version that is not listed, else the first version that does not align, for its layout, its first
missing key or all of its extra keys, else the first key whose identifier is taken. -/
theorem reconcile_eq_error_iff_refused {versions : List Version} {defaultVersion : String}
    {fault : Fault} (hUnique : UniqueVersions versions) :
    reconcile versions defaultVersion = .error fault ↔ Refused versions defaultVersion fault := by
  rw [reconcile]
  cases hDefault : versions.lookup defaultVersion with
  | none =>
    have hUnlisted : defaultVersion ∉ versions.map (·.1) := by
      rw [← exists_lookup_iff, hDefault]
      simp
    constructor
    · intro hFault
      cases hFault
      exact .unlisted hUnlisted
    · intro hRefused
      cases hRefused with
      | unlisted => rfl
      | version main hMain => exact absurd (List.mem_map_of_mem hMain) hUnlisted
      | identifiers main hMain => exact absurd (List.mem_map_of_mem hMain) hUnlisted
  | some main =>
    have hMain := mem_of_lookup hDefault
    have hOnly : ∀ other, (defaultVersion, other) ∈ versions → other = main := by
      intro other hOther
      rw [← lookup_eq_some_iff_mem hUnique.names, hDefault, Option.some.injEq] at hOther
      exact hOther.symm
    simp only [Checked.bind_eq_error]
    constructor
    · rintro (hRows | ⟨rows, hRows, hClaims | ⟨scope, -, hEq⟩⟩)
      · obtain ⟨before, version, after, hVersions, hBefore, hVersion⟩ :=
          (mapM_alignVersion_eq_error_iff hUnique.keys).mp hRows
        exact .version main hMain before version after hVersions hBefore fault hVersion
      · obtain ⟨before, first, between, second, after, hKeys, hDistinct, hSame, rfl⟩ :=
          claimAll_claims_eq_error_iff.mp hClaims
        rw [Canonical.keys_ofSource] at hKeys
        exact .identifiers main hMain ((mapM_alignVersion_isOk_iff hUnique.keys).mp ⟨rows, hRows⟩)
          before first between second after hKeys hDistinct hSame
      · cases hEq
    · intro hRefused
      cases hRefused with
      | unlisted hUnlisted => exact absurd (List.mem_map_of_mem hMain) hUnlisted
      | version other hOther before version after hVersions hBefore _ hVersion =>
        rw [hOnly other hOther] at hBefore hVersion
        exact .inl ((mapM_alignVersion_eq_error_iff hUnique.keys).mpr
          ⟨before, version, after, hVersions, hBefore, hVersion⟩)
      | identifiers other hOther hVersions before first between second after hKeys hDistinct
          hSame =>
        rw [hOnly other hOther] at hVersions hKeys
        obtain ⟨rows, hRows⟩ := (mapM_alignVersion_isOk_iff hUnique.keys).mpr hVersions
        refine .inr ⟨rows, hRows, .inl (claimAll_claims_eq_error_iff.mpr ?_)⟩
        exact ⟨before, first, between, second, after, by rw [Canonical.keys_ofSource, hKeys],
          hDistinct, hSame, rfl⟩

/-- Pages of a site, where the German one has a field too many in its second table and lacks a field
in its first; the English one has these tables in the other order. -/
def unevenPages : List Version :=
  [("en", .grouped
      [("home", [("title", "Home")]), ("about", [("title", "About"), ("text", "Hi")])]),
    ("de", .grouped
      [("about", [("title", "Info")]), ("home", [("title", "Start"), ("note", "!")])])]

/-- The superfluous field is told, because its table comes first in the default version. -/
theorem refused_unevenPages :
    UniqueVersions unevenPages ∧ Refused unevenPages "en" (.undefinedKeys "de" ["home.note"]) := by
  have hUnique : UniqueVersions unevenPages := ⟨by decide, by decide⟩
  exact ⟨hUnique, (reconcile_eq_error_iff_refused hUnique).mp rfl⟩

end ResourceTables
