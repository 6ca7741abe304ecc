import ResourceTables.Proofs.Definition.Readings
import ResourceTables.Proofs.Document.TomlTables
import ResourceTables.Proofs.GeneratedModule.Scopes
import ResourceTables.Proofs.Reconciliation.Blame

/-!
# What loading promises

Reconciliation relies on unique keys, on a default version among the versions, and on one layout of
them all. Loading sees to this for every form of data: keys of documents and of table files are put
into maps, tables are told apart by their files, and the default version decides on the layout.

## Main results

* `hasUniqueKeys_of_loadSource`, `isGrouped_of_loadSource`: the keys and the layout of one version.
* `loadedVersions_of_loadVersions`: what loading promises about the versions of a document.
* `refusesName_of_describeValues`: a description of reconciled versions is refused for names alone.
* `loadedVersions_of_loadDefinition`: so loaded versions are never refused as invalid, nor the
  default version for its keys.
-/

namespace ResourceTables

variable {loading : Loading} {file : Path} {field : String}

/-! ## Records and tables -/

theorem map_fst_flatRecords {entries : List (String × Value)} {records : Records}
    (h : flatRecords file field entries = .ok records) :
    records.map (·.1) = entries.map (·.1) := by
  induction entries generalizing records with
  | nil =>
    cases h
    rfl
  | cons entry rest ih =>
    rw [flatRecords] at h
    split at h
    · cases h
    · obtain ⟨others, hOthers, hEq⟩ := Checked.bind_eq_ok.mp h
      cases hEq
      rw [List.map_cons, List.map_cons, ih hOthers]

theorem eq_map_of_expectMap {value : Value} {entries : List (String × Value)}
    (h : expectMap file field value = .ok entries) : value = .map entries := by
  cases value with
  | map inner => rw [Except.ok.inj h]
  | _ => cases h

/-- The tables of a document are named by the keys of a map, and their fields by the keys of maps
in it. -/
theorem map_fst_groupedRecords {entries : List (String × Value)} {tables : List (String × Records)}
    (hUnique : ∀ entry ∈ entries, entry.2.HasUniqueKeys)
    (h : groupedRecords file field entries = .ok tables) :
    tables.map (·.1) = entries.map (·.1) ∧ ∀ table ∈ tables, (table.2.map (·.1)).Nodup := by
  induction entries generalizing tables with
  | nil =>
    cases h
    simp
  | cons entry rest ih =>
    obtain ⟨hEntry, hRest⟩ := List.forall_mem_cons.mp hUnique
    rw [groupedRecords] at h
    obtain ⟨own, hOwn, hAfter⟩ := Checked.bind_eq_ok.mp h
    obtain ⟨records, hRecords, hAfter⟩ := Checked.bind_eq_ok.mp hAfter
    obtain ⟨others, hOthers, hEq⟩ := Checked.bind_eq_ok.mp hAfter
    cases hEq
    obtain ⟨hNames, hFields⟩ := ih hRest hOthers
    rw [eq_map_of_expectMap hOwn] at hEntry
    refine ⟨by rw [List.map_cons, List.map_cons, hNames], List.forall_mem_cons.mpr ⟨?_, hFields⟩⟩
    rw [map_fst_flatRecords hRecords]
    exact (Value.hasUniqueKeys_map_iff.mp hEntry).1

/-- A key that comes again in a table file takes its first place. -/
theorem nodup_of_readRecords {naming : Naming} {tree : Tree} {records : Records}
    (h : Table.readRecords naming tree file = .ok records) : (records.map (·.1)).Nodup := by
  rw [Table.readRecords, Table.read] at h
  split at h
  · cases h
  · split at h
    · cases h
    · next parsed hParsed =>
      cases h
      rw [Table.parseRecords_eq] at hParsed
      cases hLines : Table.readLines (Table.recordOf? naming.separator) (Table.dataLines _) with
      | error line =>
        rw [hLines] at hParsed
        cases hParsed
      | ok lines =>
        rw [hLines] at hParsed
        cases hParsed
        exact nodup_putEntries lines

/-- A file whose table has been seen before is refused. -/
theorem nodup_of_readTables {directory : Path} {seen fileNames : List String}
    {tables : List (String × Records)}
    (h : readTables loading file directory seen fileNames = .ok tables) :
    (tables.map (·.1)).Nodup ∧ (∀ table ∈ tables, table.1 ∉ seen) ∧
      ∀ table ∈ tables, (table.2.map (·.1)).Nodup := by
  induction fileNames generalizing seen tables with
  | nil =>
    cases h
    simp
  | cons fileName rest ih =>
    rw [readTables] at h
    split at h
    · cases h
    · next hNew =>
      obtain ⟨records, hRecords, hAfter⟩ := Checked.bind_eq_ok.mp h
      obtain ⟨others, hOthers, hEq⟩ := Checked.bind_eq_ok.mp hAfter
      cases hEq
      obtain ⟨hNodup, hUnseen, hFields⟩ := ih hOthers
      refine ⟨?_, ?_, ?_⟩
      · rw [List.map_cons, List.nodup_cons]
        refine ⟨fun hAgain => ?_, hNodup⟩
        obtain ⟨other, hOther, hEq⟩ := List.mem_map.mp hAgain
        exact hUnseen other hOther (hEq ▸ List.mem_cons_self)
      · refine List.forall_mem_cons.mpr ⟨by simpa using hNew, fun other hOther hSeen => ?_⟩
        exact hUnseen other hOther (List.mem_cons_of_mem _ hSeen)
      · exact List.forall_mem_cons.mpr ⟨nodup_of_readRecords hRecords, hFields⟩

/-! ## Versions -/

section Versions

variable {kind : SourceKind} {grouped : Bool}

/-- The data of a version has unique keys, wherever it is loaded from. -/
theorem hasUniqueKeys_of_loadSource {value : Value} {source : Source}
    (hUnique : value.HasUniqueKeys)
    (h : loadSource loading file field kind grouped value = .ok source) :
    source.HasUniqueKeys := by
  cases kind with
  | inline =>
    obtain ⟨entries, hEntries, hAfter⟩ := Checked.bind_eq_ok.mp h
    rw [eq_map_of_expectMap hEntries, Value.hasUniqueKeys_map_iff] at hUnique
    split at hAfter
    · obtain ⟨tables, hTables, hEq⟩ := Checked.bind_eq_ok.mp hAfter
      cases hEq
      obtain ⟨hNames, hFields⟩ := map_fst_groupedRecords hUnique.2 hTables
      exact ⟨hNames ▸ hUnique.1, hFields⟩
    · obtain ⟨records, hRecords, hEq⟩ := Checked.bind_eq_ok.mp hAfter
      cases hEq
      have hKeys := map_fst_flatRecords hRecords
      exact (hKeys ▸ hUnique.1 : (records.map (·.1)).Nodup)
  | flatList =>
    obtain ⟨path, -, hAfter⟩ := Checked.bind_eq_ok.mp h
    obtain ⟨elements, -, hEq⟩ := Checked.bind_eq_ok.mp hAfter
    cases hEq
    trivial
  | keyedTable =>
    obtain ⟨path, -, hAfter⟩ := Checked.bind_eq_ok.mp h
    obtain ⟨records, hRecords, hEq⟩ := Checked.bind_eq_ok.mp hAfter
    cases hEq
    exact nodup_of_readRecords hRecords
  | tableDirectory =>
    obtain ⟨path, -, hAfter⟩ := Checked.bind_eq_ok.mp h
    obtain ⟨tables, hTables, hEq⟩ := Checked.bind_eq_ok.mp hAfter
    cases hEq
    rw [readTableDirectory] at hTables
    split at hTables
    · obtain ⟨hNames, -, hFields⟩ := nodup_of_readTables hTables
      exact ⟨hNames, hFields⟩
    · cases hTables

/-- The kind of data and, for data in the document, the form that is asked for decide whether a
version is parted into tables. -/
def SourceKind.isGrouped (kind : SourceKind) (grouped : Bool) : Bool :=
  match kind with
  | .inline => grouped
  | .flatList => false
  | .keyedTable => false
  | .tableDirectory => true

theorem isGrouped_of_loadSource {value : Value} {source : Source}
    (h : loadSource loading file field kind grouped value = .ok source) :
    source.isGrouped = kind.isGrouped grouped := by
  cases kind with
  | inline =>
    obtain ⟨entries, -, hAfter⟩ := Checked.bind_eq_ok.mp h
    split at hAfter
    · next hGrouped =>
      obtain ⟨tables, -, hEq⟩ := Checked.bind_eq_ok.mp hAfter
      cases hEq
      exact hGrouped.symm
    · next hFlat =>
      obtain ⟨records, -, hEq⟩ := Checked.bind_eq_ok.mp hAfter
      cases hEq
      exact (Bool.not_eq_true _ ▸ hFlat).symm
  | _ =>
    obtain ⟨path, -, hAfter⟩ := Checked.bind_eq_ok.mp h
    obtain ⟨loaded, -, hEq⟩ := Checked.bind_eq_ok.mp hAfter
    cases hEq
    rfl

/-- Versions keep their names and their order. -/
theorem map_fst_of_loadEach {entries : List (String × Value)} {versions : List Version}
    (h : loadEach loading file kind grouped entries = .ok versions) :
    versions.map (·.1) = entries.map (·.1) := by
  induction entries generalizing versions with
  | nil =>
    cases h
    rfl
  | cons entry rest ih =>
    rw [loadEach] at h
    obtain ⟨source, -, hAfter⟩ := Checked.bind_eq_ok.mp h
    obtain ⟨others, hOthers, hEq⟩ := Checked.bind_eq_ok.mp hAfter
    cases hEq
    rw [List.map_cons, List.map_cons, ih hOthers]

theorem forall_mem_of_loadEach {entries : List (String × Value)} {versions : List Version}
    (hUnique : ∀ entry ∈ entries, entry.2.HasUniqueKeys)
    (h : loadEach loading file kind grouped entries = .ok versions) :
    ∀ version ∈ versions, version.2.HasUniqueKeys ∧
      version.2.isGrouped = kind.isGrouped grouped := by
  induction entries generalizing versions with
  | nil =>
    cases h
    simp
  | cons entry rest ih =>
    obtain ⟨hEntry, hRest⟩ := List.forall_mem_cons.mp hUnique
    rw [loadEach] at h
    obtain ⟨source, hSource, hAfter⟩ := Checked.bind_eq_ok.mp h
    obtain ⟨others, hOthers, hEq⟩ := Checked.bind_eq_ok.mp hAfter
    cases hEq
    refine List.forall_mem_cons.mpr ⟨⟨?_, isGrouped_of_loadSource hSource⟩, ih hRest hOthers⟩
    exact hasUniqueKeys_of_loadSource hEntry hSource

theorem eq_map_of_requireMap {document : Document} {entries : List (String × Value)}
    (h : document.requireMap field = .ok entries) :
    document.entries.lookup field = some (.map entries) := by
  rw [Document.requireMap, Document.get?] at h
  split at h
  · next own hOwn =>
    cases h
    exact hOwn
  · cases h
  · cases h

/-- The versions of a document have unique keys, the default version is one of them, and it decides
on the layout of all. -/
theorem loadedVersions_of_loadVersions {document : Document} {body : Body}
    (hUnique : (Value.map document.entries).HasUniqueKeys)
    (h : loadVersions loading document kind = .ok body) :
    ∃ versions defaultVersion, body = .values versions defaultVersion ∧
      LoadedVersions versions defaultVersion := by
  obtain ⟨defaultVersion, -, hAfter⟩ := Checked.bind_eq_ok.mp h
  obtain ⟨entries, hEntries, hAfter⟩ := Checked.bind_eq_ok.mp hAfter
  have hVersions := (Value.hasUniqueKeys_map_iff.mp hUnique).2 _
    (mem_of_lookup (eq_map_of_requireMap hEntries))
  obtain ⟨hNames, hValues⟩ := Value.hasUniqueKeys_map_iff.mp hVersions
  split at hAfter
  · cases hAfter
  · next value hDefault =>
    obtain ⟨versions, hLoaded, hEq⟩ := Checked.bind_eq_ok.mp hAfter
    cases hEq
    have hSame := map_fst_of_loadEach hLoaded
    have hEach := forall_mem_of_loadEach hValues hLoaded
    refine ⟨versions, defaultVersion, rfl, ?_⟩
    exact {
      names := hSame ▸ hNames
      keys := fun version hVersion => (hEach version hVersion).1
      listed := hSame ▸ exists_lookup_iff.mp ⟨value, hDefault⟩
      layout := by
        cases hLayout : kind.isGrouped (nestsMaps value) with
        | true => exact .inl fun version hVersion => (hEach version hVersion).2.trans hLayout
        | false => exact .inr fun version hVersion => (hEach version hVersion).2.trans hLayout }

end Versions

/-! ## Descriptions of versions -/

/-- A fault that is about a name: it cannot be spelled, or it is taken. -/
def Fault.RefusesName (file : Path) (fault : Fault) : Prop :=
  (∃ key identifier, fault = .definition file (.notIdentifier key identifier)) ∨
    ∃ clash, fault = .duplicateIdentifier clash

section Descriptions

variable {fault : Fault}

theorem refusesName_of_claimName {scope : Registry} {identifier key : String}
    (h : claimName file scope identifier key = .error fault) : fault.RefusesName file := by
  rcases claimName_eq_error_iff.mp h with ⟨-, rfl⟩ | ⟨-, first, -, rfl⟩
  · exact .inl ⟨_, _, rfl⟩
  · exact .inr ⟨_, rfl⟩

theorem refusesName_of_claimNames {scope : Registry} {claims : List (String × String)}
    (h : claimNames file scope claims = .error fault) : fault.RefusesName file := by
  obtain ⟨-, claim, -, -, next, -, hClaim⟩ := claimNames_eq_error_iff.mp h
  exact refusesName_of_claimName hClaim

theorem refusesName_of_describeTables {types : Registry} {place : Nat} {tables : List KeyTable}
    (h : describeTables file types place tables = .error fault) : fault.RefusesName file := by
  induction tables generalizing types place with
  | nil => cases h
  | cons table rest ih =>
    rw [describeTables] at h
    rcases Checked.bind_eq_error.mp h with hType | ⟨next, -, hAfter⟩
    · exact refusesName_of_claimName hType
    · rcases Checked.bind_eq_error.mp hAfter with hFields | ⟨scope, -, hAfter⟩
      · exact refusesName_of_claimNames hFields
      · rcases Checked.bind_eq_error.mp hAfter with hRest | ⟨modules, -, hEq⟩
        · exact ih hRest
        · cases hEq

/-- The default version is in the reconciled table, so a description is refused for names alone. -/
theorem refusesName_of_describeValues {naming : Naming} {definition : Definition}
    {canonical : Canonical} {table : ReconciledTable} {defaultVersion : String}
    (hDefault : defaultVersion ∈ table.versionNames)
    (h : describeValues naming definition canonical table defaultVersion = .error fault) :
    fault.RefusesName definition.source := by
  rw [describeValues_eq] at h
  rcases Checked.bind_eq_error.mp h with hClass | ⟨types, -, hAfter⟩
  · exact refusesName_of_claimName hClass
  · rcases Checked.bind_eq_error.mp hAfter with hKeys | ⟨scope, -, hAfter⟩
    · exact refusesName_of_claimNames hKeys
    · rcases Checked.bind_eq_error.mp hAfter with hTables | ⟨modules, -, hAfter⟩
      · exact refusesName_of_describeTables hTables
      · rcases Checked.bind_eq_error.mp hAfter with hVersions | ⟨last, -, hAfter⟩
        · exact refusesName_of_claimNames hVersions
        · rw [if_pos (List.contains_iff_mem.mpr hDefault)] at hAfter
          cases hAfter

end Descriptions

/-! ## Loaded definitions -/

/-- Loaded versions have unique names and keys, the default version is one of them, and all of them
are parted into tables, or none is. So neither reconciliation nor the description of what it yields
finds an invalid version, and reconciliation never blames the default version for its keys. -/
theorem loadedVersions_of_loadDefinition {definition : Definition}
    (h : loadDefinition loading file .values = .ok definition) :
    ∃ versions defaultVersion, definition.body = .values versions defaultVersion ∧
      LoadedVersions versions defaultVersion ∧
      (∀ fault, reconcile versions defaultVersion = .error fault →
        (∀ version flaw, fault ≠ .invalidVersion version flaw) ∧
          ¬fault.BlamesKeys defaultVersion) ∧
      ∀ naming canonical table fault,
        reconcile versions defaultVersion = .ok (canonical, table) →
        describeValues naming definition canonical table defaultVersion = .error fault →
        ∀ version flaw, fault ≠ .invalidVersion version flaw := by
  obtain ⟨document, hDocument, hDefinition⟩ := Checked.bind_eq_ok.mp h
  rw [loadDocument_eq] at hDefinition
  obtain ⟨header, hHeader, hDefinition⟩ := Checked.bind_eq_ok.mp hDefinition
  obtain ⟨body, hBody, hDefinition⟩ := Checked.bind_eq_ok.mp hDefinition
  cases hDefinition
  obtain ⟨versions, defaultVersion, rfl, hLoaded⟩ :=
    loadedVersions_of_loadVersions (Document.hasUniqueKeys_of_read hDocument) hBody
  refine ⟨versions, defaultVersion, (source_and_body_of_loadHeader hHeader _).2, hLoaded, ?_, ?_⟩
  · intro fault hFault
    rcases hLoaded.fault_of_reconcile hFault with ⟨clash, rfl⟩ | ⟨version, -, hOther, hBlames⟩
    · simp [Fault.BlamesKeys]
    · rcases hBlames with ⟨key, rfl⟩ | ⟨keys, rfl⟩
      · simpa [Fault.BlamesKeys] using hOther
      · simpa [Fault.BlamesKeys] using hOther
  · intro naming canonical table fault hReconcile hFault
    have hDefault : defaultVersion ∈ table.versionNames := by
      rw [versionNames_of_reconcile hReconcile]
      exact hLoaded.listed
    rcases refusesName_of_describeValues hDefault hFault with ⟨key, identifier, rfl⟩ | ⟨clash, rfl⟩
    · simp
    · simp

/-- A definition whose versions are in two table files, one of which has a key twice. -/
def greetingsLoading : Loading where
  naming := {}
  namespaceRoot := ["app"]
  tree :=
    { entries :=
        [(["greetings.toml"], .file (.text
          ("class = 'Greetings'\ntype = 'csv-named'\ndefaultVersion = 'en'\n" ++
            "[versions]\nen = 'en.csv'\nde = 'de.csv'\n"))),
         (["en.csv"], .file (.text "hello,Hi\nbye,Bye\nhello,Hello\n")),
         (["de.csv"], .file (.text "bye,Tschau\nhello,Hallo\n"))] }

/-- The key that comes twice is loaded once, with its last value. -/
theorem loadedVersions_greetings :
    ∃ definition, loadDefinition greetingsLoading ⟨"greetings.toml"⟩ .values = .ok definition ∧
      definition.body = .values [("en", .keyed [("hello", "Hello"), ("bye", "Bye")]),
        ("de", .keyed [("bye", "Tschau"), ("hello", "Hallo")])] "en" ∧
      ∃ versions defaultVersion, definition.body = .values versions defaultVersion ∧
        LoadedVersions versions defaultVersion := by
  have hBody : (loadDefinition greetingsLoading ⟨"greetings.toml"⟩ .values).toOption.map (·.body) =
      some (.values [("en", .keyed [("hello", "Hello"), ("bye", "Bye")]),
        ("de", .keyed [("bye", "Tschau"), ("hello", "Hallo")])] "en") := by
    decide +kernel
  obtain ⟨definition, hDefinition, hVersions⟩ := Checked.map_toOption_eq_some_iff.mp hBody
  obtain ⟨versions, defaultVersion, hSame, hLoaded, -⟩ :=
    loadedVersions_of_loadDefinition hDefinition
  exact ⟨definition, hDefinition, hVersions, versions, defaultVersion, hSame, hLoaded⟩

end ResourceTables
