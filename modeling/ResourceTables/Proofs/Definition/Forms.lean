import ResourceTables.Compiler
import ResourceTables.Proofs.Definition.Readings
import ResourceTables.Proofs.Definition.TableDirectory

/-!
# Forms of a definition

The versions of a definition can be written in the definition itself or in files that it names, flat
or parted into tables. The definition is compiled to the same module in both forms, or refused for
the same reason: loading gives the same records, and reconciliation does not look where they come
from.

## Main definitions

* `Stored`: the data of a version, with the path of the file or directory that holds it.
* `Forms`: two documents that differ only in where the data is.
* `textMap`, `tableMap`: data as it is written in a document.
* `loadNames`: a definition but for the kind of its data and the data.

## Main results

* `reconcile_keyed`: records are reconciled alike, be they written or read.
* `describeFile_eq_of_forms`: both forms of a definition are compiled to the same module.
-/

namespace ResourceTables

/-- The data of a version, with the path of the file or directory that holds it. -/
structure Stored (α : Type) where
  name : String
  data : α
  path : String

/-- Records as they are written in a document. -/
def textMap (records : Records) : Value :=
  .map (records.map fun record => (record.1, .string record.2))

/-- Tables as they are written in a document. -/
def tableMap (tables : List (String × Records)) : Value :=
  .map (tables.map fun table => (table.1, textMap table.2))

/-- The versions, with their data as a source. -/
def sources {α : Type} (source : α → Source) (versions : List (Stored α)) : List Version :=
  versions.map fun version => (version.name, source version.data)

/-- Two documents with the same entries, but that one holds the data of its versions and the other
names where the data is. -/
structure Forms {α : Type} (kindName : String) (written : α → Value) (holds : Path → α → Prop)
    (inline named : Document) (versions : List (Stored α)) : Prop where
  file : inline.file = named.file
  others : ∀ field, field ≠ "type" → field ≠ "versions" → inline.get? field = named.get? field
  inlineType : inline.get? "type" = some (.string "in-place")
  namedType : named.get? "type" = some (.string kindName)
  inlineVersions : inline.get? "versions" =
    some (.map (versions.map fun version => (version.name, written version.data)))
  namedVersions : named.get? "versions" =
    some (.map (versions.map fun version => (version.name, .string version.path)))
  held : ∀ version ∈ versions, holds ((directoryOf named.file).join ⟨version.path⟩) version.data

/-! ## Reconciliation of records -/

/-- Records are reconciled alike, be they written in a document or read from a file. -/
theorem reconcile_keyed (versions : List (Stored Records)) (defaultVersion : String) :
    reconcile (sources .literal versions) defaultVersion =
      reconcile (sources .keyed versions) defaultVersion := by
  have hAlign : ∀ (keys : Canonical) (version : Stored Records),
      alignVersion keys (version.name, .literal version.data) =
        alignVersion keys (version.name, .keyed version.data) := by
    intro keys version
    cases keys <;> rfl
  rw [reconcile, reconcile, sources, sources, lookup_map, lookup_map]
  cases versions.find? fun version => defaultVersion == version.name with
  | none => rfl
  | some main =>
    simp only [Option.map_some, List.mapM_map, Function.comp_def, hAlign]
    rfl

/-! ## Data in its two forms -/

section Loading

variable {loading : Loading} {file : Path} {field : String}

theorem flatRecords_textMap (file : Path) (field : String) (records : Records) :
    flatRecords file field (records.map fun record => (record.1, .string record.2)) =
      .ok records := by
  induction records with
  | nil => rfl
  | cons record rest ih =>
    rw [List.map_cons, flatRecords]
    simp only [scalarText?, ih]
    rfl

theorem groupedRecords_tableMap (file : Path) (field : String)
    (tables : List (String × Records)) :
    groupedRecords file field (tables.map fun table => (table.1, textMap table.2)) =
      .ok tables := by
  induction tables with
  | nil => rfl
  | cons table rest ih =>
    rw [List.map_cons, groupedRecords]
    simp only [textMap, expectMap]
    have hOwn := flatRecords_textMap file (subfield field table.1) table.2
    simp only [textMap] at ih
    simp only [bind, Except.bind, hOwn, ih]
    rfl

/-- Written records are loaded as they are, unless the default version has tables. -/
theorem loadSource_textMap (records : Records) :
    loadSource loading file field .inline false (textMap records) = .ok (.literal records) := by
  have hRecords := flatRecords_textMap file field records
  rw [loadSource, textMap, expectMap]
  simp only [bind, Except.bind, hRecords]
  rfl

/-- Written tables are loaded as they are if the default version has tables. -/
theorem loadSource_tableMap (tables : List (String × Records)) :
    loadSource loading file field .inline true (tableMap tables) = .ok (.grouped tables) := by
  have hTables := groupedRecords_tableMap file field tables
  rw [loadSource, tableMap, expectMap]
  simp only [bind, Except.bind, hTables]
  rfl

/-- Listed records are loaded as they are. -/
theorem loadSource_listedAt (hSeparator : loading.naming.separator ∉ ['\n', '\r'])
    {records : Records} {path : String}
    (h : Table.ListedAt loading.naming.separator loading.tree ((directoryOf file).join ⟨path⟩)
      records) (grouped : Bool) :
    loadSource loading file field .keyedTable grouped (.string path) = .ok (.keyed records) := by
  have hRead := h.readRecords hSeparator
  rw [loadSource, dataPath, expectPath]
  simp only [bind, Except.bind, pure, Except.pure, hRead]

/-- Listed tables are loaded as they are. -/
theorem loadSource_tablesAt (hSeparator : loading.naming.separator ∉ ['\n', '\r'])
    {tables : List (String × Records)} {path : String}
    (h : TablesAt loading.naming.separator loading.tree ((directoryOf file).join ⟨path⟩) tables)
    (grouped : Bool) :
    loadSource loading file field .tableDirectory grouped (.string path) =
      .ok (.grouped tables) := by
  have hRead := h.readTableDirectory hSeparator file
  rw [loadSource, dataPath, expectPath]
  simp only [bind, Except.bind, pure, Except.pure, hRead]

end Loading

/-! ## Versions in their two forms -/

/-- The default version that a document names, which must be one of the given names. -/
def requireDefault (document : Document) (names : List String) : Checked String := do
  let defaultVersion ← document.requireText "defaultVersion"
  if defaultVersion ∈ names then return defaultVersion
  else .error (.definition document.file (.unlistedDefault defaultVersion))

/-- The body of a document whose versions have the given data. -/
def valuesOf {α : Type} (document : Document) (versions : List (Stored α)) (source : α → Source) :
    Checked Body := do
  return .values (sources source versions) (← requireDefault document (versions.map (·.name)))

section Versions

variable {α : Type} {loading : Loading} {document : Document} {kind : SourceKind}
  {versions : List (Stored α)} {value : Stored α → Value} {source : α → Source}

/-- Versions are loaded one by one. -/
theorem loadEach_map {file : Path} {grouped : Bool}
    (h : ∀ version ∈ versions, ∀ field,
      loadSource loading file field kind grouped (value version) = .ok (source version.data)) :
    loadEach loading file kind grouped
        (versions.map fun version => (version.name, value version)) =
      .ok (sources source versions) := by
  induction versions with
  | nil => rfl
  | cons version rest ih =>
    obtain ⟨hVersion, hRest⟩ := List.forall_mem_cons.mp h
    rw [List.map_cons, loadEach]
    simp only [bind, Except.bind, hVersion, ih hRest]
    rfl

/-- If each version is loaded in the form that the default version asks for, then only the default
version can be at fault. -/
theorem loadVersions_eq
    (hVersions : document.get? "versions" =
      some (.map (versions.map fun version => (version.name, value version))))
    (hLoaded : ∀ main ∈ versions, document.requireText "defaultVersion" = .ok main.name →
      ∀ version ∈ versions, ∀ field,
        loadSource loading document.file field kind (nestsMaps (value main)) (value version) =
          .ok (source version.data)) :
    loadVersions loading document kind = valuesOf document versions source := by
  have hEntries : document.requireMap "versions" =
      .ok (versions.map fun version => (version.name, value version)) := by
    rw [Document.requireMap, hVersions]
  rw [loadVersions, valuesOf, requireDefault]
  cases hDefault : document.requireText "defaultVersion" with
  | error fault => rfl
  | ok defaultVersion =>
    simp only [bind, Except.bind, hEntries, lookup_map]
    -- The form of the default version is asked of all, so it is looked up before any is loaded.
    cases hMain : versions.find? fun version => defaultVersion == version.name with
    | none =>
      have hUnlisted : defaultVersion ∉ versions.map (·.name) := by
        intro hMem
        obtain ⟨version, hVersion, hName⟩ := List.mem_map.mp hMem
        have hOther := List.find?_eq_none.mp hMain version hVersion
        simp [hName] at hOther
      rw [if_neg hUnlisted]
      rfl
    | some main =>
      have hMem := List.mem_of_find?_eq_some hMain
      have hName : defaultVersion = main.name := by
        simpa using List.find?_some hMain
      have hEach := loadEach_map (hLoaded main hMem (hName ▸ hDefault))
      rw [if_pos (hName ▸ List.mem_map_of_mem hMem)]
      simp only [Option.map_some, hEach]
      rfl

end Versions

/-! ## Definitions in their two forms -/

theorem text?_congr {document other : Document} {field : String}
    (hFile : document.file = other.file) (h : document.get? field = other.get? field) :
    document.text? field = other.text? field := by
  rw [Document.text?, Document.text?, hFile, h]

theorem requireText_congr {document other : Document} {field : String}
    (hFile : document.file = other.file) (h : document.get? field = other.get? field) :
    document.requireText field = other.requireText field := by
  rw [Document.requireText, Document.requireText, text?_congr hFile h, hFile]

theorem requireText_of_get? {document : Document} {field text : String}
    (h : document.get? field = some (.string text)) : document.requireText field = .ok text := by
  rw [Document.requireText, Document.text?, h]
  rfl

/-- A definition but for the kind of its data and the data. -/
def loadNames (namespaceRoot : List String) (document : Document) :
    Checked (SourceKind → Body → Definition) := do
  let className ← document.requireText "class"
  if (Text.trim className.toList).isEmpty then throw (.definition document.file .blankClass)
  let addedNamespace := ((← document.text? "addNamespace").map namespaceSegments).getD []
  let versionPrefix ← document.text? "versionKeyPrefix"
  return fun kind body => {
    source := document.file
    className
    namespacePath := namespaceRoot ++ addedNamespace
    addedNamespace
    kind
    versionPrefix
    body }

theorem loadHeader_eq {document : Document} {kindName : String} {kind : SourceKind}
    (hType : document.get? "type" = some (.string kindName))
    (hKind : SourceKind.ofName? kindName = some kind) (namespaceRoot : List String) :
    loadHeader namespaceRoot document =
      loadNames namespaceRoot document >>= fun names => .ok (kind, names kind) := by
  rw [loadHeader, loadNames, requireText_of_get? hType]
  simp only [bind_assoc]
  refine bind_congr fun className => ?_
  by_cases hBlank : (Text.trim className.toList).isEmpty = true
  · rw [if_pos hBlank, if_pos hBlank]
    rfl
  · rw [if_neg hBlank, if_neg hBlank]
    simp only [bind, Except.bind, hKind]
    cases document.text? "addNamespace" with
    | error fault => rfl
    | ok added =>
      cases document.text? "versionKeyPrefix" <;> rfl

/-- The module of a definition does not tell where the data came from. -/
theorem describe_of_loadNames {namespaceRoot : List String} {document : Document}
    {names : SourceKind → Body → Definition} (h : loadNames namespaceRoot document = .ok names)
    {naming : Naming} {versions others : List Version} {defaultVersion : String}
    (hSame : reconcile versions defaultVersion = reconcile others defaultVersion)
    (kind other : SourceKind) :
    describe naming (names kind (.values versions defaultVersion)) =
      describe naming (names other (.values others defaultVersion)) := by
  rw [loadNames] at h
  obtain ⟨className, -, h⟩ := Checked.bind_eq_ok.mp h
  split at h
  · cases h
  obtain ⟨added, -, h⟩ := Checked.bind_eq_ok.mp h
  obtain ⟨versionPrefix, -, h⟩ := Checked.bind_eq_ok.mp h
  cases h
  simp only [describe, hSame]
  rfl

namespace Forms

variable {α : Type} {kindName : String} {kind : SourceKind} {written : α → Value}
  {holds : Path → α → Prop} {inline named : Document} {versions : List (Stored α)}

theorem text?_eq (h : Forms kindName written holds inline named versions) {field : String}
    (hType : field ≠ "type") (hVersions : field ≠ "versions") :
    inline.text? field = named.text? field :=
  text?_congr h.file (h.others field hType hVersions)

theorem requireText_eq (h : Forms kindName written holds inline named versions) {field : String}
    (hType : field ≠ "type") (hVersions : field ≠ "versions") :
    inline.requireText field = named.requireText field :=
  requireText_congr h.file (h.others field hType hVersions)

theorem loadNames_eq (h : Forms kindName written holds inline named versions)
    (namespaceRoot : List String) :
    loadNames namespaceRoot inline = loadNames namespaceRoot named := by
  rw [loadNames, loadNames, h.file,
    h.requireText_eq (by decide : "class" ≠ "type") (by decide),
    h.text?_eq (by decide : "addNamespace" ≠ "type") (by decide),
    h.text?_eq (by decide : "versionKeyPrefix" ≠ "type") (by decide)]

theorem requireDefault_eq (h : Forms kindName written holds inline named versions)
    (names : List String) : requireDefault inline names = requireDefault named names := by
  rw [requireDefault, requireDefault, h.file,
    h.requireText_eq (by decide : "defaultVersion" ≠ "type") (by decide)]

/-- Both forms are described alike if the data of each version is loaded in both, and if what is
loaded is reconciled alike. -/
theorem describe_eq (h : Forms kindName written holds inline named versions)
    (hKind : SourceKind.ofName? kindName = some kind) {loading other : Loading}
    (hRoot : loading.namespaceRoot = other.namespaceRoot) {writtenSource heldSource : α → Source}
    (hInline : loadVersions loading inline .inline = valuesOf inline versions writtenSource)
    (hNamed : loadVersions other named kind = valuesOf named versions heldSource)
    (hSame : ∀ defaultVersion, reconcile (sources writtenSource versions) defaultVersion =
      reconcile (sources heldSource versions) defaultVersion) (naming : Naming) :
    loadDocument loading inline .values >>= describe naming =
      loadDocument other named .values >>= describe naming := by
  rw [loadDocument_eq, loadDocument_eq, loadHeader_eq h.inlineType rfl,
    loadHeader_eq h.namedType hKind, hRoot, h.loadNames_eq]
  cases hNames : loadNames other.namespaceRoot named with
  | error fault => rfl
  | ok names =>
    simp only [bind, Except.bind, loadBody, hInline, hNamed, valuesOf, h.requireDefault_eq]
    cases requireDefault named (versions.map (·.name)) with
    | error fault => rfl
    | ok defaultVersion => exact describe_of_loadNames hNames (hSame defaultVersion) .inline kind

end Forms

theorem describeFile_eq {compiler : Compiler} {tree : Tree} {path : Path} {document : Document}
    (h : Document.read tree (compiler.configuration.resolve path) = .ok document) (mode : Mode) :
    compiler.describeFile tree path mode =
      loadDocument (compiler.loading tree) document mode >>= describe compiler.naming := by
  rw [Compiler.describeFile, loadDefinition]
  simp only [Compiler.loading, h]
  rfl

/-! ## Flat data and tables -/

section Compiled

variable {inline named : Document}

theorem nestsMaps_textMap (records : Records) : nestsMaps (textMap records) = false := by
  simp [nestsMaps, textMap, Value.isMap]

theorem nestsMaps_tableMap {tables : List (String × Records)} (h : tables ≠ []) :
    nestsMaps (tableMap tables) = true := by
  cases tables with
  | nil => exact absurd rfl h
  | cons table rest => rfl

variable {versions : List (Stored Records)}

theorem loadVersions_textMap (loading : Loading) {holds : Path → Records → Prop}
    (h : Forms "csv-named" textMap holds inline named versions) :
    loadVersions loading inline .inline = valuesOf inline versions .literal := by
  refine loadVersions_eq h.inlineVersions fun main _ _ version _ field => ?_
  rw [nestsMaps_textMap]
  exact loadSource_textMap version.data

theorem loadVersions_listedAt (loading : Loading)
    (hSeparator : loading.naming.separator ∉ ['\n', '\r'])
    (h : Forms "csv-named" textMap (Table.ListedAt loading.naming.separator loading.tree) inline
      named versions) :
    loadVersions loading named .keyedTable = valuesOf named versions .keyed := by
  refine loadVersions_eq h.namedVersions fun main _ _ version hVersion field => ?_
  exact loadSource_listedAt hSeparator (h.held version hVersion) _

variable {versions : List (Stored (List (String × Records)))}

theorem loadVersions_tableMap (loading : Loading) {holds : Path → List (String × Records) → Prop}
    (h : Forms "csv-grouped" tableMap holds inline named versions)
    (hTables : ∀ main ∈ versions, inline.requireText "defaultVersion" = .ok main.name →
      main.data ≠ []) :
    loadVersions loading inline .inline = valuesOf inline versions .grouped := by
  refine loadVersions_eq h.inlineVersions fun main hMain hDefault version _ field => ?_
  rw [nestsMaps_tableMap (hTables main hMain hDefault)]
  exact loadSource_tableMap version.data

theorem loadVersions_tablesAt (loading : Loading)
    (hSeparator : loading.naming.separator ∉ ['\n', '\r'])
    (h : Forms "csv-grouped" tableMap (TablesAt loading.naming.separator loading.tree) inline named
      versions) :
    loadVersions loading named .tableDirectory = valuesOf named versions .grouped := by
  refine loadVersions_eq h.namedVersions fun main _ _ version hVersion field => ?_
  exact loadSource_tablesAt hSeparator (h.held version hVersion) _

end Compiled

/-- A definition is compiled to the same module, or refused for the same reason, be its data written
in it or held in files: flat data in a table file for each version, or tables in a directory for
each version, of which the default version has one at least. -/
theorem describeFile_eq_of_forms {compiler : Compiler} {tree other : Tree} {path : Path}
    {inline named : Document} (hSeparator : compiler.naming.separator ∉ ['\n', '\r'])
    (hInline : Document.read tree (compiler.configuration.resolve path) = .ok inline)
    (hNamed : Document.read other (compiler.configuration.resolve path) = .ok named)
    (hForms :
      (∃ versions, Forms "csv-named" textMap (Table.ListedAt compiler.naming.separator other)
        inline named versions) ∨
      ∃ versions, Forms "csv-grouped" tableMap (TablesAt compiler.naming.separator other)
          inline named versions ∧
        ∀ main ∈ versions, inline.requireText "defaultVersion" = .ok main.name →
          main.data ≠ []) :
    compiler.describeFile tree path .values = compiler.describeFile other path .values := by
  have hRoot : (compiler.loading tree).namespaceRoot = (compiler.loading other).namespaceRoot := rfl
  rw [describeFile_eq hInline, describeFile_eq hNamed]
  rcases hForms with ⟨versions, hFlat⟩ | ⟨versions, hGrouped, hTables⟩
  · have hWritten := loadVersions_textMap (compiler.loading tree) hFlat
    have hHeld := loadVersions_listedAt (compiler.loading other) hSeparator hFlat
    exact hFlat.describe_eq rfl hRoot hWritten hHeld (reconcile_keyed versions) compiler.naming
  · have hWritten := loadVersions_tableMap (compiler.loading tree) hGrouped hTables
    have hHeld := loadVersions_tablesAt (compiler.loading other) hSeparator hGrouped
    exact hGrouped.describe_eq rfl hRoot hWritten hHeld (fun _ => rfl) compiler.naming

/-- A definition of greetings. -/
def greetingsFile : Path :=
  ⟨"greetings.toml"⟩

/-- The definition with some versions. -/
def greetingsDocument {α : Type} (kindName : String) (versions : List (Stored α))
    (value : Stored α → Value) : Document where
  file := greetingsFile
  entries :=
    [("class", .string "Greetings"), ("type", .string kindName), ("defaultVersion", .string "en"),
      ("versions", .map (versions.map fun version => (version.name, value version)))]

theorem forms_greetingsDocument {α : Type} {kindName : String} {written : α → Value}
    {holds : Path → α → Prop} {versions : List (Stored α)}
    (h : ∀ version ∈ versions,
      holds ((directoryOf greetingsFile).join ⟨version.path⟩) version.data) :
    Forms kindName written holds
      (greetingsDocument "in-place" versions fun version => written version.data)
      (greetingsDocument kindName versions fun version => .string version.path) versions where
  file := rfl
  others := by
    intro field hType hVersions
    simp [greetingsDocument, Document.get?, List.lookup_cons, beq_eq_false_iff_ne.mpr hType,
      beq_eq_false_iff_ne.mpr hVersions]
  inlineType := rfl
  namedType := rfl
  inlineVersions := rfl
  namedVersions := rfl
  held := h

/-- Greetings in two versions, with the keys in different orders. -/
def flatGreetings : List (Stored Records) :=
  [⟨"en", [("hello", "Hi"), ("bye", "Bye")], "en.csv"⟩,
    ⟨"de", [("bye", "Tschau"), ("hello", "Hallo")], "de.csv"⟩]

/-- Greetings in tables; one of the versions lacks a table. -/
def groupedGreetings : List (Stored (List (String × Records))) :=
  [⟨"en", [("day", [("hello", "Hi")]), ("night", [("bye", "Bye")])], "en"⟩,
    ⟨"de", [("day", [("hello", "Hallo")])], "de"⟩]

/-- The definition, next to a file and a directory for each version. -/
def greetingsTree (kindName versions : String) : Tree where
  entries :=
    [(["greetings.toml"], .file (.text
        ("class = 'Greetings'\ntype = '" ++ kindName ++ "'\ndefaultVersion = 'en'\n" ++ versions))),
      (["en.csv"], .file (.text "hello,Hi\nbye,Bye\n")),
      (["de.csv"], .file (.text "# informal\nbye,Tschau\n\nhello,Hallo\n")),
      (["en"], .directory),
      (["en", "night.csv"], .file (.text "bye,Bye\n")),
      (["en", "day.csv"], .file (.text "hello,Hi\n")),
      (["en", ".day.csv.swp"], .file (.text "")),
      (["de"], .directory),
      (["de", "day.csv"], .file (.text "hello,Hallo\n"))]

def flatInline : Tree :=
  greetingsTree "in-place" ("[versions.en]\nhello = 'Hi'\nbye = 'Bye'\n" ++
    "[versions.de]\nbye = 'Tschau'\nhello = 'Hallo'\n")

def flatNamed : Tree :=
  greetingsTree "csv-named" "[versions]\nen = 'en.csv'\nde = 'de.csv'\n"

def groupedInline : Tree :=
  greetingsTree "in-place" ("[versions.en.day]\nhello = 'Hi'\n[versions.en.night]\nbye = 'Bye'\n" ++
    "[versions.de.day]\nhello = 'Hallo'\n")

def groupedNamed : Tree :=
  greetingsTree "csv-grouped" "[versions]\nen = 'en'\nde = 'de'\n"

def greetingsCompiler : Compiler where
  configuration := ⟨⟨"out"⟩, "app", ⟨""⟩⟩
  naming := {}

theorem listedAt_flatNamed : ∀ version ∈ flatGreetings,
    Table.ListedAt ',' flatNamed ((directoryOf greetingsFile).join ⟨version.path⟩)
      version.data := by
  refine List.forall_mem_cons.mpr ⟨?_, List.forall_mem_singleton.mpr ?_⟩
  · have hLines : "hello,Hi\nbye,Bye\n".toList =
        Table.listing ',' [("hello", "Hi"), ("bye", "Bye")] := rfl
    exact Table.listedAt_of_listing (by decide +kernel) rfl hLines
  · refine ⟨by decide +kernel, "# informal\nbye,Tschau\n\nhello,Hallo\n", rfl, ?_⟩
    have hEnd := Table.lists_listing ',' [("hello", "Hallo")]
    have hBlank : Table.Skipped [] := .inl (by simp)
    have hComment : Table.Skipped "# informal".toList :=
      .inr ⟨[], " informal".toList, rfl, by simp⟩
    exact .skip hComment (by decide) (.record "bye" "Tschau" (.skip hBlank (by simp) hEnd))

theorem tablesAt_groupedNamed : ∀ version ∈ groupedGreetings,
    TablesAt ',' groupedNamed ((directoryOf greetingsFile).join ⟨version.path⟩)
      version.data := by
  refine List.forall_mem_cons.mpr ⟨?_, List.forall_mem_singleton.mpr ?_⟩
  · have hPlace : groupedNamed.find ⟨"en"⟩ = .ok (["en"], .directory) := rfl
    refine ⟨rfl, (tableFiles_perm hPlace).trans (by decide +kernel), by decide +kernel,
      by decide +kernel, by decide +kernel,
      List.forall_mem_cons.mpr ⟨?_, List.forall_mem_singleton.mpr ?_⟩⟩
    · have hDay : "hello,Hi\n".toList = Table.listing ',' [("hello", "Hi")] := rfl
      exact Table.listedAt_of_listing (by decide +kernel) rfl hDay
    · have hNight : "bye,Bye\n".toList = Table.listing ',' [("bye", "Bye")] := rfl
      exact Table.listedAt_of_listing (by decide +kernel) rfl hNight
  · have hPlace : groupedNamed.find ⟨"de"⟩ = .ok (["de"], .directory) := rfl
    refine ⟨rfl, (tableFiles_perm hPlace).trans (by decide +kernel), by decide +kernel,
      by decide +kernel, by decide +kernel, List.forall_mem_singleton.mpr ?_⟩
    have hDay : "hello,Hallo\n".toList = Table.listing ',' [("hello", "Hallo")] := rfl
    exact Table.listedAt_of_listing (by decide +kernel) rfl hDay

/-- Flat greetings are compiled to the same module in both forms; in tables they are refused in both
forms, as one of the versions lacks a table. -/
theorem describeFile_greetings :
    greetingsCompiler.describeFile flatInline greetingsFile .values =
        greetingsCompiler.describeFile flatNamed greetingsFile .values ∧
      (greetingsCompiler.describeFile flatNamed greetingsFile .values).isOk = true ∧
      greetingsCompiler.describeFile groupedInline greetingsFile .values =
        greetingsCompiler.describeFile groupedNamed greetingsFile .values ∧
      greetingsCompiler.describeFile groupedInline greetingsFile .values =
        .error (.missingKey "de" "night") := by
  have hFlatInline : Document.read flatInline greetingsFile =
      .ok (greetingsDocument "in-place" flatGreetings fun version => textMap version.data) := by
    decide +kernel
  have hFlatNamed : Document.read flatNamed greetingsFile =
      .ok (greetingsDocument "csv-named" flatGreetings fun version => .string version.path) := by
    decide +kernel
  have hGroupedInline : Document.read groupedInline greetingsFile =
      .ok (greetingsDocument "in-place" groupedGreetings fun version => tableMap version.data) := by
    decide +kernel
  have hGroupedNamed : Document.read groupedNamed greetingsFile =
      .ok (greetingsDocument "csv-grouped" groupedGreetings fun version =>
        .string version.path) := by
    decide +kernel
  have hFile : greetingsCompiler.configuration.resolve greetingsFile = greetingsFile := by
    decide +kernel
  rw [← hFile] at hFlatInline hFlatNamed hGroupedInline hGroupedNamed
  have hTables : ∀ main ∈ groupedGreetings, main.data ≠ [] := by simp [groupedGreetings]
  refine ⟨?_, by decide +kernel, ?_, by decide +kernel⟩
  · exact describeFile_eq_of_forms (by decide) hFlatInline hFlatNamed
      (.inl ⟨flatGreetings, forms_greetingsDocument listedAt_flatNamed⟩)
  · exact describeFile_eq_of_forms (by decide) hGroupedInline hGroupedNamed
      (.inr ⟨groupedGreetings, forms_greetingsDocument tablesAt_groupedNamed,
        fun main hMain _ => hTables main hMain⟩)

end ResourceTables
