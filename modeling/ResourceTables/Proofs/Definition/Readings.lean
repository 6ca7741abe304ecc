import ResourceTables.Compiler
import ResourceTables.Proofs.Checked

/-!
# What a definition is compiled from

A definition is loaded from its file and from the files and directories that it names. These are the
readings of a compilation, in order, up to the first that fails. On every tree that shows the same
to all of them, the definition is compiled to the same file or is refused with the same fault; and
if it is compiled, none of them has failed.

## Main definitions

* `Reading`: the text of a file, or the files in a directory.
* `Compiler.readings`: the readings of a compilation.
* `Reading.SameIn`: another tree shows the same.
* `loadHeader`, `loadBody`: a definition but for its data, and its data.
-/

namespace ResourceTables

/-- A look at the file tree. -/
inductive Reading where
  /-- The text of a file that is named relative to a directory. -/
  | file (base name : Path)
  /-- The names of the files in a directory that is named relative to another. -/
  | directory (base name : Path)
  /-- The text of a file that has been found in a directory. -/
  | table (base : Path) (name : String)
deriving DecidableEq

namespace Reading

/-- The path that is looked at. -/
def path : Reading → Path
  | .file base name => base.join name
  | .directory base name => base.join name
  | .table base name => base.join ⟨name⟩

/-- The path as it is written in a manifest or in a definition. -/
def name? : Reading → Option Path
  | .file _ name => some name
  | .directory _ name => some name
  | .table .. => none

/-- Another tree shows the same. -/
def SameIn (tree other : Tree) : Reading → Prop
  | .directory base name => other.isDirectory (base.join name) = tree.isDirectory (base.join name) ∧
      tableFiles (other.children (base.join name)) = tableFiles (tree.children (base.join name))
  | .file base name => other.readText (base.join name) = tree.readText (base.join name)
  | .table base name => other.readText (base.join ⟨name⟩) = tree.readText (base.join ⟨name⟩)

/-- There is a text, or a directory, to look at. -/
def Succeeds (tree : Tree) : Reading → Prop
  | .directory base name => tree.isDirectory (base.join name) = true
  | .file base name => ∃ text, tree.readText (base.join name) = .ok text
  | .table base name => ∃ text, tree.readText (base.join ⟨name⟩) = .ok text

end Reading

/-! ## Readings -/

/-- What is looked at after a step, unless the step is refused. -/
def readingsAfter {α : Type} (step : Checked α) (further : List Reading) : List Reading :=
  match step with
  | .error _ => []
  | .ok _ => further

@[simp] theorem readingsAfter_ok {α : Type} (result : α) (further : List Reading) :
    readingsAfter (.ok result) further = further := rfl

@[simp] theorem readingsAfter_error {α : Type} (fault : Fault) (further : List Reading) :
    readingsAfter (.error fault : Checked α) further = [] := rfl

/-- The files of a directory that are read for their tables: those up to the first that is refused
or has the name of a table seen before. -/
def tableReadings (loading : Loading) (directory : Path) :
    List String → List String → List Reading
  | _, [] => []
  | seen, fileName :: rest =>
    if seen.contains (tableName fileName) then []
    else
      .table directory fileName ::
        readingsAfter
          (Table.readRecords loading.naming loading.tree (directory.join ⟨fileName⟩))
          (tableReadings loading directory (tableName fileName :: seen) rest)

/-- What is looked at for the data of a version, or of a set of constants. -/
def sourceReadings (loading : Loading) (file : Path) (field : String) (kind : SourceKind)
    (value : Value) : List Reading :=
  match kind, expectPath file field value with
  | .inline, _ => []
  | _, .error _ => []
  | .flatList, .ok name => [.file (directoryOf file) name]
  | .keyedTable, .ok name => [.file (directoryOf file) name]
  | .tableDirectory, .ok name =>
    let directory := (directoryOf file).join name
    .directory (directoryOf file) name ::
      tableReadings loading directory [] (tableFiles (loading.tree.children directory))

/-- What is looked at for versions, up to the first that is refused. -/
def eachReadings (loading : Loading) (file : Path) (kind : SourceKind) (grouped : Bool) :
    List (String × Value) → List Reading
  | [] => []
  | (name, value) :: rest =>
    sourceReadings loading file (subfield "versions" name) kind value ++
      readingsAfter (loadSource loading file (subfield "versions" name) kind grouped value)
        (eachReadings loading file kind grouped rest)

/-- What is looked at for the data of a definition. -/
def bodyReadings (loading : Loading) (document : Document) (kind : SourceKind) :
    Mode → List Reading
  | .constants =>
    match document.get? "data" with
    | none => []
    | some value =>
      if kind = .tableDirectory then []
      else sourceReadings loading document.file "data" kind value
  | .values =>
    match document.requireText "defaultVersion", document.requireMap "versions" with
    | .ok defaultVersion, .ok entries =>
      match entries.lookup defaultVersion with
      | none => []
      | some value => eachReadings loading document.file kind (nestsMaps value) entries
    | _, _ => []

/-! ## Loading in two parts -/

/-- A definition but for its data: where the data is, and the definition as a function of it. -/
def loadHeader (namespaceRoot : List String) (document : Document) :
    Checked (SourceKind × (Body → Definition)) := do
  let file := document.file
  let className ← document.requireText "class"
  if (Text.trim className.toList).isEmpty then throw (.definition file .blankClass)
  let kindName ← document.requireText "type"
  match SourceKind.ofName? kindName with
  | none => .error (.definition file (.unknownType kindName))
  | some kind =>
    let addedNamespace := ((← document.text? "addNamespace").map namespaceSegments).getD []
    let versionPrefix ← document.text? "versionKeyPrefix"
    return (kind, fun body => {
      source := file
      className
      namespacePath := namespaceRoot ++ addedNamespace
      addedNamespace
      kind
      versionPrefix
      body })

/-- The data of a definition. -/
def loadBody (loading : Loading) (document : Document) (kind : SourceKind) : Mode → Checked Body
  | .constants => loadConstants loading document kind
  | .values => loadVersions loading document kind

theorem loadDocument_eq (loading : Loading) (document : Document) (mode : Mode) :
    loadDocument loading document mode =
      loadHeader loading.namespaceRoot document >>= fun header =>
        loadBody loading document header.1 mode >>= fun body => .ok (header.2 body) := by
  rw [loadDocument, loadHeader]
  simp only [bind_assoc]
  refine bind_congr fun className => ?_
  by_cases hBlank : (Text.trim className.toList).isEmpty = true
  · rw [if_pos hBlank, if_pos hBlank]
    rfl
  · rw [if_neg hBlank, if_neg hBlank, bind_assoc]
    refine bind_congr fun kindName => ?_
    cases SourceKind.ofName? kindName with
    | none => rfl
    | some kind =>
      simp only [bind_assoc, pure_bind]
      refine bind_congr fun added => bind_congr fun versionPrefix => ?_
      cases mode <;> rfl

/-- A definition keeps the file of its document and the data it is given. -/
theorem source_and_body_of_loadHeader {namespaceRoot : List String} {document : Document}
    {header : SourceKind × (Body → Definition)}
    (h : loadHeader namespaceRoot document = .ok header) (body : Body) :
    (header.2 body).source = document.file ∧ (header.2 body).body = body := by
  rw [loadHeader] at h
  obtain ⟨className, -, h⟩ := Checked.bind_eq_ok.mp h
  split at h
  · cases h
  obtain ⟨kindName, -, h⟩ := Checked.bind_eq_ok.mp h
  split at h
  · cases h
  · obtain ⟨added, -, h⟩ := Checked.bind_eq_ok.mp h
    obtain ⟨versionPrefix, -, h⟩ := Checked.bind_eq_ok.mp h
    cases h
    exact ⟨rfl, rfl⟩

/-- What a definition file is loaded from: the file, and what is looked at for its data. -/
def definitionReadings (loading : Loading) (base name : Path) (mode : Mode) : List Reading :=
  .file base name ::
    match Document.read loading.tree (base.join name) with
    | .error _ => []
    | .ok document =>
      match loadHeader loading.namespaceRoot document with
      | .error _ => []
      | .ok header => bodyReadings loading document header.1 mode

/-- What a definition file is compiled from. -/
def Compiler.readings (compiler : Compiler) (tree : Tree) (path : Path) (mode : Mode) :
    List Reading :=
  definitionReadings (compiler.loading tree) compiler.configuration.baseDirectory path mode

/-! ## Which readings there are -/

section Membership

variable {loading : Loading} {reading : Reading}

theorem mem_of_mem_readingsAfter {α : Type} {step : Checked α} {further : List Reading}
    (h : reading ∈ readingsAfter step further) : reading ∈ further := by
  cases step with
  | error fault => cases h
  | ok result => exact h

theorem exists_of_mem_tableReadings {directory : Path} {seen fileNames : List String}
    (h : reading ∈ tableReadings loading directory seen fileNames) :
    ∃ fileName ∈ fileNames, reading = .table directory fileName := by
  induction fileNames generalizing seen with
  | nil => cases h
  | cons fileName rest ih =>
    rw [tableReadings] at h
    split at h
    · cases h
    · rcases List.mem_cons.mp h with rfl | hRest
      · exact ⟨fileName, List.mem_cons_self, rfl⟩
      · obtain ⟨other, hOther, hEq⟩ := ih (mem_of_mem_readingsAfter hRest)
        exact ⟨other, List.mem_cons_of_mem _ hOther, hEq⟩

/-- Data is looked for at a path relative to the directory of the definition, or in a file of such a
directory. -/
theorem exists_of_mem_sourceReadings {file : Path} {field : String} {kind : SourceKind}
    {value : Value} (h : reading ∈ sourceReadings loading file field kind value) :
    (∃ name, reading = .file (directoryOf file) name ∨
      reading = .directory (directoryOf file) name) ∨
    ∃ directory, ∃ fileName ∈ tableFiles (loading.tree.children directory),
      reading = .table directory fileName := by
  unfold sourceReadings at h
  split at h
  · cases h
  · cases h
  · exact .inl ⟨_, .inl (List.mem_singleton.mp h)⟩
  · exact .inl ⟨_, .inl (List.mem_singleton.mp h)⟩
  · rcases List.mem_cons.mp h with hDirectory | hTable
    · exact .inl ⟨_, .inr hDirectory⟩
    · exact .inr ⟨_, exists_of_mem_tableReadings hTable⟩

theorem exists_of_mem_eachReadings {file : Path} {kind : SourceKind} {grouped : Bool}
    {entries : List (String × Value)}
    (h : reading ∈ eachReadings loading file kind grouped entries) :
    ∃ field value, reading ∈ sourceReadings loading file field kind value := by
  induction entries with
  | nil => cases h
  | cons entry rest ih =>
    rw [eachReadings] at h
    rcases List.mem_append.mp h with hOwn | hRest
    · exact ⟨_, _, hOwn⟩
    · exact ih (mem_of_mem_readingsAfter hRest)

theorem exists_of_mem_bodyReadings {document : Document} {kind : SourceKind} {mode : Mode}
    (h : reading ∈ bodyReadings loading document kind mode) :
    ∃ field value, reading ∈ sourceReadings loading document.file field kind value := by
  cases mode with
  | constants =>
    rw [bodyReadings] at h
    split at h
    · cases h
    · split at h
      · cases h
      · exact ⟨_, _, h⟩
  | values =>
    rw [bodyReadings] at h
    split at h
    · split at h
      · cases h
      · exact exists_of_mem_eachReadings h
    · cases h

theorem file_of_read {tree : Tree} {file : Path} {document : Document}
    (h : Document.read tree file = .ok document) :
    document.file = file ∧ ∃ text, tree.readText file = .ok text := by
  rw [Document.read] at h
  split at h
  · next text hText =>
    rw [Document.decode] at h
    split at h
    · cases h
      exact ⟨rfl, text, hText⟩
    · cases h
    · cases h
  · cases h

/-- Beside the definition file itself, data is looked at, once the file has been read. -/
theorem exists_of_mem_definitionReadings {base name : Path} {mode : Mode}
    (h : reading ∈ definitionReadings loading base name mode) :
    reading = .file base name ∨ (∃ text, loading.tree.readText (base.join name) = .ok text) ∧
      ∃ kind field value, reading ∈ sourceReadings loading (base.join name) field kind value := by
  rcases List.mem_cons.mp h with hOwn | hData
  · exact .inl hOwn
  · split at hData
    · cases hData
    · next document hRead =>
      split at hData
      · cases hData
      · next header hHeader =>
        obtain ⟨hFile, hText⟩ := file_of_read hRead
        obtain ⟨field, value, hSource⟩ := exists_of_mem_bodyReadings hData
        rw [hFile] at hSource
        exact .inr ⟨hText, header.1, field, value, hSource⟩

end Membership

/-! ## Only the readings matter -/

section Congruence

variable {loading : Loading} {other : Tree}

theorem read_congr {α : Type} {parse : String → Except Nat α} {tree other : Tree} {file : Path}
    (h : other.readText file = tree.readText file) :
    Table.read parse other file = Table.read parse tree file := by
  rw [Table.read, Table.read, h]

theorem readTables_congr (file : Path) {directory : Path} {seen fileNames : List String}
    (h : ∀ reading ∈ tableReadings loading directory seen fileNames,
      reading.SameIn loading.tree other) :
    readTables { loading with tree := other } file directory seen fileNames =
      readTables loading file directory seen fileNames := by
  induction fileNames generalizing seen with
  | nil => rfl
  | cons fileName rest ih =>
    rw [tableReadings] at h
    simp only [readTables]
    split
    · rfl
    · next hSeen =>
      rw [if_neg hSeen, List.forall_mem_cons] at h
      have hRead : Table.readRecords loading.naming other (directory.join ⟨fileName⟩) =
          Table.readRecords loading.naming loading.tree (directory.join ⟨fileName⟩) :=
        read_congr h.1
      simp only [hRead]
      cases hRecords :
          Table.readRecords loading.naming loading.tree (directory.join ⟨fileName⟩) with
      | error fault => rfl
      | ok records =>
        rw [hRecords, readingsAfter_ok] at h
        simp only [bind, Except.bind, ih h.2]

theorem loadSource_congr {file : Path} {field : String} {kind : SourceKind} {grouped : Bool}
    {value : Value}
    (h : ∀ reading ∈ sourceReadings loading file field kind value,
      reading.SameIn loading.tree other) :
    loadSource { loading with tree := other } file field kind grouped value =
      loadSource loading file field kind grouped value := by
  unfold loadSource dataPath
  cases kind with
  | inline => rfl
  | flatList =>
    cases hName : expectPath file field value with
    | error fault => rfl
    | ok name =>
      simp only [sourceReadings, hName, List.forall_mem_singleton] at h
      simp only [bind, Except.bind, pure, Except.pure, Table.readList, read_congr h]
  | keyedTable =>
    cases hName : expectPath file field value with
    | error fault => rfl
    | ok name =>
      simp only [sourceReadings, hName, List.forall_mem_singleton] at h
      simp only [bind, Except.bind, pure, Except.pure, Table.readRecords, read_congr h]
  | tableDirectory =>
    cases hName : expectPath file field value with
    | error fault => rfl
    | ok name =>
      simp only [sourceReadings, hName, List.forall_mem_cons] at h
      obtain ⟨⟨hDirectory, hFiles⟩, hTables⟩ := h
      have hRead := readTables_congr file hTables
      simp only [bind, Except.bind, pure, Except.pure, readTableDirectory, hDirectory, hFiles,
        hRead]

theorem loadEach_congr {file : Path} {kind : SourceKind} {grouped : Bool}
    {entries : List (String × Value)}
    (h : ∀ reading ∈ eachReadings loading file kind grouped entries,
      reading.SameIn loading.tree other) :
    loadEach { loading with tree := other } file kind grouped entries =
      loadEach loading file kind grouped entries := by
  induction entries with
  | nil => rfl
  | cons entry rest ih =>
    obtain ⟨name, value⟩ := entry
    rw [eachReadings, List.forall_mem_append] at h
    rw [loadEach, loadEach, loadSource_congr h.1]
    cases hSource : loadSource loading file (subfield "versions" name) kind grouped value with
    | error fault => rfl
    | ok source =>
      rw [hSource, readingsAfter_ok] at h
      simp only [bind, Except.bind, ih h.2]

theorem loadBody_congr {document : Document} {kind : SourceKind} {mode : Mode}
    (h : ∀ reading ∈ bodyReadings loading document kind mode, reading.SameIn loading.tree other) :
    loadBody { loading with tree := other } document kind mode =
      loadBody loading document kind mode := by
  cases mode with
  | constants =>
    rw [loadBody, loadBody, loadConstants, loadConstants]
    cases hData : document.get? "data" with
    | none => rfl
    | some value =>
      simp only [bodyReadings, hData] at h
      by_cases hKind : kind = .tableDirectory
      · simp only [if_pos hKind]
      · simp only [if_neg hKind] at h ⊢
        rw [loadSource_congr h]
  | values =>
    rw [loadBody, loadBody, loadVersions, loadVersions]
    cases hDefault : document.requireText "defaultVersion" with
    | error fault => rfl
    | ok defaultVersion =>
      cases hEntries : document.requireMap "versions" with
      | error fault => rfl
      | ok entries =>
        simp only [bodyReadings, hDefault, hEntries] at h
        simp only [bind, Except.bind]
        cases hLookup : entries.lookup defaultVersion with
        | none => rfl
        | some value =>
          simp only [hLookup] at h
          simp only [loadEach_congr h]

theorem loadDefinition_congr {base name : Path} {mode : Mode}
    (h : ∀ reading ∈ definitionReadings loading base name mode,
      reading.SameIn loading.tree other) :
    loadDefinition { loading with tree := other } (base.join name) mode =
      loadDefinition loading (base.join name) mode := by
  rw [definitionReadings, List.forall_mem_cons] at h
  obtain ⟨hFile, hRest⟩ := h
  rw [Reading.SameIn] at hFile
  have hDocument :
      Document.read other (base.join name) = Document.read loading.tree (base.join name) := by
    rw [Document.read, Document.read, hFile]
  rw [loadDefinition, loadDefinition, hDocument]
  cases hRead : Document.read loading.tree (base.join name) with
  | error fault => simp only [bind, Except.bind]
  | ok document =>
    simp only [hRead] at hRest
    simp only [bind, Except.bind, loadDocument_eq]
    cases hHeader : loadHeader loading.namespaceRoot document with
    | error fault => rfl
    | ok header =>
      simp only [hHeader] at hRest
      simp only [loadBody_congr hRest]

end Congruence

/-- A definition is compiled to the same file, or refused with the same fault, on every tree that
shows the same to the readings of its compilation. -/
theorem compileUnit_congr {compiler : Compiler} {tree other : Tree} {path : Path} {mode : Mode}
    (h : ∀ reading ∈ compiler.readings tree path mode, reading.SameIn tree other) :
    compiler.compileUnit other path mode = compiler.compileUnit tree path mode := by
  have hLoad : loadDefinition { compiler.loading tree with tree := other }
        (compiler.configuration.resolve path) mode =
      loadDefinition (compiler.loading tree) (compiler.configuration.resolve path) mode :=
    loadDefinition_congr h
  have hSame : loadDefinition (compiler.loading other) (compiler.configuration.resolve path) mode =
      loadDefinition (compiler.loading tree) (compiler.configuration.resolve path) mode := hLoad
  simp only [Compiler.compileUnit, Compiler.describeFile, hSame]

/-! ## A success is one of every reading -/

section Success

variable {loading : Loading}

theorem succeeds_of_read {α : Type} {parse : String → Except Nat α} {tree : Tree} {file : Path}
    {table : α} (h : Table.read parse tree file = .ok table) :
    ∃ text, tree.readText file = .ok text := by
  rw [Table.read] at h
  split at h
  · cases h
  · next text hText => exact ⟨text, hText⟩

theorem succeeds_of_readTables {file directory : Path} {seen fileNames : List String}
    {tables : List (String × Records)}
    (h : readTables loading file directory seen fileNames = .ok tables) :
    ∀ reading ∈ tableReadings loading directory seen fileNames, reading.Succeeds loading.tree := by
  induction fileNames generalizing seen tables with
  | nil => exact fun reading hReading => absurd hReading List.not_mem_nil
  | cons fileName rest ih =>
    rw [readTables] at h
    rw [tableReadings]
    split at h
    · cases h
    · next hSeen =>
      obtain ⟨records, hRecords, h⟩ := Checked.bind_eq_ok.mp h
      obtain ⟨others, hRest, -⟩ := Checked.bind_eq_ok.mp h
      rw [if_neg hSeen, List.forall_mem_cons, hRecords]
      exact ⟨succeeds_of_read hRecords, ih hRest⟩

theorem succeeds_of_loadSource {file : Path} {field : String} {kind : SourceKind} {grouped : Bool}
    {value : Value} {source : Source}
    (h : loadSource loading file field kind grouped value = .ok source) :
    ∀ reading ∈ sourceReadings loading file field kind value, reading.Succeeds loading.tree := by
  unfold loadSource dataPath at h
  cases kind with
  | inline => exact fun reading hReading => absurd hReading List.not_mem_nil
  | flatList =>
    obtain ⟨path, hPath, h⟩ := Checked.bind_eq_ok.mp h
    obtain ⟨name, hName, hJoin⟩ := Checked.bind_eq_ok.mp hPath
    obtain ⟨elements, hElements, -⟩ := Checked.bind_eq_ok.mp h
    cases hJoin
    simp only [sourceReadings, hName, List.forall_mem_singleton]
    exact succeeds_of_read hElements
  | keyedTable =>
    obtain ⟨path, hPath, h⟩ := Checked.bind_eq_ok.mp h
    obtain ⟨name, hName, hJoin⟩ := Checked.bind_eq_ok.mp hPath
    obtain ⟨records, hRecords, -⟩ := Checked.bind_eq_ok.mp h
    cases hJoin
    simp only [sourceReadings, hName, List.forall_mem_singleton]
    exact succeeds_of_read hRecords
  | tableDirectory =>
    obtain ⟨path, hPath, h⟩ := Checked.bind_eq_ok.mp h
    obtain ⟨name, hName, hJoin⟩ := Checked.bind_eq_ok.mp hPath
    obtain ⟨tables, hTables, -⟩ := Checked.bind_eq_ok.mp h
    cases hJoin
    rw [readTableDirectory] at hTables
    split at hTables
    · next hDirectory =>
      simp only [sourceReadings, hName, List.forall_mem_cons]
      exact ⟨hDirectory, succeeds_of_readTables hTables⟩
    · cases hTables

theorem succeeds_of_loadEach {file : Path} {kind : SourceKind} {grouped : Bool}
    {entries : List (String × Value)} {versions : List Version}
    (h : loadEach loading file kind grouped entries = .ok versions) :
    ∀ reading ∈ eachReadings loading file kind grouped entries, reading.Succeeds loading.tree := by
  induction entries generalizing versions with
  | nil => exact fun reading hReading => absurd hReading List.not_mem_nil
  | cons entry rest ih =>
    obtain ⟨name, value⟩ := entry
    rw [loadEach] at h
    obtain ⟨source, hSource, h⟩ := Checked.bind_eq_ok.mp h
    obtain ⟨others, hRest, -⟩ := Checked.bind_eq_ok.mp h
    rw [eachReadings, List.forall_mem_append, hSource]
    exact ⟨succeeds_of_loadSource hSource, ih hRest⟩

theorem succeeds_of_loadBody {document : Document} {kind : SourceKind} {mode : Mode} {body : Body}
    (h : loadBody loading document kind mode = .ok body) :
    ∀ reading ∈ bodyReadings loading document kind mode, reading.Succeeds loading.tree := by
  cases mode with
  | constants =>
    rw [loadBody, loadConstants] at h
    split at h
    · cases h
    · next value hData =>
      split at h
      · cases h
      · next hKind =>
        obtain ⟨source, hSource, -⟩ := Checked.bind_eq_ok.mp h
        simp only [bodyReadings, hData, if_neg hKind]
        exact succeeds_of_loadSource hSource
  | values =>
    rw [loadBody, loadVersions] at h
    obtain ⟨defaultVersion, hDefault, h⟩ := Checked.bind_eq_ok.mp h
    obtain ⟨entries, hEntries, h⟩ := Checked.bind_eq_ok.mp h
    split at h
    · cases h
    · next value hLookup =>
      obtain ⟨versions, hVersions, -⟩ := Checked.bind_eq_ok.mp h
      simp only [bodyReadings, hDefault, hEntries, hLookup]
      exact succeeds_of_loadEach hVersions

theorem succeeds_of_loadDefinition {base name : Path} {mode : Mode} {definition : Definition}
    (h : loadDefinition loading (base.join name) mode = .ok definition) :
    ∀ reading ∈ definitionReadings loading base name mode, reading.Succeeds loading.tree := by
  rw [loadDefinition] at h
  obtain ⟨document, hDocument, h⟩ := Checked.bind_eq_ok.mp h
  rw [loadDocument_eq] at h
  obtain ⟨header, hHeader, h⟩ := Checked.bind_eq_ok.mp h
  obtain ⟨body, hBody, -⟩ := Checked.bind_eq_ok.mp h
  simp only [definitionReadings, hDocument, hHeader, List.forall_mem_cons]
  refine ⟨?_, succeeds_of_loadBody hBody⟩
  rw [Document.read] at hDocument
  split at hDocument
  · next text hText => exact ⟨text, hText⟩
  · cases hDocument

end Success

/-- A definition is compiled only if all readings of its compilation succeed. -/
theorem succeeds_of_compileUnit {compiler : Compiler} {tree : Tree} {path : Path} {mode : Mode}
    {unit : RenderedUnit} (h : compiler.compileUnit tree path mode = .ok unit) :
    ∀ reading ∈ compiler.readings tree path mode, reading.Succeeds tree := by
  obtain ⟨generated, hDescribed, -⟩ := Checked.bind_eq_ok.mp h
  obtain ⟨definition, hLoaded, -⟩ := Checked.bind_eq_ok.mp hDescribed
  exact succeeds_of_loadDefinition hLoaded

end ResourceTables
