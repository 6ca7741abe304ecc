import ResourceTables.Proofs.Definition.Interference
import ResourceTables.Proofs.Definition.TableDirectory
import ResourceTables.Proofs.Tree.Relocation

/-!
# Definitions in another place

A definition is loaded from its file and from what the file names relative to its own directory. If
two directories hold the same at all places that these paths lead over, then a definition file in
one and its copy in the other are loaded to the same definition, but for the file that it names as
its source, or both are refused with faults that tell the same.

One case is left out. Nothing is joined to nothing: where the directory of a definition is written
as the empty path, an empty path in the definition is no directory, and elsewhere it is the
directory of the definition.

## Main definitions

* `Reading.StaysInside`: a look at a tree that does not leave a directory.
* `Reading.NamesNothing`: a look at a directory that is named by the empty path.
* `Reading.Follows`: a look at the data of a definition that shows the same in another place.

## Main results

* `Mirrors.tableFiles_eq`: two directories that hold the same show the same table files.
* `alike_loadDefinition`: a definition and its copy in another place are loaded alike.
-/

namespace ResourceTables

/-! ## Table files in another place -/

/-- Two directories that hold the same at all places right below show the same table files. -/
theorem Tree.Mirrors.tableFiles_eq {kept : Location → Prop} {tree other : Tree}
    {root otherRoot target : Location} (h : Tree.Mirrors kept tree root other otherRoot)
    (hDistinct : (tree.entries.map (·.1)).Nodup) (hOtherDistinct : (other.entries.map (·.1)).Nodup)
    {directory otherDirectory : Path}
    (hFind : tree.find directory = .ok (root ++ target, .directory))
    (hOtherFind : other.find otherDirectory = .ok (otherRoot ++ target, .directory))
    (hChildren : ∀ child, kept (target ++ [child])) :
    tableFiles (other.children otherDirectory) = tableFiles (tree.children directory) := by
  have hNodup : ∀ {tree : Tree}, (tree.entries.map (·.1)).Nodup → ∀ location,
      (tableFiles (tree.childrenAt location)).Nodup := fun hDistinct location =>
    (Tree.nodup_childrenAt hDistinct location).sublist (tableFiles_sublist _)
  have hSame : (tableFiles (other.childrenAt (otherRoot ++ target))).Perm
      (tableFiles (tree.childrenAt (root ++ target))) := by
    refine (List.perm_ext_iff_of_nodup (hNodup hOtherDistinct _) (hNodup hDistinct _)).mpr ?_
    intro name
    simp only [mem_tableFiles_iff, Tree.mem_childrenAt_iff hDistinct,
      Tree.mem_childrenAt_iff hOtherDistinct, List.append_assoc, h _ (hChildren name)]
  refine List.Perm.eq_of_pairwise (fun _ _ _ _ => String.le_antisymm) (sorted_tableFiles _ _)
    (sorted_tableFiles _ _) ?_
  exact (tableFiles_perm hOtherFind).trans (hSame.trans (tableFiles_perm hFind).symm)

/-! ## Looks that do not leave a directory -/

/-- A look at a tree does not leave a directory, and kept is all that it leads over and all that
shows. -/
def Reading.StaysInside (tree : Tree) (root : Location) (kept : Location → Prop) : Reading → Prop
  | .file base name => ∃ target, tree.LeadsInside root kept base name target
  | .directory base name => ∃ target, tree.LeadsInside root kept base name target ∧
      ∀ child, kept (target ++ [child])
  | .table _ _ => True

/-- A look at a directory that is named by the empty path. -/
def Reading.NamesNothing : Reading → Prop
  | .directory _ name => name.text = ""
  | _ => False

/-! ## Values of a document in another file -/

section Values

variable (file otherFile : Path)

theorem alike_expectMap (field : String) (value : Value) :
    Checked.Alike Eq (expectMap file field value) (expectMap otherFile field value) := by
  cases value with
  | map entries => exact .ok rfl
  | _ => exact .error ⟨rfl, rfl, rfl, rfl⟩

theorem alike_expectPath (field : String) (value : Value) :
    Checked.Alike Eq (expectPath file field value) (expectPath otherFile field value) := by
  cases value with
  | string text => exact .ok rfl
  | _ => exact .error ⟨rfl, rfl, rfl, rfl⟩

theorem alike_flatRecords (field : String) (entries : List (String × Value)) :
    Checked.Alike Eq (flatRecords file field entries) (flatRecords otherFile field entries) := by
  induction entries with
  | nil => exact .ok rfl
  | cons entry rest ih =>
    obtain ⟨key, value⟩ := entry
    rw [flatRecords, flatRecords]
    cases scalarText? value with
    | none => exact .error ⟨rfl, rfl, rfl, rfl⟩
    | some text =>
      exact ih.bind_same fun _ _ _ => .ok rfl

theorem alike_groupedRecords (field : String) (entries : List (String × Value)) :
    Checked.Alike Eq (groupedRecords file field entries)
      (groupedRecords otherFile field entries) := by
  induction entries with
  | nil => exact .ok rfl
  | cons entry rest ih =>
    obtain ⟨table, value⟩ := entry
    rw [groupedRecords, groupedRecords]
    refine (alike_expectMap file otherFile _ value).bind_same fun own _ _ => ?_
    refine (alike_flatRecords file otherFile _ own).bind_same fun records _ _ => ?_
    exact ih.bind_same fun _ _ _ => .ok rfl

/-- A path in a document is taken relative to the directory of the file. -/
theorem alike_dataPath (field : String) (value : Value) :
    Checked.Alike
      (fun path other => ∃ name, expectPath file field value = .ok name ∧
        path = (directoryOf file).join name ∧ other = (directoryOf otherFile).join name)
      (dataPath file field value) (dataPath otherFile field value) :=
  (alike_expectPath file otherFile field value).bind fun name _ hName _ hSame =>
    .ok ⟨name, hName, rfl, by rw [hSame]⟩

end Values

/-! ## Entries of a document in another file -/

section Documents

variable (document : Document) (otherFile : Path)

theorem alike_text? (field : String) :
    Checked.Alike Eq (document.text? field)
      (Document.text? { document with file := otherFile } field) := by
  have hEntry : Document.get? { document with file := otherFile } field = document.get? field := rfl
  rw [Document.text?, Document.text?, hEntry]
  rcases document.get? field with - | value
  · exact .ok rfl
  · cases value with
    | null => exact .ok rfl
    | string text => exact .ok rfl
    | _ => exact .error ⟨rfl, rfl, rfl, rfl⟩

theorem alike_requireText (field : String) :
    Checked.Alike Eq (document.requireText field)
      (Document.requireText { document with file := otherFile } field) := by
  rw [Document.requireText, Document.requireText]
  refine (alike_text? document otherFile field).bind_same fun text? _ _ => ?_
  cases text? with
  | none => exact .error ⟨rfl, rfl, rfl, rfl⟩
  | some text => exact .ok rfl

theorem alike_requireMap (field : String) :
    Checked.Alike Eq (document.requireMap field)
      (Document.requireMap { document with file := otherFile } field) := by
  have hEntry : Document.get? { document with file := otherFile } field = document.get? field := rfl
  rw [Document.requireMap, Document.requireMap, hEntry]
  rcases document.get? field with - | value
  · exact .error ⟨rfl, rfl, rfl, rfl⟩
  · cases value with
    | map entries => exact .ok rfl
    | _ => exact .error ⟨rfl, rfl, rfl, rfl⟩

/-- A definition but for its data is the same in another file, but for the source. -/
theorem alike_loadHeader (namespaceRoot : List String) :
    Checked.Alike
      (fun header other => other.1 = header.1 ∧
        ∀ body, other.2 body = { header.2 body with source := otherFile })
      (loadHeader namespaceRoot document)
      (loadHeader namespaceRoot { document with file := otherFile }) := by
  rw [loadHeader, loadHeader]
  refine (alike_requireText document otherFile "class").bind_same fun className _ _ => ?_
  by_cases hBlank : (Text.trim className.toList).isEmpty = true
  · rw [if_pos hBlank, if_pos hBlank]
    exact .error ⟨rfl, rfl, rfl, rfl⟩
  · rw [if_neg hBlank, if_neg hBlank]
    refine (alike_requireText document otherFile "type").bind_same fun kindName _ _ => ?_
    cases SourceKind.ofName? kindName with
    | none => exact .error ⟨rfl, rfl, rfl, rfl⟩
    | some kind =>
      refine (alike_text? document otherFile _).bind_same fun added _ _ => ?_
      refine (alike_text? document otherFile _).bind_same fun versionPrefix _ _ => ?_
      exact .ok ⟨rfl, fun _ => rfl⟩

end Documents

/-! ## Data in another place -/

/-- Two texts are the same, or there is none twice. -/
theorem exists_of_toOption_eq {text other : Except TreeFault String}
    (h : other.toOption = text.toOption) :
    (∃ content, text = .ok content ∧ other = .ok content) ∨
      (∃ fault, text = .error fault) ∧ ∃ fault, other = .error fault := by
  cases text with
  | ok content =>
    cases other with
    | ok same => exact .inl ⟨content, rfl, by rw [Option.some.inj h]⟩
    | error fault => cases h
  | error fault =>
    cases other with
    | ok content => cases h
    | error again => exact .inr ⟨⟨fault, rfl⟩, again, rfl⟩

theorem alike_read {α : Type} (parse : String → Except Nat α) {tree other : Tree}
    {file otherFile : Path}
    (h : (other.readText otherFile).toOption = (tree.readText file).toOption) :
    Checked.Alike Eq (Table.read parse tree file) (Table.read parse other otherFile) := by
  rw [Table.read, Table.read]
  rcases exists_of_toOption_eq h with ⟨content, hText, hOther⟩ | ⟨⟨fault, hText⟩, again, hOther⟩
  · rw [hText, hOther]
    dsimp only
    cases parse content with
    | ok table => exact .ok rfl
    | error line => exact .error ⟨rfl, rfl, rfl, rfl⟩
  · rw [hText, hOther]
    exact .error ⟨rfl, rfl, rfl, rfl⟩

/-- A look at the data of a definition follows it to another place. An empty path does so only if
the directory of the definition is written as the empty path in both places, or in none. -/
structure Reading.Follows (tree : Tree) (root : Location) (kept : Location → Prop)
    (file otherFile : Path) (reading : Reading) : Prop where
  inside : reading.StaysInside tree root kept
  named : reading.NamesNothing → ((directoryOf file).text = "" ↔ (directoryOf otherFile).text = "")

section Data

variable {kept : Location → Prop} {loading : Loading} {other : Tree}
  {root otherRoot place : Location} {file otherFile : Path}

theorem alike_readTables {directory otherDirectory : Path} {fileNames : List String}
    (hText : ∀ fileName ∈ fileNames, (other.readText (otherDirectory.join ⟨fileName⟩)).toOption =
      (loading.tree.readText (directory.join ⟨fileName⟩)).toOption)
    (file otherFile : Path) (seen : List String) :
    Checked.Alike Eq (readTables loading file directory seen fileNames)
      (readTables { loading with tree := other } otherFile otherDirectory seen fileNames) := by
  induction fileNames generalizing seen with
  | nil => exact .ok rfl
  | cons fileName rest ih =>
    obtain ⟨hOwn, hRest⟩ := List.forall_mem_cons.mp hText
    simp only [readTables]
    split
    · exact .error ⟨rfl, rfl, rfl, rfl⟩
    · refine (alike_read _ hOwn).bind_same fun records _ _ => ?_
      exact (ih hRest _).bind_same fun _ _ _ => .ok rfl

section Source

variable (h : Tree.Relocated kept loading.tree root other otherRoot (directoryOf file)
  (directoryOf otherFile) place)
include h

/-- The tables in a directory are the same, if the files in it are kept. -/
theorem alike_readTableDirectory {name : Path} {target : Location}
    (hName : loading.tree.LeadsInside root kept (directoryOf file) name target)
    (hChildren : ∀ child, kept (target ++ [child]))
    (hEmpty : name.text = "" →
      ((directoryOf file).text = "" ↔ (directoryOf otherFile).text = "")) :
    Checked.Alike Eq (readTableDirectory loading file ((directoryOf file).join name))
      (readTableDirectory { loading with tree := other } otherFile
        ((directoryOf otherFile).join name)) := by
  have hLeads := h.leads hName
  rw [readTableDirectory, readTableDirectory]
  rcases h.mirrors.find_eq_or h.hosts h.otherHosts hName.relative hLeads hEmpty with
    ⟨hFind, hOtherFind⟩ | ⟨hNone, hOtherNone⟩
  · have hTables : Tree.Relocated kept loading.tree root other otherRoot
        ((directoryOf file).join name) ((directoryOf otherFile).join name) target :=
      { h with
        hosts := Tree.hosts_of_find hFind
        otherHosts := Tree.hosts_of_find hOtherFind }
    have hFiles := h.mirrors.tableFiles_eq h.distinct h.otherDistinct hFind hOtherFind hChildren
    have hDirectory : loading.tree.isDirectory ((directoryOf file).join name) = true := by
      rw [Tree.isDirectory, hFind]
    have hOtherDirectory : other.isDirectory ((directoryOf otherFile).join name) = true := by
      rw [Tree.isDirectory, hOtherFind]
    simp only [hDirectory, hOtherDirectory, hFiles, if_true]
    refine alike_readTables (fun fileName hFile => ?_) file otherFile []
    obtain ⟨-, hIsName⟩ := isName_of_mem_tableFiles h.wellFormed hFile
    exact hTables.readText_eq (Tree.leadsInside_of_isName hIsName hTables.hosts.locate_eq
      hLeads.kept_target (hChildren fileName))
  · simp only [hNone, hOtherNone]
    exact .error ⟨rfl, rfl, rfl, rfl⟩

theorem alike_loadSource {field : String} {kind : SourceKind} {grouped : Bool} {value : Value}
    (hReadings : ∀ reading ∈ sourceReadings loading file field kind value,
      reading.Follows loading.tree root kept file otherFile) :
    Checked.Alike Eq (loadSource loading file field kind grouped value)
      (loadSource { loading with tree := other } otherFile field kind grouped value) := by
  cases kind with
  | inline =>
    refine (alike_expectMap file otherFile field value).bind_same fun entries _ _ => ?_
    cases grouped with
    | true =>
      exact (alike_groupedRecords file otherFile field entries).bind_same fun _ _ _ => .ok rfl
    | false =>
      exact (alike_flatRecords file otherFile field entries).bind_same fun _ _ _ => .ok rfl
  | flatList =>
    refine (alike_dataPath file otherFile field value).bind ?_
    rintro _ _ - - ⟨name, hName, rfl, rfl⟩
    simp only [sourceReadings, hName, List.forall_mem_singleton] at hReadings
    obtain ⟨target, hInside⟩ := hReadings.inside
    exact (alike_read _ (h.readText_eq hInside)).bind_same fun _ _ _ => .ok rfl
  | keyedTable =>
    refine (alike_dataPath file otherFile field value).bind ?_
    rintro _ _ - - ⟨name, hName, rfl, rfl⟩
    simp only [sourceReadings, hName, List.forall_mem_singleton] at hReadings
    obtain ⟨target, hInside⟩ := hReadings.inside
    exact (alike_read _ (h.readText_eq hInside)).bind_same fun _ _ _ => .ok rfl
  | tableDirectory =>
    refine (alike_dataPath file otherFile field value).bind ?_
    rintro _ _ - - ⟨name, hName, rfl, rfl⟩
    simp only [sourceReadings, hName, List.forall_mem_cons] at hReadings
    obtain ⟨target, hInside, hChildren⟩ := hReadings.1.inside
    exact (alike_readTableDirectory h hInside hChildren hReadings.1.named).bind_same
      fun _ _ _ => .ok rfl

theorem alike_loadEach {kind : SourceKind} {grouped : Bool} {entries : List (String × Value)}
    (hReadings : ∀ reading ∈ eachReadings loading file kind grouped entries,
      reading.Follows loading.tree root kept file otherFile) :
    Checked.Alike Eq (loadEach loading file kind grouped entries)
      (loadEach { loading with tree := other } otherFile kind grouped entries) := by
  induction entries with
  | nil => exact .ok rfl
  | cons entry rest ih =>
    obtain ⟨name, value⟩ := entry
    rw [eachReadings, List.forall_mem_append] at hReadings
    rw [loadEach, loadEach]
    refine (alike_loadSource h hReadings.1).bind_same fun source hSource _ => ?_
    rw [hSource, readingsAfter_ok] at hReadings
    exact (ih hReadings.2).bind_same fun _ _ _ => .ok rfl

end Source

theorem alike_loadBody {document : Document}
    (h : Tree.Relocated kept loading.tree root other otherRoot (directoryOf document.file)
      (directoryOf otherFile) place)
    {kind : SourceKind} {mode : Mode}
    (hReadings : ∀ reading ∈ bodyReadings loading document kind mode,
      reading.Follows loading.tree root kept document.file otherFile) :
    Checked.Alike Eq (loadBody loading document kind mode)
      (loadBody { loading with tree := other } { document with file := otherFile } kind mode) := by
  have hEntry : ∀ field,
      Document.get? { document with file := otherFile } field = document.get? field := fun _ => rfl
  -- Both documents have the same entries, so the same branch is taken, with alike readings.
  cases mode with
  | constants =>
    rw [loadBody, loadBody, loadConstants, loadConstants, hEntry]
    cases hData : document.get? "data" with
    | none => exact .error ⟨rfl, rfl, rfl, rfl⟩
    | some value =>
      simp only [bodyReadings, hData] at hReadings
      dsimp only
      by_cases hKind : kind = .tableDirectory
      · rw [if_pos hKind, if_pos hKind]
        exact .error ⟨rfl, rfl, rfl, rfl⟩
      · rw [if_neg hKind] at hReadings
        rw [if_neg hKind, if_neg hKind]
        exact (alike_loadSource h hReadings).bind_same fun _ _ _ => .ok rfl
  | values =>
    rw [loadBody, loadBody, loadVersions, loadVersions]
    refine (alike_requireText document otherFile _).bind_same fun name hName _ => ?_
    refine (alike_requireMap document otherFile _).bind_same fun entries hEntries _ => ?_
    simp only [bodyReadings, hName, hEntries] at hReadings
    cases hLookup : entries.lookup name with
    | none => exact .error ⟨rfl, rfl, rfl, rfl⟩
    | some value =>
      simp only [hLookup] at hReadings
      exact (alike_loadEach h hReadings).bind_same fun _ _ _ => .ok rfl

end Data

/-! ## Definitions in another place -/

theorem Format.ofPath_congr {path other : Path} (h : other.fileName? = path.fileName?) :
    Format.ofPath other = Format.ofPath path := by
  rw [ofPath, ofPath, Path.extension?, Path.extension?, h]

theorem directoryOf_eq {path parent : Path} (h : path.parent? = some parent) :
    directoryOf path = parent := by
  rw [directoryOf, h, Option.getD_some]

/-- A file that is joined to a directory is in a directory that is written as the empty path exactly
if both parts are. -/
theorem text_directoryOf_join_eq_empty_iff {base path : Path} (hPath : path.isAbsolute = false)
    {last : String} (hLast : path.pieces.getLast? = some last) (hIdle : ¬Path.Idle last) :
    (directoryOf (base.join path)).text = "" ↔ base.text = "" ∧ (directoryOf path).text = "" := by
  by_cases hBase : base.text = ""
  · rw [Path.join_of_text_eq_empty hBase]
    exact (and_iff_right hBase).symm
  · refine iff_of_false ?_ fun hBoth => hBase hBoth.1
    have hPieces := Path.pieces_join hPath base
    cases hParent : (base.join path).parent? with
    | none =>
      refine absurd (Path.idle_of_parent?_eq_none hParent last ?_) hIdle
      rw [hPieces]
      exact List.mem_append_right _ (List.mem_of_getLast? hLast)
    | some parent =>
      rw [directoryOf_eq hParent]
      exact Path.text_ne_empty_of_parent?_join hPath hBase hLast hIdle hParent

section Definitions

variable {kept : Location → Prop} {root otherRoot place target : Location}
  {base otherBase path : Path}

/-- A definition file that can be read and its copy have one name, and data is looked up from the
same place. The directories of both are written as the empty path, or none, if so are the base
directories, or if the path of the file has a directory of its own. -/
theorem relocated_directoryOf {tree other : Tree}
    (h : Tree.Relocated kept tree root other otherRoot base otherBase place)
    (hName : tree.LeadsInside root kept base path target) {text : String}
    (hText : tree.readText (base.join path) = .ok text)
    (hOther : other.readText (otherBase.join path) = .ok text) :
    (∃ middle, Tree.Relocated kept tree root other otherRoot (directoryOf (base.join path))
      (directoryOf (otherBase.join path)) middle) ∧
    (∃ name, (base.join path).fileName? = some name ∧
      (otherBase.join path).fileName? = some name) ∧
    ((base.text = "" ↔ otherBase.text = "") ∨ (directoryOf path).text ≠ "" →
      ((directoryOf (base.join path)).text = "" ↔
        (directoryOf (otherBase.join path)).text = "")) := by
  have hJoin : ∀ base : Path, (base.join path).pieces = base.trunk ++ path.pieces :=
    Path.pieces_join hName.relative
  have hEnd : ∀ base : Path, (base.join path).pieces.getLast? = path.pieces.getLast? := by
    intro base
    rw [hJoin, List.getLast?_append_of_ne_nil _ path.pieces_ne_nil]
  -- A text is read at a path whose last piece is a name, and this piece is that of the joined path.
  obtain ⟨_, last, hPieces, hIdle, hBack⟩ :=
    h.wellFormed.exists_last_of_find (Tree.readText_eq_ok_iff.mp hText)
  have hLast : path.pieces.getLast? = some last := by
    rw [← hEnd base, hPieces, List.getLast?_concat]
  obtain ⟨front, hFront⟩ := List.getLast?_eq_some_iff.mp hLast
  have hParent : ∀ base : Path, ∃ parent, (base.join path).parent? = some parent := by
    intro base
    refine Option.ne_none_iff_exists'.mp fun hNone => hIdle ?_
    exact Path.idle_of_parent?_eq_none hNone last (List.mem_of_getLast? ((hEnd base).trans hLast))
  obtain ⟨parent, hOwn⟩ := hParent base
  obtain ⟨otherParent, hOtherOwn⟩ := hParent otherBase
  refine ⟨?_, ⟨last, ?_, ?_⟩, fun hNamed => ?_⟩
  · rw [directoryOf_eq hOwn, directoryOf_eq hOtherOwn]
    exact h.parent? hName hFront hIdle hText hOther hOwn hOtherOwn
  · exact Path.fileName?_of_getLast? ((hEnd base).trans hLast) hIdle hBack
  · exact Path.fileName?_of_getLast? ((hEnd otherBase).trans hLast) hIdle hBack
  · rw [text_directoryOf_join_eq_empty_iff hName.relative hLast hIdle,
      text_directoryOf_join_eq_empty_iff hName.relative hLast hIdle]
    rcases hNamed with hBases | hDirectory
    · rw [hBases]
    · exact iff_of_false (fun hBoth => hDirectory hBoth.2) fun hBoth => hDirectory hBoth.2

/-- A document and its copy have the same entries. -/
theorem alike_readDocument {tree other : Tree}
    (h : Tree.Relocated kept tree root other otherRoot base otherBase place)
    (hName : tree.LeadsInside root kept base path target) :
    Checked.Alike (fun document copy => copy = { document with file := otherBase.join path })
      (Document.read tree (base.join path)) (Document.read other (otherBase.join path)) := by
  rw [Document.read, Document.read]
  rcases exists_of_toOption_eq (h.readText_eq hName) with
    ⟨text, hText, hOther⟩ | ⟨⟨fault, hText⟩, again, hOther⟩
  · obtain ⟨-, ⟨name, hFile, hOtherFile⟩, -⟩ := relocated_directoryOf h hName hText hOther
    rw [hText, hOther]
    dsimp only
    rw [Document.decode, Document.decode, Format.ofPath_congr (hOtherFile.trans hFile.symm)]
    rcases (Format.ofPath (base.join path)).value? text with - | value
    · exact .error ⟨rfl, rfl, rfl, rfl⟩
    · cases value with
      | map entries => exact .ok rfl
      | _ => exact .error ⟨rfl, rfl, rfl, rfl⟩
  · rw [hText, hOther]
    exact .error ⟨rfl, rfl, rfl, rfl⟩

/-- A definition and its copy in another place are loaded to the same definition, but for the source
file, which has the same name; or both are refused with faults that tell the same. -/
theorem alike_loadDefinition {loading : Loading} {other : Tree} {mode : Mode}
    (h : Tree.Relocated kept loading.tree root other otherRoot base otherBase place)
    (hInside : ∀ reading ∈ definitionReadings loading base path mode,
      reading.StaysInside loading.tree root kept)
    (hNamed : ((base.text = "" ↔ otherBase.text = "") ∨ (directoryOf path).text ≠ "") ∨
      ∀ reading ∈ definitionReadings loading base path mode, ¬reading.NamesNothing) :
    Checked.Alike
      (fun definition copy => copy = { definition with source := otherBase.join path } ∧
        (otherBase.join path).fileName? = definition.source.fileName? ∧
        definition.source.fileName? ≠ none)
      (loadDefinition loading (base.join path) mode)
      (loadDefinition { loading with tree := other } (otherBase.join path) mode) := by
  rw [definitionReadings, List.forall_mem_cons] at hInside
  obtain ⟨⟨target, hName⟩, hRest⟩ := hInside
  rw [loadDefinition, loadDefinition]
  refine (alike_readDocument h hName).bind fun document copy hRead hCopy hSame => ?_
  subst hSame
  obtain ⟨hFile, text, hText⟩ := file_of_read hRead
  -- Both documents are read from one text, so the file names and the directories correspond.
  have hOther : other.readText (otherBase.join path) = .ok text := by
    obtain ⟨-, again, hAgain⟩ := file_of_read hCopy
    have hTexts := h.readText_eq hName
    rw [hText, hAgain] at hTexts
    rw [hAgain, Option.some.inj hTexts]
  obtain ⟨⟨middle, hMiddle⟩, ⟨name, hFileName, hOtherName⟩, hDirectories⟩ :=
    relocated_directoryOf h hName hText hOther
  rw [← hFile] at hMiddle hFileName hDirectories
  rw [loadDocument_eq, loadDocument_eq]
  refine (alike_loadHeader document (otherBase.join path) _).bind ?_
  rintro header otherHeader hHeader - ⟨hKind, hBodies⟩
  simp only [definitionReadings, hRead, hHeader] at hRest hNamed
  rw [hKind]
  refine (alike_loadBody hMiddle fun reading hReading => ⟨hRest reading hReading, ?_⟩).bind ?_
  · intro hNothing
    refine hDirectories (hNamed.resolve_right fun hNone => ?_)
    exact hNone reading (List.mem_cons_of_mem _ hReading) hNothing
  · rintro body _ - - rfl
    obtain ⟨hSource, -⟩ := source_and_body_of_loadHeader hHeader body
    refine .ok ⟨hBodies body, ?_, ?_⟩
    · rw [hSource, hFileName, hOtherName]
    · rw [hSource, hFileName]
      simp

end Definitions

end ResourceTables
