import ResourceTables.Proofs.Definition.Relocation

/-!
# The visible files of a table directory

What a table directory is loaded as depends on its visible files alone: those that stand right in it
and do not start with a dot, taken in the order of their names. Each is a table named for its stem,
so files that differ in what follows the last dot are in each other's way, and files are in the
order of their names, which need not be that of the stems.

## Main definitions

* `VisibleFiles`: the names of the visible files of a directory, in order.
* `IsStem`: what a file name has in front of its last dot.

## Main results

* `isStem_tableName`: tables are named for the stems of their files.
* `readTables_eq_ok_iff`, `readTables_eq_error_iff`: the loop over the files.
* `readTableDirectory_visible`: what a table directory is loaded as, and what it is refused for.
-/

namespace ResourceTables

open Text

/-- The names of the files that stand right in a directory and do not start with a dot, in order. -/
structure VisibleFiles (tree : Tree) (location : Location) (names : List String) : Prop where
  sorted : names.Pairwise (· < ·)
  mem_iff : ∀ name, name ∈ names ↔ name.toList.head? ≠ some '.' ∧
    ∃ content, tree.entry? (location ++ [name]) = some (.file content)

/-- What stands in front of the last dot of a name, or the name if it has none. -/
inductive IsStem : String → String → Prop where
  | whole {name : String} (h : '.' ∉ name.toList) : IsStem name name
  | front (stem : String) {ending : String} (h : '.' ∉ ending.toList) :
      IsStem stem (stem ++ "." ++ ending)

/-! ## Names -/

/-- A table is named for the stem of its file. -/
theorem isStem_tableName {name : String} (hName : Tree.IsName name)
    (hVisible : name.toList.head? ≠ some '.') : IsStem (tableName name) name := by
  have hFile : Path.fileName? ⟨name⟩ = some name :=
    Path.fileName?_of_notMem hName.noSlash
      (by simp [hName.nonempty, hName.notDot, hName.notStepBack])
  rw [tableName, Path.stem?, hFile, Option.map_some, Option.getD_some, Path.cutExtension?]
  cases hCut : cutAt? '.' name.toList.reverse with
  | none =>
    refine .whole fun hDot => ?_
    exact cutAt?_eq_none_iff.mp hCut (List.mem_reverse.mpr hDot)
  | some parts =>
    obtain ⟨after, before⟩ := parts
    obtain ⟨hReverse, hEnding⟩ := eq_of_cutAt? hCut
    have hText : name.toList = before.reverse ++ '.' :: after.reverse := by
      rw [← List.reverse_reverse name.toList, hReverse]
      simp
    have hBefore : before.isEmpty = false := by
      cases before with
      | nil => exact absurd (by rw [hText]; rfl) hVisible
      | cons c before => rfl
    have hSpelled : name = String.ofList before.reverse ++ "." ++ String.ofList after.reverse := by
      rw [← String.toList_inj, hText]
      simp
    have hStem : IsStem (String.ofList before.reverse)
        (String.ofList before.reverse ++ "." ++ String.ofList after.reverse) :=
      .front _ (by simpa using hEnding)
    simpa [hBefore, ← hSpelled] using hStem

/-- The table files of a directory are its visible files. -/
theorem visibleFiles_tableFiles {tree : Tree} (hDistinct : (tree.entries.map (·.1)).Nodup)
    {directory : Path} {location : Location}
    (hFind : tree.find directory = .ok (location, .directory)) :
    VisibleFiles tree location (tableFiles (tree.children directory)) := by
  have hPerm := tableFiles_perm hFind
  refine ⟨?_, fun name => ?_⟩
  · have hNodup : (tableFiles (tree.children directory)).Nodup :=
      hPerm.nodup_iff.mpr
        ((Tree.nodup_childrenAt hDistinct location).sublist (tableFiles_sublist _))
    exact (sorted_tableFiles tree directory).imp₂ (fun _ _ => Std.lt_of_le_of_ne) hNodup
  · rw [hPerm.mem_iff, mem_tableFiles_iff]
    simp only [Tree.mem_childrenAt_iff hDistinct]

/-- Two directories with the same visible files have them in the same order. -/
theorem VisibleFiles.eq {tree other : Tree} {location place : Location} {names others : List String}
    (h : VisibleFiles tree location names) (hOther : VisibleFiles other place others)
    (hSame : ∀ name, name ∈ others ↔ name ∈ names) : others = names := by
  have hNodup : ∀ {names : List String}, names.Pairwise (· < ·) → names.Nodup :=
    fun hSorted => hSorted.imp fun hLess => Std.ne_of_lt hLess
  refine List.Perm.eq_of_pairwise (fun first second _ _ hLess hGreater => ?_) hOther.sorted h.sorted
    ((List.perm_ext_iff_of_nodup (hNodup hOther.sorted) (hNodup h.sorted)).mpr hSame)
  exact absurd hGreater (String.lt_asymm hLess)

/-! ## The loop over the files -/

section Tables

variable {loading : Loading} {file directory : Path} {seen names : List String}

/-- The table of a file whose name is new comes first. -/
theorem readTables_cons_of_notMem {name : String} (h : tableName name ∉ seen)
    (rest : List String) :
    readTables loading file directory seen (name :: rest) =
      Table.readRecords loading.naming loading.tree (directory.join ⟨name⟩) >>= fun records =>
        readTables loading file directory (tableName name :: seen) rest >>= fun others =>
          .ok ((tableName name, records) :: others) := by
  rw [readTables, if_neg (by simpa using h)]
  rfl

theorem readTables_cons_of_mem {name : String} (h : tableName name ∈ seen) (rest : List String) :
    readTables loading file directory seen (name :: rest) =
      .error (.definition file (.repeatedTable (tableName name) directory)) := by
  rw [readTables, if_pos (by simpa using h)]

/-- Files are read as tables if no two tables have one name and each file can be read. -/
theorem readTables_eq_ok_iff {tables : List (String × Records)} :
    readTables loading file directory seen names = .ok tables ↔
      (names.map tableName).Nodup ∧ (∀ name ∈ names, tableName name ∉ seen) ∧
        List.Forall₂ (fun name table => table.1 = tableName name ∧
          Table.readRecords loading.naming loading.tree (directory.join ⟨name⟩) = .ok table.2)
          names tables := by
  induction names generalizing seen tables with
  | nil => simp [readTables, eq_comm]
  | cons name rest ih =>
    by_cases hSeen : tableName name ∈ seen
    · simp [readTables_cons_of_mem hSeen, hSeen]
    · simp only [readTables_cons_of_notMem hSeen, Checked.bind_eq_ok, ih, List.map_cons,
        List.nodup_cons, List.forall_mem_cons, List.forall₂_cons_left_iff]
      simp only [List.mem_cons, not_or]
      constructor
      · rintro ⟨records, hRecords, others, ⟨hNodup, hNew, hOthers⟩, hEq⟩
        cases hEq
        refine ⟨⟨fun hAgain => ?_, hNodup⟩, ⟨hSeen, fun other hOther => (hNew other hOther).2⟩,
          _, others, ⟨rfl, hRecords⟩, hOthers, rfl⟩
        obtain ⟨other, hOther, hSame⟩ := List.mem_map.mp hAgain
        exact (hNew other hOther).1 hSame
      · rintro ⟨⟨hOnce, hNodup⟩, ⟨-, hNew⟩, ⟨table, records⟩, others, ⟨rfl, hRecords⟩, hOthers, rfl⟩
        refine ⟨records, hRecords, others, ⟨hNodup, fun other hOther => ⟨fun hSame => ?_,
          hNew other hOther⟩, hOthers⟩, rfl⟩
        exact hOnce (List.mem_map.mpr ⟨other, hOther, hSame⟩)

/-- Files that are read leave their tables behind for the files after them. -/
theorem readTables_append {before : List String} {tables : List (String × Records)}
    (h : readTables loading file directory seen before = .ok tables) (rest : List String) :
    readTables loading file directory seen (before ++ rest) =
      readTables loading file directory ((before.map tableName).reverse ++ seen) rest >>=
        fun others => .ok (tables ++ others) := by
  induction before generalizing seen tables with
  | nil =>
    cases h
    exact (bind_pure _).symm
  | cons name before ih =>
    by_cases hSeen : tableName name ∈ seen
    · rw [readTables_cons_of_mem hSeen] at h
      cases h
    · rw [readTables_cons_of_notMem hSeen] at h
      obtain ⟨records, hRecords, h⟩ := Checked.bind_eq_ok.mp h
      obtain ⟨others, hOthers, hEq⟩ := Checked.bind_eq_ok.mp h
      cases hEq
      rw [List.cons_append, readTables_cons_of_notMem hSeen, hRecords]
      simp only [bind, Except.bind, ih hOthers, List.map_cons, List.reverse_cons, List.append_assoc,
        List.singleton_append]
      cases readTables loading file directory _ rest <;> rfl

/-- Files are refused at the first whose table has been there before or that cannot be read. -/
theorem readTables_eq_error_iff {fault : Fault} :
    readTables loading file directory seen names = .error fault ↔
      ∃ before name after, names = before ++ name :: after ∧
        (∃ tables, readTables loading file directory seen before = .ok tables) ∧
        ((tableName name ∈ before.map tableName ++ seen ∧
            fault = .definition file (.repeatedTable (tableName name) directory)) ∨
          (tableName name ∉ before.map tableName ++ seen ∧
            Table.readRecords loading.naming loading.tree (directory.join ⟨name⟩) =
              .error fault)) := by
  constructor
  · intro h
    induction names generalizing seen with
    | nil => cases h
    | cons name rest ih =>
      by_cases hSeen : tableName name ∈ seen
      · rw [readTables_cons_of_mem hSeen] at h
        cases h
        exact ⟨[], name, rest, rfl, ⟨[], rfl⟩, .inl ⟨hSeen, rfl⟩⟩
      · rw [readTables_cons_of_notMem hSeen] at h
        rcases Checked.bind_eq_error.mp h with hRead | ⟨records, hRecords, h⟩
        · exact ⟨[], name, rest, rfl, ⟨[], rfl⟩, .inr ⟨hSeen, hRead⟩⟩
        · rcases Checked.bind_eq_error.mp h with hRest | ⟨others, -, hEq⟩
          · obtain ⟨before, later, after, rfl, ⟨tables, hTables⟩, hLater⟩ := ih hRest
            refine ⟨name :: before, later, after, rfl,
              ⟨(tableName name, records) :: tables, ?_⟩, ?_⟩
            · rw [readTables_cons_of_notMem hSeen, hRecords]
              simp only [bind, Except.bind, hTables]
            · have hOwners : tableName later ∈ before.map tableName ++ tableName name :: seen ↔
                  tableName later ∈ (name :: before).map tableName ++ seen := by
                simp [or_left_comm]
              rwa [hOwners] at hLater
          · cases hEq
  · rintro ⟨before, name, after, rfl, ⟨tables, hTables⟩, hName⟩
    have hOwners : tableName name ∈ (before.map tableName).reverse ++ seen ↔
        tableName name ∈ before.map tableName ++ seen := by
      simp
    rw [← hOwners] at hName
    rw [readTables_append hTables, Checked.bind_eq_error]
    rcases hName with ⟨hAgain, rfl⟩ | ⟨hNew, hRead⟩
    · exact .inl (readTables_cons_of_mem hAgain after)
    · refine .inl ?_
      rw [readTables_cons_of_notMem hNew, hRead]
      rfl

end Tables

/-! ## Directories -/

section Directories

variable {tree other : Tree} {directory : Path} {location : Location} {name : String}

/-- What is read at a file of a directory is the file that stands there. -/
theorem find_join_of_isName (hFind : tree.find directory = .ok (location, .directory))
    (hName : Tree.IsName name) :
    tree.find (directory.join ⟨name⟩) =
      if '\x00' ∈ name.toList then .error .nulInPath
      else match tree.entry? (location ++ [name]) with
        | none => .error .notFound
        | some entry => .ok (location ++ [name], entry) := by
  have hHosts := Tree.hosts_of_find hFind
  have hRelative : Path.isAbsolute ⟨name⟩ = false :=
    (Path.descending_of_notMem hName.noSlash hName.notStepBack).relative
  rw [hHosts.find_join hRelative, Path.pieces_of_notMem hName.noSlash, Tree.arrive, Tree.walk,
    hHosts.directory]
  simp only [hName.nonempty, and_false, if_false, Tree.step_of_isName hName]
  rfl

/-- Two trees with the same visible files in a directory show the same there. -/
theorem readTables_congr_of_visibleFiles {loading : Loading} (hTree : loading.tree.WellFormed)
    {names : List String} (hNames : VisibleFiles loading.tree location names)
    (hFind : loading.tree.find directory = .ok (location, .directory))
    (hOther : other.find directory = .ok (location, .directory))
    (hSame : ∀ name ∈ names,
      other.entry? (location ++ [name]) = loading.tree.entry? (location ++ [name]))
    (file : Path) (seen : List String) :
    readTables { loading with tree := other } file directory seen names =
      readTables loading file directory seen names := by
  refine readTables_congr file fun reading hReading => ?_
  obtain ⟨name, hName, rfl⟩ := exists_of_mem_tableReadings hReading
  obtain ⟨-, content, hContent⟩ := (hNames.mem_iff name).mp hName
  have hIsName : Tree.IsName name := hTree.name (by rw [hContent]; exact Option.some_ne_none _)
  refine Tree.readText_congr ?_
  rw [find_join_of_isName hOther hIsName, find_join_of_isName hFind hIsName, hSame name hName]

end Directories

/-- The records of a file of a directory. -/
def Loading.tableIn (loading : Loading) (directory : Path) (name : String) : Checked Records :=
  Table.readRecords loading.naming loading.tree (directory.join ⟨name⟩)

/-- How files of a directory are loaded as tables: if no two have one stem and each can be read,
then in their order and each under its stem; otherwise the first is reported that repeats a stem or
cannot be read. -/
structure LoadsTables (loading : Loading) (file directory : Path) (names : List String) :
    Prop where
  accepted : (∃ tables, readTableDirectory loading file directory = .ok tables) ↔
    (names.map tableName).Nodup ∧ ∀ name ∈ names, ∃ records, loading.tableIn directory name =
      .ok records
  loaded : ∀ tables, readTableDirectory loading file directory = .ok tables →
    List.Forall₂ (fun name table => table.1 = tableName name ∧
      loading.tableIn directory name = .ok table.2) names tables
  refused : ∀ fault, readTableDirectory loading file directory = .error fault ↔
    ∃ before name after, names = before ++ name :: after ∧ (before.map tableName).Nodup ∧
      (∀ earlier ∈ before, ∃ records, loading.tableIn directory earlier = .ok records) ∧
      ((tableName name ∈ before.map tableName ∧
          fault = .definition file (.repeatedTable (tableName name) directory)) ∨
        (tableName name ∉ before.map tableName ∧ loading.tableIn directory name = .error fault))

section Loading

variable {loading : Loading} {file directory : Path} {names : List String}

/-- Tables come about from the first files on exactly if their stems differ and each can be read. -/
theorem readTables_isOk_iff :
    (∃ tables, readTables loading file directory [] names = .ok tables) ↔
      (names.map tableName).Nodup ∧
        ∀ name ∈ names, ∃ records, loading.tableIn directory name = .ok records := by
  simp only [readTables_eq_ok_iff, List.not_mem_nil, not_false_eq_true, implies_true, true_and,
    exists_and_left, Checked.exists_forall₂_iff, Prod.exists, Loading.tableIn, exists_eq_left]

theorem loadsTables_of_eq
    (hDirectory : readTableDirectory loading file directory =
      readTables loading file directory [] names) : LoadsTables loading file directory names where
  accepted := by
    rw [hDirectory]
    exact readTables_isOk_iff
  loaded tables hTables := by
    rw [hDirectory, readTables_eq_ok_iff] at hTables
    exact hTables.2.2
  refused fault := by
    simp only [hDirectory, readTables_eq_error_iff, readTables_isOk_iff, List.append_nil,
      Loading.tableIn, and_assoc]

/-- A directory that is there is loaded as the tables in its visible files, each named for the stem
of its file. Nothing else in it matters: it is loaded alike in every tree where it has the same
visible files with the same contents, whatever directories and hidden files stand beside them. -/
theorem readTableDirectory_visible {location : Location} (hTree : loading.tree.WellFormed)
    (hDistinct : (loading.tree.entries.map (·.1)).Nodup)
    (hFind : loading.tree.find directory = .ok (location, .directory)) (file : Path) :
    ∃ names, VisibleFiles loading.tree location names ∧
      (∀ name ∈ names, IsStem (tableName name) name) ∧
      LoadsTables loading file directory names ∧
      ∀ other : Tree, (other.entries.map (·.1)).Nodup →
        other.find directory = .ok (location, .directory) →
        (∀ name content, name.toList.head? ≠ some '.' →
          (other.entry? (location ++ [name]) = some (.file content) ↔
            loading.tree.entry? (location ++ [name]) = some (.file content))) →
        readTableDirectory { loading with tree := other } file directory =
          readTableDirectory loading file directory := by
  have hNames := visibleFiles_tableFiles hDistinct hFind
  have hThere : ∀ {tree : Tree}, tree.find directory = .ok (location, .directory) →
      tree.isDirectory directory = true := by
    intro tree h
    rw [Tree.isDirectory, h]
  have hLoad : readTableDirectory loading file directory = readTables loading file directory []
      (tableFiles (loading.tree.children directory)) := by
    rw [readTableDirectory, if_pos (hThere hFind)]
  refine ⟨_, hNames, ?_, loadsTables_of_eq hLoad, ?_⟩
  · intro name hName
    obtain ⟨hVisible, content, hContent⟩ := (hNames.mem_iff name).mp hName
    exact isStem_tableName (hTree.name (by rw [hContent]; exact Option.some_ne_none _)) hVisible
  · intro other hOtherDistinct hOther hSame
    have hOtherNames := visibleFiles_tableFiles hOtherDistinct hOther
    have hFiles : tableFiles (other.children directory) =
        tableFiles (loading.tree.children directory) := by
      refine hNames.eq hOtherNames fun name => ?_
      rw [hNames.mem_iff, hOtherNames.mem_iff]
      exact and_congr_right fun hVisible => exists_congr fun content => hSame name content hVisible
    have hContents : ∀ name ∈ tableFiles (loading.tree.children directory),
        other.entry? (location ++ [name]) = loading.tree.entry? (location ++ [name]) := by
      intro name hName
      obtain ⟨hVisible, content, hContent⟩ := (hNames.mem_iff name).mp hName
      rw [hContent, hSame name content hVisible]
      exact hContent
    rw [hLoad, readTableDirectory, if_pos (hThere hOther), hFiles]
    exact readTables_congr_of_visibleFiles hTree hNames hFind hOther hContents file []

end Loading

/-- Pages in files whose names are not in the order of their stems. -/
def pagesLoading : Loading where
  naming := {}
  namespaceRoot := []
  tree :=
    { entries :=
        [(["pages"], .directory),
          (["pages", "home.csv"], .file (.text "title,Home\n")),
          (["pages", "home-page.csv"], .file (.text "title,Page\n"))] }

/-- The pages with a hidden file and a directory beside them. -/
def clutteredPages : Tree where
  entries :=
    (["pages", ".home.csv"], .file (.bytes [255])) :: (["pages", "about.csv"], .directory) ::
      (["pages", "about.csv", "home.csv"], .file (.text "none")) :: pagesLoading.tree.entries

theorem tablesAt_pages : TablesAt pagesLoading.naming.separator pagesLoading.tree ⟨"pages"⟩
    [("home-page", [("title", "Page")]), ("home", [("title", "Home")])] where
  isDirectory := rfl
  files := by
    have hPlace : pagesLoading.tree.find ⟨"pages"⟩ = .ok (["pages"], .directory) := rfl
    exact (tableFiles_perm hPlace).trans (by decide +kernel)
  sorted := by decide +kernel
  unique := by decide +kernel
  stems := by decide +kernel
  listed := by
    have hHome : "title,Home\n".toList = Table.listing ',' [("title", "Home")] := rfl
    have hPage : "title,Page\n".toList = Table.listing ',' [("title", "Page")] := rfl
    exact List.forall_mem_cons.mpr ⟨Table.listedAt_of_listing (by decide +kernel) rfl hPage,
      List.forall_mem_singleton.mpr (Table.listedAt_of_listing (by decide +kernel) rfl hHome)⟩

/-- The pages are loaded in the order of the files, also from the directory with clutter. -/
theorem readTableDirectory_visible_pages :
    ∃ names, VisibleFiles pagesLoading.tree ["pages"] names ∧
      (∀ name ∈ names, IsStem (tableName name) name) ∧
      LoadsTables pagesLoading ⟨"site.toml"⟩ ⟨"pages"⟩ names ∧
      readTableDirectory { pagesLoading with tree := clutteredPages } ⟨"site.toml"⟩ ⟨"pages"⟩ =
        .ok [("home-page", [("title", "Page")]), ("home", [("title", "Home")])] := by
  have hFind : pagesLoading.tree.find ⟨"pages"⟩ = .ok (["pages"], .directory) := rfl
  obtain ⟨names, hNames, hStems, hLoads, hClutter⟩ :=
    readTableDirectory_visible (by decide +kernel) (by decide +kernel) hFind ⟨"site.toml"⟩
  have hSame := hClutter clutteredPages (by decide +kernel) rfl fun name content hVisible => ?_
  · exact ⟨names, hNames, hStems, hLoads,
      hSame.trans (tablesAt_pages.readTableDirectory (by decide) ⟨"site.toml"⟩)⟩
  · have hHidden : (name == ".home.csv") = false := by
      rw [beq_eq_false_iff_ne]
      rintro rfl
      exact hVisible rfl
    by_cases hAbout : name = "about.csv"
    · subst hAbout
      simp [Tree.entry?, clutteredPages, pagesLoading, List.lookup_cons]
    · have hOther : (name == "about.csv") = false := beq_false_of_ne hAbout
      simp [Tree.entry?, clutteredPages, pagesLoading, List.lookup_cons, hHidden, hOther]

end ResourceTables
