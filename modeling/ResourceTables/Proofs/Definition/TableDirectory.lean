import ResourceTables.Definition.Loading
import ResourceTables.Proofs.Path.Stems
import ResourceTables.Proofs.Table.Listing
import ResourceTables.Proofs.Tree.Children

/-!
# Tables in a directory

Tables are written down as the files of a directory, one for each, named for the table. If the
tables are listed in the order of the names of the files, then the tables that are read from the
directory are the tables again.

## Main definitions

* `IsTableStem`: a name that a table file can be named for.
* `TablesAt`: a directory that lists tables.

## Main results

* `sorted_tableFiles`: the table files of a directory come in the order of their names.
* `TablesAt.readTableDirectory`: a directory that lists tables is read as these tables.
-/

namespace ResourceTables

open Text

/-- The name of the file of a table. -/
def tableFileName (table : String) : String :=
  table ++ ".csv"

/-- A name that a table file can be named for: it is one piece of a path, and the file is not
hidden. -/
@[mk_iff]
structure IsTableStem (table : String) : Prop where
  nonempty : table ≠ ""
  slash : '/' ∉ table.toList
  visible : table.toList.head? ≠ some '.'

instance {table : String} : Decidable (IsTableStem table) :=
  decidable_of_iff _ (isTableStem_iff table).symm

/-- A directory lists tables: its visible files are one for each table, with the records of the
table, and the tables are listed in the order of the names of the files. Other directories and
hidden files may stand beside them. -/
structure TablesAt (separator : Char) (tree : Tree) (directory : Path)
    (tables : List (String × Records)) : Prop where
  isDirectory : tree.isDirectory directory = true
  files : (tableFiles (tree.children directory)).Perm
    (tables.map fun table => tableFileName table.1)
  sorted : (tables.map fun table => tableFileName table.1).Pairwise (· ≤ ·)
  unique : (tables.map (·.1)).Nodup
  stems : ∀ table ∈ tables, IsTableStem table.1
  listed : ∀ table ∈ tables,
    Table.ListedAt separator tree (directory.join ⟨tableFileName table.1⟩) table.2

/-! ## Names of table files -/

/-- The name of a table is what stands in front of the last dot of the name of its file. -/
theorem tableName_tableFileName {table : String} (h : IsTableStem table) :
    tableName (tableFileName table) = table := by
  have hFile : tableFileName table = table ++ "." ++ "csv" := by
    rw [tableFileName, String.append_assoc]
    rfl
  rw [tableName, hFile, Path.stem?_append h.nonempty h.slash (by decide) (by decide) (by decide)]
  rfl

/-! ## Files in order -/

theorem mem_tableFiles_iff {children : List (String × Entry)} {name : String} :
    name ∈ tableFiles children ↔
      name.toList.head? ≠ some '.' ∧ ∃ content, (name, .file content) ∈ children := by
  rw [tableFiles, List.mem_filterMap]
  constructor
  · rintro ⟨⟨own, - | content⟩, hMem, h⟩
    · cases h
    · by_cases hHidden : own.toList.head? = some '.'
      · cases (if_pos hHidden).symm.trans h
      · cases (if_neg hHidden).symm.trans h
        exact ⟨hHidden, content, hMem⟩
  · rintro ⟨hVisible, content, hMem⟩
    exact ⟨_, hMem, if_neg hVisible⟩

/-- The table files are some of the children. -/
theorem tableFiles_sublist (children : List (String × Entry)) :
    (tableFiles children).Sublist (children.map (·.1)) := by
  induction children with
  | nil => exact .slnil
  | cons child rest ih =>
    obtain ⟨name, - | content⟩ := child
    · exact ih.cons _
    · by_cases hHidden : name.toList.head? = some '.'
      · have hSkip : tableFiles ((name, .file content) :: rest) = tableFiles rest := by
          simp [tableFiles, hHidden]
        rw [hSkip]
        exact ih.cons _
      · have hTake : tableFiles ((name, .file content) :: rest) = name :: tableFiles rest := by
          simp [tableFiles, hHidden]
        rw [hTake]
        exact ih.cons_cons _

/-- The table files of a directory come in the order of their names. -/
theorem sorted_tableFiles (tree : Tree) (directory : Path) :
    (tableFiles (tree.children directory)).Pairwise (· ≤ ·) := by
  have hNames : ((tree.children directory).map (·.1)).Pairwise (· ≤ ·) :=
    List.pairwise_map.mpr (tree.sorted_children directory)
  exact hNames.sublist (tableFiles_sublist _)

/-- Sorting the children of a directory leaves the table files what they are. -/
theorem tableFiles_perm {tree : Tree} {directory : Path} {location : Location}
    (h : tree.find directory = .ok (location, .directory)) :
    (tableFiles (tree.children directory)).Perm (tableFiles (tree.childrenAt location)) := by
  rw [Tree.children, h]
  exact (List.mergeSort_perm _ _).filterMap _

namespace TablesAt

variable {separator : Char} {tree : Tree} {directory : Path} {tables : List (String × Records)}

/-- The files of the directory are those of the tables, in the order of the tables. -/
theorem tableFiles_eq (h : TablesAt separator tree directory tables) :
    tableFiles (tree.children directory) = tables.map fun table => tableFileName table.1 :=
  List.Perm.eq_of_pairwise (fun _ _ _ _ => String.le_antisymm) (sorted_tableFiles tree directory)
    h.sorted h.files

end TablesAt

/-- Files with records are read as tables if no table comes twice. -/
theorem readTables_of_listed {loading : Loading}
    (hSeparator : loading.naming.separator ∉ ['\n', '\r']) (file : Path) {directory : Path}
    {tables : List (String × Records)} (hUnique : (tables.map (·.1)).Nodup)
    (hStems : ∀ table ∈ tables, IsTableStem table.1)
    (hListed : ∀ table ∈ tables, Table.ListedAt loading.naming.separator loading.tree
      (directory.join ⟨tableFileName table.1⟩) table.2)
    {seen : List String} (hSeen : ∀ table ∈ tables, table.1 ∉ seen) :
    readTables loading file directory seen (tables.map fun table => tableFileName table.1) =
      .ok tables := by
  induction tables generalizing seen with
  | nil => rfl
  | cons table rest ih =>
    rw [List.map_cons, List.nodup_cons] at hUnique
    obtain ⟨hStem, hStems⟩ := List.forall_mem_cons.mp hStems
    obtain ⟨hOwn, hListed⟩ := List.forall_mem_cons.mp hListed
    obtain ⟨hNew, hSeen⟩ := List.forall_mem_cons.mp hSeen
    have hLater : ∀ other ∈ rest, other.1 ∉ table.1 :: seen := by
      intro other hOther
      rw [List.mem_cons, not_or]
      refine ⟨fun hSame => hUnique.1 ?_, hSeen other hOther⟩
      exact List.mem_map.mpr ⟨other, hOther, hSame⟩
    rw [List.map_cons, readTables]
    simp only [tableName_tableFileName hStem]
    rw [if_neg (by simpa using hNew), hOwn.readRecords hSeparator]
    simp only [ih hUnique.2 hStems hListed hLater]
    rfl

/-- A directory that lists tables is read as these tables. -/
theorem TablesAt.readTableDirectory {loading : Loading}
    (hSeparator : loading.naming.separator ∉ ['\n', '\r']) (file : Path) {directory : Path}
    {tables : List (String × Records)}
    (h : TablesAt loading.naming.separator loading.tree directory tables) :
    readTableDirectory loading file directory = .ok tables := by
  rw [ResourceTables.readTableDirectory, if_pos h.isDirectory, h.tableFiles_eq]
  exact readTables_of_listed hSeparator file h.unique h.stems h.listed fun _ _ => List.not_mem_nil

end ResourceTables
