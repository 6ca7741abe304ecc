import Mathlib.Data.List.TakeWhile
import Mathlib.Tactic.MkIffOfInductiveProp
import ResourceTables.Proofs.Entries
import ResourceTables.Proofs.Text.Blank
import ResourceTables.Proofs.Text.Occurrences
import ResourceTables.Proofs.Text.PhysicalLines

/-!
# Records as a table file

Records are written down with one line for each, the key in front of a separator and the value
behind it, and with blank lines and comments anywhere between. If no part of a key or value is taken
for something else, then the table that is read is the records again.

## Main definitions

* `Table.Skipped`: a line that says nothing.
* `Table.Lists`: a text that lists records.
* `Table.listing`: the shortest of them.
* `Table.ListableKey`, `Table.ListableValue`, `Table.Listable`: what can be listed.

## Main results

* `Table.parseRecords_of_lists`: a text that lists records is read as these records.
-/

namespace ResourceTables

namespace Table

open Text

/-! ## Listings -/

/-- A line that says nothing: it is blank, or it is a comment, which blanks may come before. -/
def Skipped (line : List Char) : Prop :=
  (∀ c ∈ line, isBlank c = true) ∨
    ∃ blanks comment, line = blanks ++ '#' :: comment ∧ ∀ c ∈ blanks, isBlank c = true

/-- A text that lists records: a line for each, in order, and lines that say nothing anywhere. -/
inductive Lists (separator : Char) : Records → List Char → Prop where
  | nil : Lists separator [] []
  | skip {line : List Char} {records : Records} {content : List Char} (hSkipped : Skipped line)
      (hLine : '\n' ∉ line) (rest : Lists separator records content) :
      Lists separator records (line ++ '\n' :: content)
  | record {records : Records} {content : List Char} (key value : String)
      (rest : Lists separator records content) :
      Lists separator ((key, value) :: records)
        (key.toList ++ separator :: (value.toList ++ '\n' :: content))

/-- The lines of records, without anything between them. -/
def listing (separator : Char) : Records → List Char
  | [] => []
  | (key, value) :: rest =>
    key.toList ++ separator :: (value.toList ++ '\n' :: listing separator rest)

theorem lists_listing (separator : Char) (records : Records) :
    Lists separator records (listing separator records) := by
  induction records with
  | nil => exact .nil
  | cons record rest ih => exact .record record.1 record.2 ih

/-- A key that can stand at the beginning of a line: it is not empty, has no blank ends, holds no
separator and no line feed, and does not begin like a comment. -/
@[mk_iff]
structure ListableKey (separator : Char) (key : String) : Prop where
  nonempty : key ≠ ""
  trimmed : trim key.toList = key.toList
  separator : separator ∉ key.toList
  lineFeed : '\n' ∉ key.toList
  comment : key.toList.head? ≠ some '#'

/-- A value that can stand at the end of a line: it holds no line feed and does not end in a
carriage return. -/
@[mk_iff]
structure ListableValue (value : String) : Prop where
  lineFeed : '\n' ∉ value.toList
  carriageReturn : value.toList.getLast? ≠ some '\r'

/-- Records that can be listed, no key twice. -/
@[mk_iff]
structure Listable (separator : Char) (records : Records) : Prop where
  unique : (records.map (·.1)).Nodup
  keys : ∀ record ∈ records, ListableKey separator record.1
  values : ∀ record ∈ records, ListableValue record.2

instance {separator : Char} {key : String} : Decidable (ListableKey separator key) :=
  decidable_of_iff _ (listableKey_iff separator key).symm

instance {value : String} : Decidable (ListableValue value) :=
  decidable_of_iff _ (listableValue_iff value).symm

instance {separator : Char} {records : Records} : Decidable (Listable separator records) :=
  decidable_of_iff _ (listable_iff separator records).symm

/-! ## Single lines -/

theorem isData_of_dropWhile {line : List Char} {c : Char} {rest : List Char}
    (h : line.dropWhile isBlank = c :: rest) : isData line = (c != '#') := by
  rw [isData, trim_of_dropWhile h]

theorem Skipped.isData {line : List Char} (h : Skipped line) : isData line = false := by
  rcases h with hBlank | ⟨blanks, comment, rfl, hBlank⟩
  · rw [Table.isData, trim, trimStart, List.dropWhile_eq_nil_iff.mpr hBlank]
    rfl
  · have hDrop : (blanks ++ '#' :: comment).dropWhile isBlank = '#' :: comment := by
      rw [List.dropWhile_append_of_pos hBlank, List.dropWhile_cons_of_neg (by decide)]
    rw [isData_of_dropWhile hDrop]
    rfl

/-- A line that says nothing says nothing without a carriage return at its end, either. -/
theorem Skipped.dropReturn {line : List Char} (h : Skipped line) : Skipped (dropReturn line) := by
  rw [Text.dropReturn]
  split
  · next hReturn =>
    rcases h with hBlank | ⟨blanks, comment, rfl, hBlank⟩
    · exact .inl fun c hc => hBlank c (List.dropLast_subset line hc)
    · cases comment with
      | nil => simp at hReturn
      | cons c comment =>
        refine .inr ⟨blanks, (c :: comment).dropLast, ?_, hBlank⟩
        rw [List.dropLast_append_of_ne_nil (List.cons_ne_nil _ _), List.dropLast_cons_cons]
  · exact h

section Record

variable {separator : Char} {key value : String}

/-- The line of a record does not end in a carriage return, so it is kept as it is. -/
theorem dropReturn_record (hSeparator : separator ≠ '\r') (hValue : ListableValue value) :
    dropReturn (key.toList ++ separator :: value.toList) =
      key.toList ++ separator :: value.toList := by
  have hLast : (key.toList ++ separator :: value.toList).getLast? ≠ some '\r' := by
    rw [List.getLast?_append_of_ne_nil _ (List.cons_ne_nil _ _), List.getLast?_cons]
    cases hEnd : value.toList.getLast? with
    | none => simpa using hSeparator
    | some c =>
      have hc := hValue.carriageReturn
      rw [hEnd] at hc
      exact hc
  rw [dropReturn, if_neg hLast]

theorem lineFeed_notMem_record (hKey : ListableKey separator key) (hSeparator : '\n' ≠ separator)
    (hValue : '\n' ∉ value.toList) : '\n' ∉ key.toList ++ separator :: value.toList := by
  rw [List.mem_append, List.mem_cons, not_or, not_or]
  exact ⟨hKey.lineFeed, hSeparator, hValue⟩

theorem isData_record (hKey : ListableKey separator key) (rest : List Char) :
    isData (key.toList ++ rest) = true := by
  cases hText : key.toList with
  | nil => exact absurd (String.toList_eq_nil_iff.mp hText) hKey.nonempty
  | cons c more =>
    have hFront : isBlank c = false := by
      have hTrimmed := hKey.trimmed
      rw [hText] at hTrimmed
      exact isBlank_of_trim_eq_cons hTrimmed
    have hComment := hKey.comment
    rw [hText, List.head?_cons] at hComment
    have hDrop : (c :: (more ++ rest)).dropWhile isBlank = c :: (more ++ rest) :=
      List.dropWhile_cons_of_neg (by simp [hFront])
    rw [List.cons_append, isData_of_dropWhile hDrop]
    simpa using hComment

theorem recordOf?_record (hKey : ListableKey separator key) :
    recordOf? separator (key.toList ++ separator :: value.toList) = some (key, value) := by
  have hEmpty : key.toList.isEmpty = false := by
    simpa using hKey.nonempty
  rw [recordOf?, cutAt?_append_cons hKey.separator]
  simp only [hKey.trimmed, hEmpty, String.ofList_toList]
  rfl

end Record

/-! ## Whole tables -/

/-- Lines that say something, numbered from a given number on. -/
def numberedLines (start : Nat) (content : List Char) : List (Nat × List Char) :=
  (((physicalLines content).zipIdx start).map fun (line, number) => (number, line)).filter
    fun line => isData line.2

theorem numberedLines_append (start : Nat) {line : List Char} (h : '\n' ∉ line)
    (rest : List Char) :
    numberedLines start (line ++ '\n' :: rest) =
      if isData (dropReturn line) then (start, dropReturn line) :: numberedLines (start + 1) rest
      else numberedLines (start + 1) rest := by
  rw [numberedLines, physicalLines_append h, List.zipIdx_cons, List.map_cons, List.filter_cons]
  rfl

theorem numberedLines_skip {line : List Char} (hSkipped : Skipped line) (hLine : '\n' ∉ line)
    (start : Nat) (rest : List Char) :
    numberedLines start (line ++ '\n' :: rest) = numberedLines (start + 1) rest := by
  rw [numberedLines_append start hLine, hSkipped.dropReturn.isData]
  rfl

/-- A line that is a record says it, in front of what the rest says. -/
theorem readLines_record {separator : Char} {key value : String} {raw : List Char}
    (hKey : ListableKey separator key) (hLine : '\n' ∉ raw)
    (hRaw : dropReturn raw = key.toList ++ separator :: value.toList) (start : Nat)
    (rest : List Char) :
    readLines (recordOf? separator) (numberedLines start (raw ++ '\n' :: rest)) =
      (do return (key, value) ::
        (← readLines (recordOf? separator) (numberedLines (start + 1) rest))) := by
  rw [numberedLines_append start hLine, hRaw, isData_record hKey, if_pos rfl, readLines,
    recordOf?_record hKey]

/-- The lines of a listing say the records. The induction is on the listing, and the number of the
first line changes with each step. -/
theorem readLines_of_lists {separator : Char} (hSeparator : separator ∉ ['\n', '\r'])
    {records : Records} {content : List Char} (h : Lists separator records content)
    (hKeys : ∀ record ∈ records, ListableKey separator record.1)
    (hValues : ∀ record ∈ records, ListableValue record.2) (start : Nat) :
    readLines (recordOf? separator) (numberedLines start content) = .ok records := by
  induction h generalizing start with
  | nil => rfl
  | skip hSkipped hLine rest ih =>
    rw [numberedLines_skip hSkipped hLine]
    exact ih hKeys hValues (start + 1)
  | @record records content key value rest ih =>
    obtain ⟨hKey, hKeys⟩ := List.forall_mem_cons.mp hKeys
    obtain ⟨hValue, hValues⟩ := List.forall_mem_cons.mp hValues
    rw [List.mem_cons, List.mem_singleton, not_or] at hSeparator
    have hLine : '\n' ∉ key.toList ++ separator :: value.toList :=
      lineFeed_notMem_record hKey (Ne.symm hSeparator.1) hValue.lineFeed
    have hSplit : key.toList ++ separator :: (value.toList ++ '\n' :: content) =
        (key.toList ++ separator :: value.toList) ++ '\n' :: content := by
      simp
    rw [hSplit, readLines_record hKey hLine (dropReturn_record hSeparator.2 hValue),
      ih hKeys hValues (start + 1)]
    rfl

/-- A text that lists records is read as these records. -/
theorem parseRecords_of_lists {naming : Naming} (hSeparator : naming.separator ∉ ['\n', '\r'])
    {records : Records} {content : String} (h : Lists naming.separator records content.toList)
    (hListable : Listable naming.separator records) :
    parseRecords naming content = .ok records := by
  have hLines : readLines (recordOf? naming.separator) (dataLines content) = .ok records :=
    readLines_of_lists hSeparator h hListable.keys hListable.values 1
  rw [parseRecords_eq, hLines]
  exact congrArg Except.ok (putEntries_of_nodup hListable.unique)

/-- The file at a path lists records. -/
def ListedAt (separator : Char) (tree : Tree) (path : Path) (records : Records) : Prop :=
  Listable separator records ∧
    ∃ content, tree.readText path = .ok content ∧ Lists separator records content.toList

/-- A file that holds the lines of records and nothing else lists them. -/
theorem listedAt_of_listing {separator : Char} {tree : Tree} {path : Path} {records : Records}
    {content : String} (hListable : Listable separator records)
    (hContent : tree.readText path = .ok content)
    (hText : content.toList = listing separator records) :
    ListedAt separator tree path records :=
  ⟨hListable, content, hContent, hText ▸ lists_listing separator records⟩

theorem ListedAt.readRecords {naming : Naming} (hSeparator : naming.separator ∉ ['\n', '\r'])
    {tree : Tree} {path : Path} {records : Records}
    (h : ListedAt naming.separator tree path records) :
    readRecords naming tree path = .ok records := by
  obtain ⟨hListable, content, hContent, hLists⟩ := h
  rw [Table.readRecords, read_of_readText hContent,
    parseRecords_of_lists hSeparator hLists hListable]
  rfl

end Table

end ResourceTables
