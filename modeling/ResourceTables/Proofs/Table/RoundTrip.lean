import ResourceTables.Proofs.Table.Listing
import ResourceTables.Proofs.Table.Reading

/-!
# Tables as texts and back

Records are written as the lines of a table and read again, whichever way the lines end. Whatever
text is read, the records that come out of it could have been written, and all records that a table
can hold do come out of some text.

## Main definitions

* `Table.LineEnd`: a line feed, with a carriage return in front of it or without.
* `Table.rowText`, `Table.tableText`: a record without the end of its line, and a whole table.
* `Table.Tabular`: records that a table can hold.

## Main results

* `Table.parseRecords_tableText`: a written table is read as its records.
* `Table.tabular_of_parseRecords`: what is read from a text can be held by a table.
* `Table.tableText_round_trip`: both, and that nothing else is read.
-/

namespace ResourceTables.Table

open Text

/-- The end of a line: a line feed, with a carriage return in front of it or without. -/
inductive LineEnd where
  | feed
  | returnFeed
deriving DecidableEq

/-- What stands in front of the line feed. -/
def LineEnd.front : LineEnd → List Char
  | .feed => []
  | .returnFeed => ['\r']

/-- A record as a line, without its end. -/
def rowText (separator : Char) (record : String × String) : List Char :=
  record.1.toList ++ separator :: record.2.toList

/-- Records as the lines of a table, each with an end of its own. -/
def tableText (separator : Char) (rows : List ((String × String) × LineEnd)) : List Char :=
  rows.flatMap fun row => rowText separator row.1 ++ row.2.front ++ ['\n']

/-- Records that a table can hold: no key comes twice, each key can stand at the beginning of a
line, and no value holds a line feed. -/
@[mk_iff]
structure Tabular (separator : Char) (records : Records) : Prop where
  unique : (records.map (·.1)).Nodup
  keys : ∀ record ∈ records, ListableKey separator record.1
  values : ∀ record ∈ records, '\n' ∉ record.2.toList

instance {separator : Char} {records : Records} : Decidable (Tabular separator records) :=
  decidable_of_iff _ (tabular_iff separator records).symm

theorem Listable.tabular {separator : Char} {records : Records} (h : Listable separator records) :
    Tabular separator records :=
  ⟨h.unique, h.keys, fun record hRecord => (h.values record hRecord).lineFeed⟩

/-! ## From records to a text -/

section Written

variable {separator : Char} {rows : List ((String × String) × LineEnd)}

/-- The end of a line is all that is taken off a record. -/
def EndsApart (separator : Char) (row : (String × String) × LineEnd) : Prop :=
  dropReturn (rowText separator row.1 ++ row.2.front) = rowText separator row.1

theorem endsApart_returnFeed (separator : Char) (record : String × String) :
    EndsApart separator (record, .returnFeed) := by
  simp [EndsApart, dropReturn, LineEnd.front]

theorem endsApart_of_listableValue (hSeparator : separator ≠ '\r')
    {row : (String × String) × LineEnd} (hValue : ListableValue row.1.2) :
    EndsApart separator row := by
  obtain ⟨record, _ | _⟩ := row
  · rw [EndsApart, LineEnd.front, List.append_nil]
    exact dropReturn_record hSeparator hValue
  · exact endsApart_returnFeed separator record

/-- The lines of a written table say its records. The induction is on the rows, and the number of
the first line changes with each step. -/
theorem readLines_tableText (hSeparator : '\n' ≠ separator)
    (hKeys : ∀ record ∈ rows.map (·.1), ListableKey separator record.1)
    (hValues : ∀ record ∈ rows.map (·.1), '\n' ∉ record.2.toList)
    (hEnds : ∀ row ∈ rows, EndsApart separator row) (start : Nat) :
    readLines (recordOf? separator) (numberedLines start (tableText separator rows)) =
      .ok (rows.map (·.1)) := by
  induction rows generalizing start with
  | nil => rfl
  | cons row rows ih =>
    obtain ⟨hKey, hKeys⟩ := List.forall_mem_cons.mp hKeys
    obtain ⟨hValue, hValues⟩ := List.forall_mem_cons.mp hValues
    obtain ⟨hEnd, hEnds⟩ := List.forall_mem_cons.mp hEnds
    have hLine : '\n' ∉ rowText separator row.1 ++ row.2.front := by
      rw [List.mem_append, not_or]
      refine ⟨lineFeed_notMem_record hKey hSeparator hValue, ?_⟩
      cases row.2 <;> decide
    have hText : tableText separator (row :: rows) =
        (rowText separator row.1 ++ row.2.front) ++ '\n' :: tableText separator rows := by
      simp [tableText]
    rw [hText, readLines_record hKey hLine hEnd, ih hKeys hValues hEnds]
    rfl

/-- A written table is read as its records if the ends of its lines can be told from the records. -/
theorem parseRecords_tableText {naming : Naming} (hSeparator : '\n' ≠ naming.separator)
    (hRows : Tabular naming.separator (rows.map (·.1)))
    (hEnds : ∀ row ∈ rows, EndsApart naming.separator row) :
    parseRecords naming (String.ofList (tableText naming.separator rows)) =
      .ok (rows.map (·.1)) := by
  have hLines : readLines (recordOf? naming.separator)
      (dataLines (String.ofList (tableText naming.separator rows))) = .ok (rows.map (·.1)) := by
    rw [dataLines, String.toList_ofList]
    exact readLines_tableText hSeparator hRows.keys hRows.values hEnds 1
  rw [parseRecords_eq, hLines]
  exact congrArg Except.ok (putEntries_of_nodup hRows.unique)

end Written

/-! ## From a text to records -/

/-- The key of a row can stand at the beginning of a line, since it does. -/
theorem RowAt.listableKey {separator : Char} {content : String} {number : Nat} {key value : String}
    (h : RowAt separator content number key value) : ListableKey separator key := by
  obtain ⟨line, ⟨hLine, -, hComment⟩, before, rfl, hSeparator, ⟨c, hc, hBlank⟩, hKey⟩ := h
  have hPart : ∀ d ∈ key.toList, d ∈ before := by
    rw [hKey]
    exact fun d hd => (trim_isInfix before).subset hd
  have hNonempty : trim before ≠ [] := List.ne_nil_of_mem (mem_trim hBlank hc)
  refine ⟨fun hEmpty => hNonempty ?_, ?_, fun hMem => hSeparator (hPart _ hMem), fun hMem => ?_, ?_⟩
  · rw [← hKey, hEmpty]
    rfl
  · rw [hKey, trim_trim]
  · exact hLine.lineFeed_notMem (List.mem_append_left _ (hPart _ hMem))
  · -- The line begins like its key, and it is no comment.
    rwa [head?_trim_append hNonempty, ← hKey] at hComment

theorem RowAt.lineFeed_notMem {separator : Char} {content : String} {number : Nat}
    {key value : String} (h : RowAt separator content number key value) : '\n' ∉ value.toList := by
  obtain ⟨line, ⟨hLine, -⟩, before, rfl, -⟩ := h
  exact fun hMem => hLine.lineFeed_notMem
    (List.mem_append_right _ (List.mem_cons_of_mem _ hMem))

theorem tabular_of_parseRecords {naming : Naming} {content : String} {records : Records}
    (h : parseRecords naming content = .ok records) : Tabular naming.separator records := by
  have hRecords := tabulates_of_parseRecords h
  have hRow : ∀ record ∈ records,
      ∃ number, RowAt naming.separator content number record.1 record.2 := by
    intro record hRecord
    obtain ⟨number, hNumber, -⟩ := hRecords.last record.1 record.2 hRecord
    exact ⟨number, hNumber⟩
  refine ⟨hRecords.unique, fun record hRecord => ?_, fun record hRecord => ?_⟩
  · obtain ⟨number, hNumber⟩ := hRow record hRecord
    exact hNumber.listableKey
  · obtain ⟨number, hNumber⟩ := hRow record hRecord
    exact hNumber.lineFeed_notMem

/-- Records that can be listed are read again from the lines that they are written as, whichever way
each line ends. What is read from any text can be held by a table; and unless the line feed is the
separator, all that a table can hold is read from some text. -/
theorem tableText_round_trip (naming : Naming) :
    (naming.separator ∉ ['\n', '\r'] → ∀ rows : List ((String × String) × LineEnd),
      Listable naming.separator (rows.map (·.1)) →
        parseRecords naming (String.ofList (tableText naming.separator rows)) =
          .ok (rows.map (·.1))) ∧
      (∀ content records, parseRecords naming content = .ok records →
        Tabular naming.separator records) ∧
      (naming.separator ≠ '\n' → ∀ records, Tabular naming.separator records →
        ∃ content, parseRecords naming content = .ok records) := by
  refine ⟨fun hSeparator rows hRows => ?_, fun content records => tabular_of_parseRecords,
    fun hSeparator records hRecords => ?_⟩
  · rw [List.mem_cons, List.mem_singleton, not_or] at hSeparator
    refine parseRecords_tableText (Ne.symm hSeparator.1) hRows.tabular fun row hRow => ?_
    exact endsApart_of_listableValue hSeparator.2 (hRows.values _ (List.mem_map_of_mem hRow))
  · -- A carriage return in front of each line feed keeps the one that a value may end in.
    let rows := records.map fun record => (record, LineEnd.returnFeed)
    have hRows : rows.map (·.1) = records := by
      simp [rows, Function.comp_def]
    have hEnds : ∀ row ∈ rows, EndsApart naming.separator row :=
      List.forall_mem_map.mpr fun record _ => endsApart_returnFeed _ record
    have hRead := parseRecords_tableText (Ne.symm hSeparator) (hRows.symm ▸ hRecords) hEnds
    rw [hRows] at hRead
    exact ⟨_, hRead⟩

/-- Records with fields parted by blanks. -/
def spaced : Naming := { separator := ' ' }

/-- A value with a separator and the sign of a comment, an empty value, and a value that begins with
a blank and holds a carriage return. -/
def spacedRows : List ((String × String) × LineEnd) :=
  [(("a", "# x"), .feed), (("b", ""), .returnFeed), (("c#", " \r!"), .feed)]

/-- The blank behind a key is its separator also where the line ends with it. A value that ends in a
carriage return, which these records must not have, is read from another text. -/
theorem parseRecords_spacedRows :
    Listable ' ' (spacedRows.map (·.1)) ∧
      parseRecords spaced "a # x\nb \r\nc#  \r!\n" =
        .ok [("a", "# x"), ("b", ""), ("c#", " \r!")] ∧
      Tabular ' ' [("a", "# x"), ("b", ""), ("c#", " \r!")] ∧
      Tabular ' ' [("a", "x\r")] ∧ ∃ content, parseRecords spaced content = .ok [("a", "x\r")] := by
  obtain ⟨hWrite, hRead, hEach⟩ := tableText_round_trip spaced
  have hListable : Listable ' ' (spacedRows.map (·.1)) := by decide
  have hText : String.ofList (tableText ' ' spacedRows) = "a # x\nb \r\nc#  \r!\n" := by decide
  have hParse := hWrite (by decide) spacedRows hListable
  have hReturn : Tabular ' ' [("a", "x\r")] := by decide
  exact ⟨hListable, hText ▸ hParse, hRead _ _ hParse, hReturn, hEach (by decide) _ hReturn⟩

end ResourceTables.Table
