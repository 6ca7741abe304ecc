import ResourceTables.Proofs.Checked
import ResourceTables.Proofs.Entries
import ResourceTables.Proofs.Text.Blank
import ResourceTables.Proofs.Text.PhysicalLines
import ResourceTables.Table

/-!
# What a table file says

A table of records can be read exactly if each line that says something is a row: a key that is not
blank, a separator, and a value. Then its records are the keys in the order in which they come
first, each with the value that comes with it last. Otherwise the first line that is no row is
named, by its number among all lines.

## Main definitions

* `DataLine`, `IsRow`, `RowAt`: the lines that say something, and what they say.
* `AllRows`, `FirstMalformed`: when a table can be read, and the line that is named when it cannot.
* `ComesBefore`, `Tabulates`: the order of keys, and the records that rows come down to.
* `parseFile`: the records of a file with a given content.

## Main results

* `tabulates_putEntries`: putting rows into a map in order comes down to them.
* `parseFile_eq_iff`: when a table can be read, what its records are, and which line is named.
-/

namespace ResourceTables.Table

open Text

variable {separator : Char} {content : String}

/-! ## Lines that say something -/

/-- A line that says something, by its number among all lines. -/
def DataLine (content : String) (number : Nat) (line : List Char) : Prop :=
  LineAt content.toList number line ∧ trim line ≠ [] ∧ (trim line).head? ≠ some '#'

theorem isData_iff {line : List Char} :
    isData line = true ↔ trim line ≠ [] ∧ (trim line).head? ≠ some '#' := by
  rw [isData]
  split
  · next hTrim => simp [hTrim]
  · next hTrim => simp [hTrim]

theorem mem_dataLines_iff {number : Nat} {line : List Char} :
    (number, line) ∈ dataLines content ↔ DataLine content number line := by
  rw [dataLines, List.mem_filter, isData_iff, DataLine]
  refine and_congr_left fun _ => ?_
  simp only [List.mem_map, Prod.exists, Prod.mk.injEq, List.mk_mem_zipIdx_iff_le_and_getElem?_sub,
    getElem?_physicalLines_iff]
  constructor
  · rintro ⟨own, place, ⟨hPlace, hLine⟩, rfl, rfl⟩
    rwa [Nat.sub_add_cancel hPlace] at hLine
  · intro hLine
    have hNumber : 1 ≤ number := by
      obtain ⟨before, -, -, -, rfl, -⟩ := hLine
      exact Nat.le_add_left 1 _
    exact ⟨line, number, ⟨hNumber, by rwa [Nat.sub_add_cancel hNumber]⟩, rfl, rfl⟩

theorem pairwise_dataLines (content : String) :
    (dataLines content).Pairwise fun line other => line.1 < other.1 := by
  refine List.Pairwise.filter _ (List.pairwise_map.mpr ?_)
  have hNumbers : (((physicalLines content.toList).zipIdx 1).map (·.2)).Pairwise (· < ·) := by
    rw [List.zipIdx_map_snd]
    exact List.pairwise_lt_range' _
  exact List.pairwise_map.mp hNumbers

/-! ## Rows -/

/-- A line is a row: a text that is not blank, then the first separator, then the value. The key is
the text without its blank ends. -/
def IsRow (separator : Char) (line : List Char) (key value : String) : Prop :=
  ∃ before, line = before ++ separator :: value.toList ∧ separator ∉ before ∧
    (∃ c ∈ before, isBlank c = false) ∧ key.toList = trim before

theorem recordOf?_eq_some_iff {line : List Char} {key value : String} :
    recordOf? separator line = some (key, value) ↔ IsRow separator line key value := by
  constructor
  · intro h
    rw [recordOf?] at h
    split at h
    · cases h
    · next before after hCut =>
      obtain ⟨rfl, hSeparator⟩ := eq_of_cutAt? hCut
      dsimp only at h
      split at h
      · cases h
      · next hKey =>
        obtain ⟨rfl, rfl⟩ := Prod.mk.inj (Option.some.inj h)
        rw [List.isEmpty_iff, trim_eq_nil_iff] at hKey
        simp only [not_forall, Bool.not_eq_true, exists_prop] at hKey
        exact ⟨before, by rw [String.toList_ofList], hSeparator, hKey, String.toList_ofList⟩
  · rintro ⟨before, rfl, hSeparator, ⟨c, hc, hBlank⟩, hKey⟩
    have hNonempty : (trim before).isEmpty = false := by
      rw [List.isEmpty_eq_false_iff]
      exact List.ne_nil_of_mem (mem_trim hBlank hc)
    rw [← hKey] at hNonempty
    rw [recordOf?, cutAt?_append_cons hSeparator]
    simp only [← hKey, hNonempty, String.ofList_toList]
    rfl

/-- A row of a table, by the number of its line. -/
def RowAt (separator : Char) (content : String) (number : Nat) (key value : String) : Prop :=
  ∃ line, DataLine content number line ∧ IsRow separator line key value

/-- Each line that says something is a row. -/
def AllRows (separator : Char) (content : String) : Prop :=
  ∀ number line, DataLine content number line → ∃ key value, IsRow separator line key value

/-- The first line that says something and is no row has a given number. -/
def FirstMalformed (separator : Char) (content : String) (number : Nat) : Prop :=
  (∃ line, DataLine content number line ∧ ¬∃ key value, IsRow separator line key value) ∧
    ∀ earlier line, DataLine content earlier line → earlier < number →
      ∃ key value, IsRow separator line key value

/-! ## Reading lines one after the other -/

section Lines

variable {α : Type} {read? : List Char → Option α} {lines : List (Nat × List Char)}

/-- Lines are read one by one, and one that says nothing is named. -/
theorem readLines_eq_mapM :
    readLines read? lines =
      lines.mapM fun line => ((read? line.2).elim (.error line.1) .ok : Except Nat α) := by
  induction lines with
  | nil => rfl
  | cons line lines ih =>
    rw [readLines, List.mapM_cons, ← ih]
    cases read? line.2 <;> rfl

/-- What is read comes from the lines one by one. -/
theorem readLines_eq_ok_iff {items : List α} :
    readLines read? lines = .ok items ↔
      List.Forall₂ (fun line item => read? line.2 = some item) lines items := by
  have hLine : ∀ line : Nat × List Char, ∀ item,
      ((read? line.2).elim (.error line.1) .ok : Except Nat α) = .ok item ↔
        read? line.2 = some item := by
    intro line item
    cases read? line.2 <;> simp
  rw [readLines_eq_mapM, Checked.mapM_eq_ok_iff]
  simp only [hLine]

theorem filterMap_eq_of_forall₂ {items : List α}
    (h : List.Forall₂ (fun line item => read? line.2 = some item) lines items) :
    lines.filterMap (fun line => read? line.2) = items := by
  induction h with
  | nil => rfl
  | cons hItem _ ih => simp [hItem, ih]

theorem readLines_isOk_iff :
    (∃ items, readLines read? lines = .ok items) ↔
      ∀ line ∈ lines, ∃ item, read? line.2 = some item := by
  simp only [readLines_eq_ok_iff, Checked.exists_forall₂_iff]

/-- Lines that all say something sensible are read one by one. -/
theorem readLines_of_forall {f : List Char → α}
    (h : ∀ line ∈ lines, read? line.2 = some (f line.2)) :
    readLines read? lines = .ok (lines.map fun line => f line.2) := by
  rw [readLines_eq_ok_iff, List.forall₂_map_right_iff, List.forall₂_same]
  exact h

theorem readLines_eq_error_iff {number : Nat} :
    readLines read? lines = .error number ↔
      ∃ before line after, lines = before ++ (number, line) :: after ∧
        (∀ earlier ∈ before, read? earlier.2 ≠ none) ∧ read? line = none := by
  have hOk : ∀ line : Nat × List Char,
      (∃ item, ((read? line.2).elim (.error line.1) .ok : Except Nat α) = .ok item) ↔
        read? line.2 ≠ none := by
    intro line
    cases read? line.2 <;> simp
  have hError : ∀ line : Nat × List Char,
      ((read? line.2).elim (.error line.1) .ok : Except Nat α) = .error number ↔
        line.1 = number ∧ read? line.2 = none := by
    intro line
    cases read? line.2 <;> simp
  rw [readLines_eq_mapM, Checked.mapM_eq_error_iff]
  simp only [hOk, hError]
  constructor
  · rintro ⟨before, ⟨_, line⟩, after, hLines, hBefore, rfl, hNone⟩
    exact ⟨before, line, after, hLines, hBefore, hNone⟩
  · rintro ⟨before, line, after, hLines, hBefore, hNone⟩
    exact ⟨before, (number, line), after, hLines, hBefore, rfl, hNone⟩

/-- Among lines numbered in order, the one that is named is the first that says nothing. -/
theorem readLines_eq_error_iff_of_pairwise
    (hLines : lines.Pairwise fun line other => line.1 < other.1) {number : Nat} :
    readLines read? lines = .error number ↔ (∃ line, (number, line) ∈ lines ∧ read? line = none) ∧
      ∀ earlier line, (earlier, line) ∈ lines → earlier < number → read? line ≠ none := by
  rw [readLines_eq_error_iff]
  constructor
  · rintro ⟨before, line, after, rfl, hBefore, hLine⟩
    refine ⟨⟨line, List.mem_append_right _ List.mem_cons_self, hLine⟩, ?_⟩
    intro earlier other hMem hEarlier
    obtain ⟨-, hAfter, -⟩ := List.pairwise_append.mp hLines
    rcases List.mem_append.mp hMem with hMem | hMem
    · exact hBefore _ hMem
    · rcases List.mem_cons.mp hMem with hSame | hMem
      · exact absurd hEarlier (by rw [(Prod.mk.inj hSame).1]; exact Nat.lt_irrefl _)
      · exact absurd hEarlier (Nat.lt_asymm ((List.pairwise_cons.mp hAfter).1 _ hMem))
  · rintro ⟨⟨line, hMem, hLine⟩, hEarlier⟩
    obtain ⟨before, after, rfl⟩ := List.append_of_mem hMem
    obtain ⟨-, -, hBefore⟩ := List.pairwise_append.mp hLines
    refine ⟨before, line, after, rfl, fun earlier hOther => ?_, hLine⟩
    exact hEarlier earlier.1 earlier.2 (List.mem_append_left _ hOther)
      (hBefore _ hOther _ List.mem_cons_self)

end Lines

/-! ## The records that rows come down to -/

/-- A key comes before another: one of its rows does before all rows of the other. -/
def ComesBefore (rows : Nat → String → String → Prop) (key next : String) : Prop :=
  ∃ number value, rows number key value ∧ ∀ later other, rows later next other → number < later

/-- Records that rows with numbers come down to: the keys of the rows, in the order in which they
come first, each with the value that comes with it last. -/
structure Tabulates (rows : Nat → String → String → Prop) (records : Records) : Prop where
  unique : (records.map (·.1)).Nodup
  keys : ∀ key, key ∈ records.map (·.1) ↔ ∃ number value, rows number key value
  last : ∀ key value, (key, value) ∈ records →
    ∃ number, rows number key value ∧ ∀ later other, rows later key other → later ≤ number
  order : (records.map (·.1)).Pairwise (ComesBefore rows)

/-- Rows come down to one list of records only. -/
theorem Tabulates.eq {rows : Nat → String → String → Prop} {records others : Records}
    (h : Tabulates rows records) (hOthers : Tabulates rows others)
    (hRows : ∀ number key value other, rows number key value → rows number key other →
      value = other) :
    records = others := by
  have hSubset : ∀ {records others : Records}, Tabulates rows records → Tabulates rows others →
      ∀ record ∈ records, record ∈ others := by
    rintro records others h hOthers ⟨key, value⟩ hRecord
    have hKey := (h.keys key).mp (List.mem_map_of_mem hRecord)
    obtain ⟨⟨own, other⟩, hOther, rfl⟩ := List.mem_map.mp ((hOthers.keys key).mpr hKey)
    obtain ⟨number, hNumber, hLast⟩ := h.last _ _ hRecord
    obtain ⟨place, hPlace, hEnd⟩ := hOthers.last _ _ hOther
    obtain rfl : number = place :=
      Nat.le_antisymm (hEnd _ _ hNumber) (hLast _ _ hPlace)
    rwa [hRows _ _ _ _ hNumber hPlace]
  have hPerm : records.Perm others :=
    (List.perm_ext_iff_of_nodup h.unique.of_map hOthers.unique.of_map).mpr fun record =>
      ⟨hSubset h hOthers record, hSubset hOthers h record⟩
  -- Two keys do not come each before the other.
  refine hPerm.eq_of_pairwise (fun record other _ _ hBefore hAfter => ?_)
    (List.pairwise_map.mp h.order) (List.pairwise_map.mp hOthers.order)
  obtain ⟨number, value, hNumber, hLater⟩ := hBefore
  obtain ⟨place, content, hPlace, hEarlier⟩ := hAfter
  exact absurd (hLater _ _ hPlace) (Nat.lt_asymm (hEarlier _ _ hNumber))

section Append

variable {rows : Nat → String → String → Prop} {records : Records} {number : Nat}

/-- A key that comes before another does so still when a later row is added. -/
theorem ComesBefore.append {key next : String} (h : ComesBefore rows key next)
    (hNew : ∀ earlier key value, rows earlier key value → earlier < number) (last value : String) :
    ComesBefore
      (fun place own other => rows place own other ∨ place = number ∧ own = last ∧ other = value)
      key next := by
  obtain ⟨place, content, hRow, hLater⟩ := h
  refine ⟨place, content, .inl hRow, fun later other hNext => ?_⟩
  rcases hNext with hNext | ⟨rfl, -, -⟩
  · exact hLater _ _ hNext
  · exact hNew _ _ _ hRow

/-- A row behind all others is put into the records. -/
theorem Tabulates.append (h : Tabulates rows records)
    (hNew : ∀ earlier key value, rows earlier key value → earlier < number) (key value : String) :
    Tabulates
      (fun place own other => rows place own other ∨ place = number ∧ own = key ∧ other = value)
      (putEntry key value records) where
  unique := nodup_putEntry h.unique key value
  keys own := by
    rw [mem_map_fst_putEntry, h.keys]
    constructor
    · rintro (rfl | ⟨place, other, hRow⟩)
      · exact ⟨number, value, .inr ⟨rfl, rfl, rfl⟩⟩
      · exact ⟨place, other, .inl hRow⟩
    · rintro ⟨place, other, hRow | ⟨-, rfl, -⟩⟩
      · exact .inr ⟨place, other, hRow⟩
      · exact .inl rfl
  last own other hRecord := by
    rcases (mem_putEntry_iff h.unique).mp hRecord with hSame | ⟨hOld, hKey⟩
    · obtain ⟨rfl, rfl⟩ := Prod.mk.inj hSame
      refine ⟨number, .inr ⟨rfl, rfl, rfl⟩, fun later next hRow => ?_⟩
      rcases hRow with hRow | ⟨rfl, -, -⟩
      · exact (hNew _ _ _ hRow).le
      · exact Nat.le_refl _
    · obtain ⟨place, hPlace, hLast⟩ := h.last _ _ hOld
      refine ⟨place, .inl hPlace, fun later next hRow => ?_⟩
      exact hLast later next (hRow.resolve_right fun hSame => hKey hSame.2.1)
  order := by
    -- A key that is there keeps its place, and a new key comes behind all others.
    by_cases hKey : key ∈ records.map (·.1)
    · rw [map_fst_putEntry_of_mem hKey]
      exact h.order.imp fun hBefore => hBefore.append hNew key value
    · rw [putEntry_of_notMem hKey, List.map_append, List.map_singleton, List.pairwise_append]
      refine ⟨h.order.imp fun hBefore => hBefore.append hNew key value,
        List.pairwise_singleton _ _, ?_⟩
      intro own hOwn next hNext
      obtain rfl := List.mem_singleton.mp hNext
      obtain ⟨place, other, hRow⟩ := (h.keys own).mp hOwn
      have hBefore : ComesBefore rows own next := ⟨place, other, hRow, fun later last hLast =>
        absurd ((h.keys next).mpr ⟨later, last, hLast⟩) hKey⟩
      exact hBefore.append hNew next value

end Append

/-- Putting rows into a map one after the other comes down to them. The induction is on the rows
from the end, where the number of the new row is above all others. -/
theorem tabulates_putEntries {rows : List (Nat × String × String)}
    (hRows : rows.Pairwise fun row later => row.1 < later.1) :
    Tabulates (fun number key value => (number, key, value) ∈ rows)
      (putEntries (rows.map (·.2))) := by
  induction rows using List.reverseRecOn with
  | nil => exact ⟨List.nodup_nil, by simp [putEntries], by simp [putEntries], .nil⟩
  | append_singleton rows row ih =>
    obtain ⟨hRows, -, hAbove⟩ := List.pairwise_append.mp hRows
    rw [List.map_append, List.map_singleton, putEntries_append_singleton]
    simp only [List.mem_append, List.mem_singleton, Prod.ext_iff]
    exact (ih hRows).append (fun _ _ _ hRow => hAbove _ hRow row List.mem_cons_self) row.2.1 row.2.2

/-! ## Whole tables -/

/-- The records of a file with a given content. -/
def parseFile (naming : Naming) (file : Path) (content : String) : Checked Records :=
  match parseRecords naming content with
  | .error line => .error (.malformedRow file line)
  | .ok records => .ok records

theorem parseRecords_eq_error_iff {naming : Naming} {number : Nat} :
    parseRecords naming content = .error number ↔
      FirstMalformed naming.separator content number := by
  have hParse : parseRecords naming content = .error number ↔
      readLines (recordOf? naming.separator) (dataLines content) = .error number := by
    rw [parseRecords_eq]
    cases readLines (recordOf? naming.separator) (dataLines content) <;> simp [Except.map]
  rw [hParse, readLines_eq_error_iff_of_pairwise (pairwise_dataLines content), FirstMalformed]
  simp only [mem_dataLines_iff, ne_eq, Option.eq_none_iff_forall_ne_some, Prod.forall,
    recordOf?_eq_some_iff, not_exists, not_forall, not_not]

theorem parseRecords_eq_ok_iff {naming : Naming} {records : Records} :
    parseRecords naming content = .ok records ↔
      ∃ items, List.Forall₂ (fun line item => recordOf? naming.separator line.2 = some item)
        (dataLines content) items ∧ putEntries items = records := by
  simp only [← readLines_eq_ok_iff]
  rw [parseRecords_eq]
  cases readLines (recordOf? naming.separator) (dataLines content) <;> simp [Except.map]

theorem exists_parseRecords_iff {naming : Naming} :
    (∃ records, parseRecords naming content = .ok records) ↔
      AllRows naming.separator content := by
  have hItems : (∃ items, readLines (recordOf? naming.separator) (dataLines content) = .ok items) ↔
      ∀ line ∈ dataLines content, ∃ item, recordOf? naming.separator line.2 = some item :=
    readLines_isOk_iff
  simp only [Prod.forall, Prod.exists, mem_dataLines_iff, recordOf?_eq_some_iff] at hItems
  rw [AllRows, ← hItems, parseRecords_eq]
  cases readLines (recordOf? naming.separator) (dataLines content) <;> simp [Except.map]

/-- The records that are read are what the rows of the table come down to. -/
theorem tabulates_of_parseRecords {naming : Naming} {records : Records}
    (h : parseRecords naming content = .ok records) :
    Tabulates (RowAt naming.separator content) records := by
  obtain ⟨items, hRead, rfl⟩ := parseRecords_eq_ok_iff.mp h
  let rows := (dataLines content).filterMap fun line =>
    (recordOf? naming.separator line.2).map fun item => (line.1, item)
  have hItems : rows.map (·.2) = items := by
    rw [← filterMap_eq_of_forall₂ hRead, List.map_filterMap]
    refine List.filterMap_congr fun line _ => ?_
    cases recordOf? naming.separator line.2 <;> rfl
  have hSorted : rows.Pairwise fun row later => row.1 < later.1 := by
    refine List.pairwise_filterMap.mpr ((pairwise_dataLines content).imp ?_)
    intro line other hNumbers row hRow later hLater
    obtain ⟨item, -, rfl⟩ := Option.map_eq_some_iff.mp hRow
    obtain ⟨next, -, rfl⟩ := Option.map_eq_some_iff.mp hLater
    exact hNumbers
  have hRows : (fun number key value => (number, key, value) ∈ rows) =
      RowAt naming.separator content := by
    funext number key value
    simp only [rows, List.mem_filterMap, Option.map_eq_some_iff, Prod.exists, Prod.mk.injEq, RowAt,
      ← mem_dataLines_iff, ← recordOf?_eq_some_iff, eq_iff_iff]
    constructor
    · rintro ⟨place, line, hLine, own, other, hRecord, rfl, rfl, rfl⟩
      exact ⟨line, hLine, hRecord⟩
    · rintro ⟨line, hLine, hRecord⟩
      exact ⟨number, line, hLine, key, value, hRecord, rfl, rfl, rfl⟩
  rw [← hItems, ← hRows]
  exact tabulates_putEntries hSorted

theorem RowAt.eq {number : Nat} {key value other : String}
    (h : RowAt separator content number key value)
    (hOther : RowAt separator content number key other) : value = other := by
  obtain ⟨line, ⟨hLine, -⟩, hRow⟩ := h
  obtain ⟨own, ⟨hOwn, -⟩, hOther⟩ := hOther
  obtain rfl := hLine.eq hOwn
  have hSame := (recordOf?_eq_some_iff.mpr hRow).symm.trans (recordOf?_eq_some_iff.mpr hOther)
  exact (Prod.mk.inj (Option.some.inj hSame)).2

/-- A table can be read exactly if each line that says something is a row, and its records are then
what the rows come down to. Else the fault names the first line that is no row. A file is read as
its content is. -/
theorem parseFile_eq_iff (naming : Naming) (file : Path) (content : String) :
    ((∃ records, parseFile naming file content = .ok records) ↔
        AllRows naming.separator content) ∧
      (∀ records, parseFile naming file content = .ok records ↔
        AllRows naming.separator content ∧
          Tabulates (RowAt naming.separator content) records) ∧
      (∀ fault, parseFile naming file content = .error fault ↔
        ∃ number, FirstMalformed naming.separator content number ∧
          fault = .malformedRow file number) ∧
      ∀ tree : Tree, tree.readText file = .ok content →
        readRecords naming tree file = parseFile naming file content := by
  have hOk : ∀ records, parseFile naming file content = .ok records ↔
      parseRecords naming content = .ok records := by
    intro records
    rw [parseFile]
    cases parseRecords naming content <;> simp
  refine ⟨?_, fun records => ?_, fun fault => ?_, fun tree hContent => ?_⟩
  · simp only [hOk, exists_parseRecords_iff]
  · rw [hOk]
    constructor
    · intro h
      exact ⟨exists_parseRecords_iff.mp ⟨records, h⟩, tabulates_of_parseRecords h⟩
    · rintro ⟨hRows, hRecords⟩
      obtain ⟨own, hOwn⟩ := exists_parseRecords_iff.mpr hRows
      have hSame := hRecords.eq (tabulates_of_parseRecords hOwn) fun _ _ _ _ => RowAt.eq
      rwa [hSame]
  · simp only [← parseRecords_eq_error_iff]
    rw [parseFile]
    cases parseRecords naming content <;> simp [eq_comm]
  · rw [readRecords, read, hContent, parseFile]
    dsimp only
    cases parseRecords naming content <;> rfl

/-- A table with a comment, a blank line, a carriage return and a key that comes again. -/
def repeatedTable : String := "# key,value\na, 1\r\n\n b ,x,y\na,2\n"

/-- The table as a file. -/
def repeatedTree : Tree where
  entries := [(["table.csv"], .file (.text repeatedTable))]

/-- The key that comes again keeps its place and has its last value. -/
theorem parseFile_repeatedTable :
    AllRows ',' repeatedTable ∧
      Tabulates (RowAt ',' repeatedTable) [("a", "2"), ("b", "x,y")] ∧
      readRecords {} repeatedTree ⟨"table.csv"⟩ = .ok [("a", "2"), ("b", "x,y")] := by
  obtain ⟨-, hOk, -, hFile⟩ := parseFile_eq_iff {} ⟨"table.csv"⟩ repeatedTable
  have hContent : repeatedTree.readText ⟨"table.csv"⟩ = .ok repeatedTable := by decide
  have hRead : parseFile {} ⟨"table.csv"⟩ repeatedTable = .ok [("a", "2"), ("b", "x,y")] := by
    decide
  exact ⟨((hOk _).mp hRead).1, ((hOk _).mp hRead).2, (hFile _ hContent).trans hRead⟩

end ResourceTables.Table
