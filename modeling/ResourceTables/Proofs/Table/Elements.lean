import ResourceTables.Proofs.Table.Reading

/-!
# What a list file says

As whole lines, a list is the lines that say something, without their blank ends. As first fields,
it is what stands in front of the first separator in each of these lines, and the first line that
begins with a separator is malformed. Both say the same where no line has a separator.

## Main definitions

* `DataLines`: all lines that say something, in order.
* `IsFirstField`: a text is the first field of a line.
* `FirstLeading`: the first line that begins with a separator.

## Main results

* `elementOf?_firstField`: the first field of a line, or that it begins with a separator.
* `parseList_meaning`: what a list says in either mode.
-/

namespace ResourceTables.Table

open Text

variable {separator : Char} {content : String} {line : List Char} {naming : Naming}

/-- All lines that say something, with their numbers, in order. -/
structure DataLines (content : String) (lines : List (Nat × List Char)) : Prop where
  mem : ∀ number line, (number, line) ∈ lines ↔ DataLine content number line
  order : lines.Pairwise fun line later => line.1 < later.1

/-- A text is the first field of a line: what the line is without its blank ends, or what is in
front of the first separator in it, again without blank ends. -/
structure IsFirstField (separator : Char) (line : List Char) (element : String) : Prop where
  field : separator ∉ trim line ∧ element.toList = trim line ∨
    ∃ before after, trim line = before ++ separator :: after ∧ separator ∉ before ∧
      element.toList = trim before
  nonempty : element ≠ ""
  trimmed : trim element.toList = element.toList
  separator : separator ∉ element.toList

/-- The first line that says something and begins with a separator, but for blanks in front of it,
has a given number. -/
def FirstLeading (separator : Char) (content : String) (number : Nat) : Prop :=
  (∃ line, DataLine content number line ∧ (trim line).head? = some separator) ∧
    ∀ earlier line, DataLine content earlier line → earlier < number →
      (trim line).head? ≠ some separator

theorem dataLines_dataLines (content : String) : DataLines content (dataLines content) :=
  ⟨fun _ _ => mem_dataLines_iff, pairwise_dataLines content⟩

/-! ## Single lines -/

theorem elementOf?_wholeLine (h : trim line ≠ []) :
    elementOf? { naming with listMode := .wholeLine } line = some (String.ofList (trim line)) := by
  have hNonempty : (trim line).isEmpty = false := by simpa using h
  simp only [elementOf?, hNonempty]
  rfl

theorem elementOf?_of_notMem (h : trim line ≠ []) (hSeparator : naming.separator ∉ trim line) :
    elementOf? { naming with listMode := .firstField } line = some (String.ofList (trim line)) := by
  have hNonempty : (trim line).isEmpty = false := by simpa using h
  simp only [elementOf?, cutAt?_eq_none_iff.mpr hSeparator, hNonempty]
  rfl

theorem elementOf?_of_append {before after : List Char}
    (h : trim line = before ++ naming.separator :: after) (hBefore : naming.separator ∉ before) :
    elementOf? { naming with listMode := .firstField } line =
      if (trimEnd before).isEmpty then none else some (String.ofList (trimEnd before)) := by
  simp only [elementOf?, h, cutAt?_append_cons hBefore]

/-- A line that says something has a first field, or it begins with a separator. The cases are where
the first separator stands: nowhere, at the beginning, or behind a character that is not blank. -/
theorem elementOf?_firstField (h : trim line ≠ []) :
    (trim line).head? = some naming.separator ∧
        elementOf? { naming with listMode := .firstField } line = none ∨
      (trim line).head? ≠ some naming.separator ∧
        ∃ element, elementOf? { naming with listMode := .firstField } line = some element ∧
          IsFirstField naming.separator line element := by
  by_cases hMem : naming.separator ∈ trim line
  · obtain ⟨before, after, hText, hBefore⟩ := List.eq_append_cons_of_mem hMem
    have hElement := elementOf?_of_append hText hBefore
    cases before with
    | nil =>
      refine .inl ⟨?_, hElement⟩
      rw [hText]
      rfl
    | cons c before =>
      have hc : isBlank c = false := isBlank_of_trim_eq_cons hText
      have hTrim : trimEnd (c :: before) = trim (c :: before) := (trim_cons hc before).symm
      rw [hTrim, trim_cons hc, trimEnd_cons hc] at hElement
      have hField : (String.ofList (c :: trimEnd before)).toList = trim (c :: before) := by
        rw [String.toList_ofList, trim_cons hc, trimEnd_cons hc]
      refine .inr ⟨?_, _, hElement, .inr ⟨c :: before, after, hText, hBefore, hField⟩, ?_, ?_, ?_⟩
      · rw [hText, List.cons_append, List.head?_cons, Ne, Option.some.injEq]
        rintro rfl
        exact hBefore List.mem_cons_self
      · intro hEmpty
        rw [hEmpty, trim_cons hc, trimEnd_cons hc] at hField
        cases hField
      · rw [hField, trim_trim]
      · rw [hField]
        exact fun hIn => hBefore ((trim_isInfix _).subset hIn)
  · have hField : (String.ofList (trim line)).toList = trim line := String.toList_ofList
    refine .inr ⟨fun hHead => hMem (List.mem_of_head? hHead), _, elementOf?_of_notMem h hMem,
      .inl ⟨hMem, hField⟩, ?_, ?_, ?_⟩
    · intro hEmpty
      rw [hEmpty] at hField
      exact h hField.symm
    · rw [hField, trim_trim]
    · rwa [hField]

theorem elementOf?_eq_none_iff (h : trim line ≠ []) :
    elementOf? { naming with listMode := .firstField } line = none ↔
      (trim line).head? = some naming.separator := by
  obtain ⟨hHead, hNone⟩ | ⟨hHead, element, hElement, -⟩ := elementOf?_firstField h
  · exact iff_of_true hNone hHead
  · exact iff_of_false (by simp [hElement]) hHead

theorem isFirstField_of_elementOf? (h : trim line ≠ []) {element : String}
    (hElement : elementOf? { naming with listMode := .firstField } line = some element) :
    IsFirstField naming.separator line element := by
  obtain ⟨-, hNone⟩ | ⟨-, other, hOther, hField⟩ := elementOf?_firstField h
  · rw [hNone] at hElement
    cases hElement
  · rw [hElement, Option.some.injEq] at hOther
    exact hOther ▸ hField

/-! ## Whole lists -/

theorem trim_ne_nil_of_mem {lineAt : Nat × List Char} (h : lineAt ∈ dataLines content) :
    trim lineAt.2 ≠ [] :=
  (mem_dataLines_iff.mp h).2.1

theorem parseList_wholeLine (naming : Naming) (content : String) :
    parseList { naming with listMode := .wholeLine } content =
      .ok ((dataLines content).map fun line => String.ofList (trim line.2)) :=
  readLines_of_forall (f := fun line => String.ofList (trim line)) fun _ hLine =>
    elementOf?_wholeLine (trim_ne_nil_of_mem hLine)

theorem parseList_firstField_eq_error_iff {number : Nat} :
    parseList { naming with listMode := .firstField } content = .error number ↔
      FirstLeading naming.separator content number := by
  rw [parseList, readLines_eq_error_iff_of_pairwise (pairwise_dataLines content), FirstLeading]
  simp only [mem_dataLines_iff]
  refine and_congr (exists_congr fun line => and_congr_right fun hLine => ?_)
    (forall₂_congr fun earlier line => forall₂_congr fun hLine _ => not_congr ?_)
  · exact elementOf?_eq_none_iff hLine.2.1
  · exact elementOf?_eq_none_iff hLine.2.1

theorem exists_parseList_firstField_iff :
    (∃ elements, parseList { naming with listMode := .firstField } content = .ok elements) ↔
      ∀ number line, DataLine content number line →
        (trim line).head? ≠ some naming.separator := by
  rw [parseList, readLines_isOk_iff]
  simp only [Prod.forall, mem_dataLines_iff]
  refine forall₃_congr fun number line hLine => ?_
  rw [← Option.ne_none_iff_exists']
  exact not_congr (elementOf?_eq_none_iff hLine.2.1)

theorem forall₂_of_parseList {elements : List String}
    (h : parseList { naming with listMode := .firstField } content = .ok elements) :
    List.Forall₂ (fun line element => IsFirstField naming.separator line.2 element)
      (dataLines content) elements := by
  have hBoth := (List.forall₂_and_left (dataLines content) elements).mpr
    ⟨fun _ hLine => trim_ne_nil_of_mem hLine, readLines_eq_ok_iff.mp h⟩
  exact hBoth.imp fun line element hElement => isFirstField_of_elementOf? hElement.1 hElement.2

/-- As whole lines a list is always read, as its lines without their blank ends. As first fields it
is refused exactly if a line begins with a separator, and the fault names the first such line; else
each line gives its first field. Where no line has a separator, the modes read the same. -/
theorem parseList_meaning (naming : Naming) (content : String) :
    ∃ lines, DataLines content lines ∧
      parseList { naming with listMode := .wholeLine } content =
        .ok (lines.map fun line => String.ofList (trim line.2)) ∧
      (∀ number, parseList { naming with listMode := .firstField } content = .error number ↔
        FirstLeading naming.separator content number) ∧
      ((∃ elements, parseList { naming with listMode := .firstField } content = .ok elements) ↔
        ∀ number line, DataLine content number line →
          (trim line).head? ≠ some naming.separator) ∧
      (∀ elements, parseList { naming with listMode := .firstField } content = .ok elements →
        List.Forall₂ (fun line element => IsFirstField naming.separator line.2 element)
          lines elements) ∧
      ((∀ number line, DataLine content number line → naming.separator ∉ trim line) →
        parseList { naming with listMode := .firstField } content =
          parseList { naming with listMode := .wholeLine } content) ∧
      ∀ (tree : Tree) (file : Path), tree.readText file = .ok content →
        readList naming tree file = (parseList naming content).mapError (.malformedRow file) := by
  refine ⟨dataLines content, dataLines_dataLines content, parseList_wholeLine naming content,
    fun number => parseList_firstField_eq_error_iff, exists_parseList_firstField_iff,
    fun elements => forall₂_of_parseList, fun hNone => ?_,
    fun tree file hText => read_of_readText hText _⟩
  rw [parseList_wholeLine, parseList]
  refine readLines_of_forall (f := fun line => String.ofList (trim line)) fun line hLine => ?_
  exact elementOf?_of_notMem (trim_ne_nil_of_mem hLine)
    (hNone line.1 line.2 (mem_dataLines_iff.mp hLine))

/-- Colours, some with more fields, a comment and a blank line. -/
def colours : String := "# name , code\nred , #f00\n\n  green\n"

/-- The colours as a file. -/
def coloursTree : Tree where
  entries := [(["colours.csv"], .file (.text colours))]

/-- The first fields of the colours. A line that begins with a separator behind blanks is told by
its number, and a separator that is a blank at the end of a line parts nothing. -/
theorem parseList_colours :
    (∃ lines, DataLines colours lines ∧
      List.Forall₂ (fun line element => IsFirstField ',' line.2 element) lines
        ["red", "green"]) ∧
      readList {} coloursTree ⟨"colours.csv"⟩ = .ok ["red", "green"] ∧
      FirstLeading ',' "a\n  ,b\n" 2 ∧
      parseList { separator := '\t' } "red\t\n" =
        parseList { separator := '\t', listMode := .wholeLine } "red\t\n" := by
  obtain ⟨lines, hLines, -, -, -, hFields, -, hFile⟩ := parseList_meaning {} colours
  obtain ⟨-, -, -, hLeading, -⟩ := parseList_meaning {} "a\n  ,b\n"
  obtain ⟨-, -, -, -, -, -, hModes, -⟩ := parseList_meaning { separator := '\t' } "red\t\n"
  have hParse : parseList {} colours = .ok ["red", "green"] := by decide
  have hContent : coloursTree.readText ⟨"colours.csv"⟩ = .ok colours := by decide
  have hNone : ∀ lineAt ∈ dataLines "red\t\n", '\t' ∉ trim lineAt.2 := by decide
  have hRead := hFile _ _ hContent
  rw [hParse] at hRead
  exact ⟨⟨lines, hLines, hFields _ hParse⟩, hRead, (hLeading 2).mp (by decide),
    hModes fun number line hLine => hNone (number, line) (mem_dataLines_iff.mpr hLine)⟩

end ResourceTables.Table
