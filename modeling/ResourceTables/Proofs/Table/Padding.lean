import Mathlib.Algebra.GroupWithZero.Nat
import ResourceTables.Proofs.Table.Listing

/-!
# Lines that say nothing

Blank lines and comments can be put in between the lines of a table or a list, in front of them and
behind them. What is read stays the same, and so does the line that is found malformed; only its
number counts the lines that were put in front of it.

## Main definitions

* `Table.Padded`: a text with lines that say nothing put in between its own.
* `Table.movedNumber`: the number that a line has then.

## Main results

* `Table.exists_padded_iff`: lines can be put in if all lines of a text end.
* `Table.numberedLines_of_padded`: the lines that say something are the same, with moved numbers.
* `Table.parse_padded`: so are the records and the elements that are read, and the faults.
-/

namespace ResourceTables.Table

open Text

variable {content padded : List Char} {gaps : List Nat}

/-- A text `padded` has the lines of `content`, all of which end, and lines that say nothing in
between. The numbers of these are `gaps`: first of those in front of the first line of `content`,
then of those in front of its second one, and so on to those behind its last one. The very last line
need not end. A carriage return in front of a line feed is part of the line here, so lines may end
either way. -/
inductive Padded : List Char → List Nat → List Char → Prop where
  | nil : Padded [] [0] []
  | last {line : List Char} (hSkipped : Skipped line) (hLine : '\n' ∉ line) (hText : line ≠ []) :
      Padded [] [1] line
  | skip {line content padded : List Char} {gap : Nat} {gaps : List Nat} (hSkipped : Skipped line)
      (hLine : '\n' ∉ line) (rest : Padded content (gap :: gaps) padded) :
      Padded content ((gap + 1) :: gaps) (line ++ '\n' :: padded)
  | keep {line content padded : List Char} {gaps : List Nat} (hLine : '\n' ∉ line)
      (rest : Padded content gaps padded) :
      Padded (line ++ '\n' :: content) (0 :: gaps) (line ++ '\n' :: padded)

/-- The number of a line behind as many lines more as there are in the gaps up to it. -/
def movedNumber (gaps : List Nat) (number : Nat) : Nat :=
  number + (gaps.take number).sum

/-- Lines can be put in between the lines of a text exactly if all of its lines end. -/
theorem exists_padded_iff :
    (∃ gaps padded, Padded content gaps padded) ↔ ∀ c ∈ content.getLast?, c = '\n' := by
  constructor
  · rintro ⟨gaps, padded, h⟩
    induction h with
    | nil => simp
    | last => simp
    | skip _ _ _ ih => exact ih
    | @keep line content padded gaps _ _ ih =>
      rw [List.getLast?_append_of_ne_nil _ (List.cons_ne_nil _ _), List.getLast?_cons]
      cases hLast : content.getLast? with
      | none => simp
      | some c => simpa [hLast] using ih
  · intro hEnd
    induction hLength : content.length using Nat.strongRecOn generalizing content with
    | ind length ih =>
      by_cases hText : content = []
      · exact ⟨[0], [], hText ▸ .nil⟩
      · -- The first line ends, since the last character is a line feed.
        obtain ⟨c, hLast⟩ := Option.ne_none_iff_exists'.mp (mt List.getLast?_eq_none_iff.mp hText)
        have hFeed : '\n' ∈ content := hEnd c hLast ▸ List.mem_of_getLast? hLast
        obtain ⟨line, rest, rfl, hLine⟩ := List.eq_append_cons_of_mem hFeed
        have hRest : ∀ c ∈ rest.getLast?, c = '\n' := by
          intro c hc
          refine hEnd c ?_
          rw [List.getLast?_append_of_ne_nil _ (List.cons_ne_nil _ _), List.getLast?_cons, hc]
          rfl
        have hShorter : rest.length < length := by
          rw [← hLength, List.length_append, List.length_cons]
          omega
        obtain ⟨gaps, padded, hPadded⟩ := ih _ hShorter hRest rfl
        exact ⟨_, _, .keep hLine hPadded⟩

/-! ## Lines that say something -/

theorem numberedLines_of_last {line : List Char} (hSkipped : Skipped line) (hLine : '\n' ∉ line)
    (hText : line ≠ []) (start : Nat) : numberedLines start line = [] := by
  rw [numberedLines, physicalLines_of_notMem hLine hText]
  simp [hSkipped.isData]

theorem le_of_mem_numberedLines {start number : Nat} {line : List Char}
    (h : (number, line) ∈ numberedLines start content) : start ≤ number := by
  obtain ⟨⟨own, place⟩, hMem, hEq⟩ := List.mem_map.mp (List.mem_filter.mp h).1
  obtain ⟨rfl, rfl⟩ := Prod.mk.inj hEq
  exact List.le_snd_of_mem_zipIdx hMem

/-- The lines of a text that say something are those of the padded text, with other numbers. The
induction is on the padding; `offset` counts the lines that were put in so far, and the number of
the first line changes with each step. -/
theorem numberedLines_of_padded (h : Padded content gaps padded) (start offset : Nat) :
    numberedLines (start + offset) padded =
      (numberedLines start content).map fun line =>
        (line.1 + offset + (gaps.take (line.1 + 1 - start)).sum, line.2) := by
  induction h generalizing start offset with
  | nil => rfl
  | last hSkipped hLine hText => exact numberedLines_of_last hSkipped hLine hText _
  | @skip line content padded gap gaps hSkipped hLine _ ih =>
    rw [numberedLines_skip hSkipped hLine, Nat.add_assoc, ih]
    refine List.map_congr_left fun line hMem => Prod.ext ?_ rfl
    obtain ⟨count, hCount⟩ : ∃ count, line.1 + 1 - start = count + 1 :=
      ⟨line.1 - start, by have := le_of_mem_numberedLines hMem; omega⟩
    simp only [hCount, List.take_succ_cons, List.sum_cons]
    omega
  | @keep line content padded gaps hLine _ ih =>
    have hRest : numberedLines (start + offset + 1) padded =
        (numberedLines (start + 1) content).map fun line =>
          (line.1 + offset + ((0 :: gaps).take (line.1 + 1 - start)).sum, line.2) := by
      rw [Nat.add_right_comm, ih]
      refine List.map_congr_left fun line hMem => Prod.ext ?_ rfl
      have hCount : line.1 + 1 - start = (line.1 + 1 - (start + 1)) + 1 := by
        have := le_of_mem_numberedLines hMem
        omega
      simp only [hCount, List.take_succ_cons, List.sum_cons, Nat.zero_add]
    rw [numberedLines_append _ hLine, numberedLines_append _ hLine, hRest]
    split
    · simp
    · rfl

/-! ## What is read -/

/-- Other numbers of the lines change nothing but the number that a fault tells. -/
theorem readLines_map_number {α : Type} (read? : List Char → Option α) (f : Nat → Nat)
    (lines : List (Nat × List Char)) :
    readLines read? (lines.map fun line => (f line.1, line.2)) =
      (readLines read? lines).mapError f := by
  induction lines with
  | nil => rfl
  | cons line lines ih =>
    rw [List.map_cons, readLines, readLines, ih]
    cases read? line.2 with
    | none => rfl
    | some item => cases readLines read? lines <;> rfl

theorem readLines_dataLines_of_padded {content padded : String}
    (h : Padded content.toList gaps padded.toList) {α : Type} (read? : List Char → Option α) :
    readLines read? (dataLines padded) =
      (readLines read? (dataLines content)).mapError (movedNumber gaps) := by
  rw [← readLines_map_number]
  exact congrArg (readLines read?) (numberedLines_of_padded h 1 0)

/-- Lines that say nothing can be put in between the lines of any text whose lines all end. Records
and elements are then read as before, or the same line is malformed, under the number that counts
the lines in front of it that were put in; a file tells it in its fault. -/
theorem parse_padded (naming : Naming) (content : String) :
    ((∃ gaps padded, Padded content.toList gaps padded) ↔
        ∀ c ∈ content.toList.getLast?, c = '\n') ∧
      ∀ (gaps : List Nat) (padded : String), Padded content.toList gaps padded.toList →
        parseRecords naming padded = (parseRecords naming content).mapError (movedNumber gaps) ∧
        parseList naming padded = (parseList naming content).mapError (movedNumber gaps) ∧
        ∀ (tree : Tree) (file : Path), tree.readText file = .ok padded →
          readRecords naming tree file = (parseRecords naming content).mapError
            (fun number => .malformedRow file (movedNumber gaps number)) ∧
          readList naming tree file = (parseList naming content).mapError
            (fun number => .malformedRow file (movedNumber gaps number)) := by
  refine ⟨exists_padded_iff, fun gaps padded h => ?_⟩
  have hRecords : parseRecords naming padded =
      (parseRecords naming content).mapError (movedNumber gaps) := by
    rw [parseRecords_eq, parseRecords_eq, readLines_dataLines_of_padded h]
    cases readLines (recordOf? naming.separator) (dataLines content) <;> rfl
  have hList : parseList naming padded =
      (parseList naming content).mapError (movedNumber gaps) :=
    readLines_dataLines_of_padded h _
  refine ⟨hRecords, hList, fun tree file hText => ⟨?_, ?_⟩⟩
  · rw [readRecords, read_of_readText hText, hRecords]
    cases parseRecords naming content <;> rfl
  · rw [readList, read_of_readText hText, hList]
    cases parseList naming content <;> rfl

/-- Two rows and a line that is none. -/
def brokenTable : String := "a,1\r\nb,2\nbroken\n"

/-- The same lines with comments and blank lines in between. -/
def paddedTable : String := "# key,value\r\n\na,1\r\n  # note\nb,2\n\t\r\nbroken\n#"

theorem padded_brokenTable : Padded brokenTable.toList [2, 1, 1, 1] paddedTable.toList := by
  have hBlank : ∀ line, line.all isBlank = true → Skipped line := fun _ hLine =>
    .inl (List.all_eq_true.mp hLine)
  have hComment : ∀ front comment, front.all isBlank = true → Skipped (front ++ '#' :: comment) :=
    fun front comment hFront => .inr ⟨front, comment, rfl, List.all_eq_true.mp hFront⟩
  have hContent : brokenTable.toList =
      "a,1\r".toList ++ '\n' :: ("b,2".toList ++ '\n' :: ("broken".toList ++ '\n' :: [])) := by
    decide
  have hPadded : paddedTable.toList =
      '#' :: " key,value\r".toList ++ '\n' :: ([] ++ '\n' :: ("a,1\r".toList ++ '\n' ::
        ("  # note".toList ++ '\n' :: ("b,2".toList ++ '\n' :: ("\t\r".toList ++ '\n' ::
          ("broken".toList ++ '\n' :: ['#'])))))) := by
    decide
  rw [hContent, hPadded]
  refine .skip (hComment [] _ rfl) (by decide) (.skip (hBlank _ rfl) (by decide) ?_)
  refine .keep (by decide) (.skip (hComment "  ".toList _ (by decide)) (by decide) ?_)
  refine .keep (by decide) (.skip (hBlank _ (by decide)) (by decide) ?_)
  exact .keep (by decide) (.last (hComment [] _ rfl) (by decide) (by decide))

/-- The padded lines as a file. -/
def paddedTree : Tree where
  entries := [(["table.csv"], .file (.text paddedTable))]

/-- The line that is no row is the third one, and the seventh one behind four lines more. As a list
both texts have the same elements. -/
theorem parse_paddedTable :
    Padded brokenTable.toList [2, 1, 1, 1] paddedTable.toList ∧
      parseRecords {} brokenTable = .error 3 ∧ parseRecords {} paddedTable = .error 7 ∧
      readRecords {} paddedTree ⟨"table.csv"⟩ = .error (.malformedRow ⟨"table.csv"⟩ 7) ∧
      parseList {} paddedTable = .ok ["a", "b", "broken"] := by
  obtain ⟨hRecords, hList, hFile⟩ :=
    (parse_padded {} brokenTable).2 _ paddedTable padded_brokenTable
  have hContent : paddedTree.readText ⟨"table.csv"⟩ = .ok paddedTable := by decide
  have hBroken : parseRecords {} brokenTable = .error 3 := by decide
  have hElements : parseList {} brokenTable = .ok ["a", "b", "broken"] := by decide
  have hRead := (hFile _ _ hContent).1
  rw [hBroken] at hRecords hRead
  rw [hElements] at hList
  exact ⟨padded_brokenTable, hBroken, hRecords, hRead, hList⟩

end ResourceTables.Table
