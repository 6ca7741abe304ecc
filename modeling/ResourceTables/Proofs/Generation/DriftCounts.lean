import ResourceTables.Proofs.Difference.Slides
import ResourceTables.Proofs.Generation.Findings

/-!
# Counts of a drift

A file that has drifted is compared line by line with what it should hold, and the lines that come
and go are counted. Terminated lines lose nothing of a text, so texts that differ have lines that
differ, be it only in a line end, and the counts are never both zero. They lead from the number of
lines that the file has to the number that it should have; all lines of a missing file come.

## Main definitions

* `lineCount`: the number of lines of a text.

## Main results

* `counts_of_transforms`: the counts of any script between the lines of two texts add up.
* `counts_of_detectDrift`: the counts of a drift add up.
-/

namespace ResourceTables

open Text

variable {tree : Tree} {unit : RenderedUnit}

/-- The number of lines of a text; what is left after the last line end is a line, too. -/
def lineCount (text : String) : Nat :=
  (terminatedLines text.toList).length

/-- Texts with the same lines are the same. -/
theorem eq_of_terminatedLines {first second : String}
    (h : terminatedLines first.toList = terminatedLines second.toList) : first = second := by
  have hFlat := congrArg List.flatten h
  rw [flatten_terminatedLines, flatten_terminatedLines] at hFlat
  exact String.toList_inj.mp hFlat

theorem transforms_lineScript (existing expected : String) :
    Transforms (lineScript existing expected) (terminatedLines existing.toList)
      (terminatedLines expected.toList) :=
  transforms_editScript _ _

theorem driftOf_ne_missing (existing : String) : driftOf existing ≠ .missing := by
  rw [driftOf]
  split
  · split <;> exact nofun
  · exact nofun

/-- Where nothing is, there is no text. -/
theorem eq_empty_of_readOrEmpty {path : Path} {existing : String}
    (h : readOrEmpty tree path = .ok existing) (hAbsent : tree.contains path = false) :
    existing = "" := by
  rcases readOrEmpty_eq_ok_iff.mp h with hText | ⟨-, hEmpty⟩
  · rw [Tree.contains, Tree.readText_eq_ok_iff.mp hText] at hAbsent
    cases hAbsent
  · exact hEmpty

/-- The counts of any script from the lines of a text to those of another, however it was found.
They are not both zero where the texts differ, they lead from the one number of lines to the other,
and of an empty text nothing goes and all other lines come. -/
theorem counts_of_transforms {script : List (Edit (List Char))} {existing expected : String}
    (h : Transforms script (terminatedLines existing.toList) (terminatedLines expected.toList)) :
    (existing ≠ expected → 1 ≤ insertions script + deletions script) ∧
      deletions script ≤ lineCount existing ∧
      lineCount expected = lineCount existing - deletions script + insertions script ∧
      (existing = "" → deletions script = 0 ∧ insertions script = lineCount expected) := by
  have hDeletions : deletions script ≤ lineCount existing := h.deletions_le_length
  have hLines : lineCount expected = lineCount existing - deletions script + insertions script :=
    h.length_eq
  refine ⟨fun hDiffers => h.one_le_counts (mt eq_of_terminatedLines hDiffers), hDeletions, hLines,
    fun hEmpty => ?_⟩
  have hNoLines : lineCount existing = 0 := by
    rw [hEmpty]
    rfl
  omega

/-- The counts of a drift are those of a script from the lines of the file on disk to the expected
lines. They are not both zero, they lead from the one number of lines to the other, and of a missing
file nothing goes and all expected lines come. -/
theorem counts_of_detectDrift {drift : Drift} (h : detectDrift tree unit = .ok (some drift)) :
    ∃ existing script, readOrEmpty tree unit.output = .ok existing ∧
      Transforms script (terminatedLines existing.toList) (terminatedLines unit.content.toList) ∧
      drift.insertions = insertions script ∧ drift.deletions = deletions script ∧
      drift.difference = unified unit.output.text script ∧
      1 ≤ drift.insertions + drift.deletions ∧
      drift.deletions ≤ lineCount existing ∧
      lineCount unit.content = lineCount existing - drift.deletions + drift.insertions ∧
      (drift.kind = .missing →
        drift.deletions = 0 ∧ drift.insertions = lineCount unit.content) := by
  obtain ⟨existing, hExisting, hDiffers, rfl⟩ := detectDrift_eq_some_iff.mp h
  have hScript := transforms_lineScript existing unit.content
  obtain ⟨hCounted, hDeletions, hLines, hMissing⟩ := counts_of_transforms hScript
  refine ⟨existing, lineScript existing unit.content, hExisting, hScript, rfl, rfl, rfl,
    hCounted hDiffers, hDeletions, hLines, fun hKind => hMissing ?_⟩
  have hAbsent : tree.contains unit.output = false := by
    rw [Bool.eq_false_iff]
    exact fun hThere => driftOf_ne_missing existing ((if_pos hThere).symm.trans hKind)
  exact eq_empty_of_readOrEmpty hExisting hAbsent

/-- A file whose lines differ from the expected ones in their ends alone. -/
def unevenEndsTree : Tree where
  entries := [(["labels.txt"], .file (.text "K\r\nL"))]

/-- A file of two lines. -/
def labelsUnit : RenderedUnit where
  definition := ⟨"labels.json"⟩
  output := ⟨"labels.txt"⟩
  content := "K\nL\n"

/-- Of lines that differ in their ends alone as many go as come, and of a file that is not there
nothing goes. -/
theorem counts_of_detectDrift_labels :
    (∃ drift : Drift, detectDrift unevenEndsTree labelsUnit = .ok (some drift) ∧
      1 ≤ drift.insertions ∧ drift.insertions = drift.deletions) ∧
    ∃ drift : Drift, detectDrift {} labelsUnit = .ok (some drift) ∧
      drift.deletions = 0 ∧ drift.insertions = 2 := by
  constructor
  · have hText : unevenEndsTree.readText labelsUnit.output = .ok "K\r\nL" := by rfl
    obtain ⟨drift, -, -, hDrift⟩ := exists_drift_of_readText hText (by decide)
    obtain ⟨existing, script, hExisting, -, -, -, -, hCounted, hLe, hLines, -⟩ :=
      counts_of_detectDrift hDrift
    obtain rfl : "K\r\nL" = existing :=
      Except.ok.inj ((readOrEmpty_eq_ok_iff.mpr (.inl hText)).symm.trans hExisting)
    have hBefore : lineCount "K\r\nL" = 2 := by decide
    have hAfter : lineCount labelsUnit.content = 2 := by decide
    refine ⟨drift, hDrift, ?_, ?_⟩ <;> omega
  · have hAbsent : Tree.find {} labelsUnit.output = .error .notFound := by decide
    obtain ⟨drift, hDrift, -, hKind⟩ := exists_drift_of_notFound hAbsent (by decide)
    obtain ⟨existing, script, -, -, -, -, -, -, -, -, hMissing⟩ := counts_of_detectDrift hDrift
    have hAfter : lineCount labelsUnit.content = 2 := by decide
    exact ⟨drift, hDrift, (hMissing hKind).1, (hMissing hKind).2.trans hAfter⟩

end ResourceTables
