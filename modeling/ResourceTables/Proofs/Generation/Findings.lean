import ResourceTables.Checking
import ResourceTables.Proofs.Checked
import ResourceTables.Proofs.Generation.Turns
import ResourceTables.Proofs.Tree.Unreadable

/-!
# Findings of a check

What a check finds about a definition, and what a turn of a run makes of it: the definition is
refused, or its file is there, or it is out of date.

## Main definitions

* `Compiler.Settled`: a definition whose file is there.
-/

namespace ResourceTables

variable {compiler : Compiler} {tree : Tree} {unit : RenderedUnit}

/-- The findings of a check can be told turn by turn of a run. -/
theorem check_eq (compiler : Compiler) (tree : Tree) (manifest : Manifest) :
    check compiler tree manifest =
      .ofFindings ((compiler.turns tree manifest.units).map fun turn =>
        checkUnit compiler tree turn.definition turn.mode) := by
  have hUnits := map_turns compiler tree manifest.units
  rw [check]
  nth_rewrite 1 [← hUnits]
  rw [List.map_map]
  rfl

/-! ## Refused and compiled definitions -/

theorem checkUnit_of_refused {definition : Path} {mode : Mode} {fault : Fault}
    (h : compiler.compileUnit tree definition mode = .error fault) :
    checkUnit compiler tree definition mode = .failed ⟨definition, mode, fault⟩ := by
  unfold checkUnit
  rw [h]

theorem checkUnit_of_compiled {definition : Path} {mode : Mode}
    (h : compiler.compileUnit tree definition mode = .ok unit) :
    checkUnit compiler tree definition mode = match detectDrift tree unit with
      | .error fault => .failed ⟨definition, mode, fault⟩
      | .ok none => .upToDate unit.output
      | .ok (some drift) => .drifted drift := by
  unfold checkUnit
  generalize compiler.compileUnit tree definition mode = compiled at h ⊢
  subst h
  rfl

theorem Turn.outcome_of_refused {turn : Turn} {fault : Fault}
    (h : turn.compiled compiler = .error fault) :
    turn.outcome compiler = .failed ⟨turn.definition, turn.mode, fault⟩ := by
  rw [compiled] at h
  unfold outcome generateUnit
  rw [h]

/-! ## Comparing a file -/

theorem readOrEmpty_eq_ok_iff {path : Path} {text : String} :
    readOrEmpty tree path = .ok text ↔
      tree.readText path = .ok text ∨ tree.find path = .error .notFound ∧ text = "" := by
  rw [← Tree.readText_eq_notFound_iff, readOrEmpty]
  rcases tree.readText path with fault | own
  · cases fault <;> simp [eq_comm]
  · simp

theorem detectDrift_eq_none_iff : detectDrift tree unit = .ok none ↔
    tree.readText unit.output = .ok unit.content ∨
      tree.find unit.output = .error .notFound ∧ unit.content = "" := by
  rw [← readOrEmpty_eq_ok_iff]
  constructor
  · intro h
    obtain ⟨existing, hExisting, h⟩ := Checked.bind_eq_ok.mp h
    by_cases hSame : existing = unit.content
    · rw [hExisting, hSame]
    · rw [if_neg hSame] at h
      cases h
  · intro hExisting
    rw [detectDrift, hExisting]
    exact if_pos rfl

/-- A drift tells how the text that is there differs from the expected one. -/
theorem detectDrift_eq_some_iff {drift : Drift} : detectDrift tree unit = .ok (some drift) ↔
    ∃ existing, readOrEmpty tree unit.output = .ok existing ∧ existing ≠ unit.content ∧
      drift = {
        definition := unit.definition
        output := unit.output
        kind := if tree.contains unit.output then driftOf existing else .missing
        insertions := insertions (lineScript existing unit.content)
        deletions := deletions (lineScript existing unit.content)
        difference := unified unit.output.text (lineScript existing unit.content) } := by
  constructor
  · intro h
    obtain ⟨existing, hExisting, h⟩ := Checked.bind_eq_ok.mp h
    by_cases hSame : existing = unit.content
    · rw [if_pos hSame] at h
      cases h
    · rw [if_neg hSame] at h
      cases h
      exact ⟨existing, hExisting, hSame, rfl⟩
  · rintro ⟨existing, hExisting, hDiffers, rfl⟩
    rw [detectDrift, hExisting]
    exact if_neg hDiffers

theorem names_of_detectDrift {drift : Drift} (h : detectDrift tree unit = .ok (some drift)) :
    drift.definition = unit.definition ∧ drift.output = unit.output := by
  obtain ⟨existing, -, -, rfl⟩ := detectDrift_eq_some_iff.mp h
  exact ⟨rfl, rfl⟩

/-- A comparison fails where a file cannot be read for another reason than that nothing is found. -/
theorem detectDrift_eq_error_iff {fault : Fault} : detectDrift tree unit = .error fault ↔
    ∃ reason, reason ≠ .notFound ∧ tree.readText unit.output = .error reason ∧
      fault = .tree unit.output reason := by
  constructor
  · intro h
    rcases Checked.bind_eq_error.mp h with hExisting | ⟨existing, -, h⟩
    · rw [readOrEmpty] at hExisting
      split at hExisting
      · cases hExisting
      · cases hExisting
      · next reason hFound hText =>
        exact ⟨reason, hFound, hText, (Except.error.inj hExisting).symm⟩
    · split at h <;> cases h
  · rintro ⟨reason, hFound, hText, rfl⟩
    have hExisting : readOrEmpty tree unit.output = .error (.tree unit.output reason) := by
      rw [readOrEmpty, hText]
      cases reason <;> first | rfl | exact absurd rfl hFound
    rw [detectDrift, hExisting]
    rfl

/-! ## Files that are there -/

/-- A definition that is compiled to a file which is there. -/
structure Compiler.Settled (compiler : Compiler) (tree : Tree) (unit : Path × Mode)
    (rendered : RenderedUnit) : Prop where
  compiled : compiler.compileUnit tree unit.1 unit.2 = .ok rendered
  current : tree.readText rendered.output = .ok rendered.content

namespace Compiler.Settled

variable {unit : Path × Mode} {rendered : RenderedUnit}

theorem generateUnit_eq (h : compiler.Settled tree unit rendered) :
    generateUnit compiler tree unit.1 unit.2 = (tree, .unchanged rendered.output) := by
  have hWrite : writeUnit tree rendered = (tree, .ok false) := by
    refine if_pos ?_
    rw [h.current]
    rfl
  unfold generateUnit
  rw [h.compiled]
  dsimp only
  rw [hWrite]

theorem checkUnit_eq (h : compiler.Settled tree unit rendered) :
    checkUnit compiler tree unit.1 unit.2 = .upToDate rendered.output := by
  rw [checkUnit_of_compiled h.compiled, detectDrift_eq_none_iff.mpr (.inl h.current)]

end Compiler.Settled

/-! ## Files that are out of date -/

/-- A text that is not the expected one has drifted: the file is missing, or of the kind that its
text tells. -/
theorem exists_drift {existing : String}
    (hExisting : readOrEmpty tree unit.output = .ok existing) (hDiffers : existing ≠ unit.content) :
    ∃ drift : Drift, drift.definition = unit.definition ∧ drift.output = unit.output ∧
      drift.kind = (if tree.contains unit.output then driftOf existing else .missing) ∧
      detectDrift tree unit = .ok (some drift) := by
  exact ⟨_, rfl, rfl, rfl, detectDrift_eq_some_iff.mpr ⟨existing, hExisting, hDiffers, rfl⟩⟩

/-- A file that can be read has drifted if it does not hold the expected content, and its text tells
how. -/
theorem exists_drift_of_readText {existing : String}
    (hText : tree.readText unit.output = .ok existing) (hDiffers : existing ≠ unit.content) :
    ∃ drift : Drift, drift.output = unit.output ∧ drift.kind = driftOf existing ∧
      detectDrift tree unit = .ok (some drift) := by
  have hThere : tree.contains unit.output = true := by
    rw [Tree.contains, Tree.readText_eq_ok_iff.mp hText]
    rfl
  have hExisting : readOrEmpty tree unit.output = .ok existing := by
    rw [readOrEmpty, hText]
  obtain ⟨drift, -, hOutput, hKind, hFound⟩ := exists_drift hExisting hDiffers
  rw [if_pos hThere] at hKind
  exact ⟨drift, hOutput, hKind, hFound⟩

/-- What is not found is missing, unless nothing should be in it. -/
theorem exists_drift_of_notFound (hFind : tree.find unit.output = .error .notFound)
    (hContent : unit.content ≠ "") :
    ∃ drift : Drift, detectDrift tree unit = .ok (some drift) ∧ drift.output = unit.output ∧
      drift.kind = .missing := by
  have hAbsent : tree.contains unit.output = false := by
    rw [Tree.contains, hFind]
    rfl
  obtain ⟨drift, -, hOutput, hKind, hDrift⟩ :=
    exists_drift (readOrEmpty_eq_ok_iff.mpr (.inr ⟨hFind, rfl⟩)) (Ne.symm hContent)
  rw [hAbsent] at hKind
  exact ⟨drift, hDrift, hOutput, hKind⟩

theorem definition_of_compileUnit {definition : Path} {mode : Mode}
    (h : compiler.compileUnit tree definition mode = .ok unit) : unit.definition = definition := by
  obtain ⟨generated, -, hRendered⟩ := Checked.bind_eq_ok.mp h
  cases hRendered
  rfl

/-- A check that does not find a file up to date finds that it has drifted, or fails to read it. -/
theorem checkUnit_of_outdated {definition : Path} {mode : Mode}
    (hCompiled : compiler.compileUnit tree definition mode = .ok unit)
    (hContent : unit.content ≠ "") (hOutdated : tree.readText unit.output ≠ .ok unit.content) :
    (∃ drift : Drift, drift.definition = definition ∧ drift.output = unit.output ∧
        checkUnit compiler tree definition mode = .drifted drift) ∨
      ∃ path fault, checkUnit compiler tree definition mode =
        .failed ⟨definition, mode, .tree path fault⟩ := by
  rw [← definition_of_compileUnit hCompiled] at *
  rw [checkUnit_of_compiled hCompiled]
  cases hDrift : detectDrift tree unit with
  | error fault =>
    obtain ⟨reason, -, -, rfl⟩ := detectDrift_eq_error_iff.mp hDrift
    exact .inr ⟨_, _, rfl⟩
  | ok found =>
    cases found with
    | none =>
      rcases detectDrift_eq_none_iff.mp hDrift with hCurrent | ⟨-, hEmpty⟩
      · exact absurd hCurrent hOutdated
      · exact absurd hEmpty hContent
    | some drift =>
      obtain ⟨hDefinition, hOutput⟩ := names_of_detectDrift hDrift
      exact .inl ⟨drift, hDefinition, hOutput, rfl⟩

/-- A check that can read a file finds it up to date, or out of date with the kind that its text
tells. -/
theorem checkUnit_of_readText {definition : Path} {mode : Mode}
    {existing : String} (hCompiled : compiler.compileUnit tree definition mode = .ok unit)
    (hText : tree.readText unit.output = .ok existing) :
    checkUnit compiler tree definition mode = .upToDate unit.output ∨
      ∃ drift : Drift, checkUnit compiler tree definition mode = .drifted drift ∧
        drift.output = unit.output ∧ drift.kind = driftOf existing := by
  rw [checkUnit_of_compiled hCompiled]
  by_cases hCurrent : existing = unit.content
  · rw [detectDrift_eq_none_iff.mpr (.inl (hCurrent ▸ hText))]
    exact .inl rfl
  · obtain ⟨drift, hOutput, hKind, hFound⟩ := exists_drift_of_readText hText hCurrent
    rw [hFound]
    exact .inr ⟨drift, rfl, hOutput, hKind⟩

/-- A turn whose file is not there yet writes it, or fails at the tree. -/
theorem Turn.outcome_of_outdated {turn : Turn}
    (hCompiled : turn.compiled compiler = .ok unit)
    (hOutdated : turn.before.readText unit.output ≠ .ok unit.content) :
    turn.outcome compiler = .written unit.output ∨ ∃ path fault,
      turn.outcome compiler = .failed ⟨turn.definition, turn.mode, .tree path fault⟩ := by
  have hCourse := turn.course compiler
  generalize turn.after compiler = after, turn.outcome compiler = outcome at hCourse
  cases hCourse with
  | refused hRefused => cases hRefused.symm.trans hCompiled
  | unchanged hOwn hCurrent =>
    cases hOwn.symm.trans hCompiled
    exact absurd hCurrent hOutdated
  | unprepared _ _ hPrepared =>
    obtain ⟨path, reason, rfl⟩ := exists_tree_of_prepareDirectory hPrepared
    exact .inr ⟨path, reason, rfl⟩
  | unwritten _ _ _ _ => exact .inr ⟨_, _, rfl⟩
  | written hOwn _ _ _ =>
    cases hOwn.symm.trans hCompiled
    exact .inl rfl

end ResourceTables
