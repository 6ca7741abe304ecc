import ResourceTables.Proofs.Definition.Interference
import ResourceTables.Proofs.GeneratedModule.Lines
import ResourceTables.Proofs.Generation.Convergence
import ResourceTables.Proofs.Generation.Findings

/-!
# A check predicts a run

A check looks at all definitions on one tree, and a run takes each on the tree that the turns before
have left. Where the files of a run are below the output directory, and nothing is read from this
directory, from below it or from the way to it, the turns before change nothing that a turn looks
at: it compiles its definition as the check does. If no two definitions have one file, the turn also
finds at its output what the check finds there.

## Main definitions

* `Compiler.Confined`: a tree and definitions for which a run stays in its output directory.
* `Turn.Predicted`: a finding of a check that agrees with the outcome of a turn.
-/

namespace ResourceTables

/-- A tree and definitions for which a run stays in its output directory. -/
structure Compiler.Confined (compiler : Compiler) (tree : Tree) (units : List (Path × Mode)) :
    Prop where
  writer : compiler.writer = .source
  wellFormed : tree.WellFormed
  /-- The base directory is there. The empty path stands for the home directory. -/
  base : tree.isDirectory compiler.configuration.baseDirectory = true ∨
    compiler.configuration.baseDirectory = ⟨""⟩
  outputRoot : compiler.configuration.outputRoot.Descending
  /-- The paths of definitions, and those in definitions, are relative and do not step back. -/
  names : ∀ unit ∈ units, ∀ reading ∈ compiler.readings tree unit.1 unit.2,
    ∀ name ∈ reading.name?, name.Descending
  /-- Neither do the parts of the module path that definitions add. -/
  directories : ∀ unit ∈ units, ∀ generated,
    compiler.describeFile tree unit.1 unit.2 = .ok generated →
      ∀ segment ∈ generated.directories, (⟨segment⟩ : Path).Descending
  /-- What is read is neither in the output directory nor on the way to it. -/
  inputs : ∀ unit ∈ units, ∀ reading ∈ compiler.readings tree unit.1 unit.2,
    ¬tree.locate compiler.configuration.outputDirectory <+: tree.locate reading.path ∧
      ¬tree.locate reading.path <+: tree.locate compiler.configuration.outputDirectory
  /-- The outputs are different files. -/
  outputs : units.Pairwise fun first second =>
    ∀ own, compiler.compileUnit tree first.1 first.2 = .ok own →
      ∀ other, compiler.compileUnit tree second.1 second.2 = .ok other →
        tree.locate own.output ≠ tree.locate other.output

namespace Turn

/-- A finding of a check on a tree that agrees with the outcome of a turn: the definition is refused
by both with the same fault, or its file is up to date for both, or it is out of date for both; then
the check reports a drift and the turn has written the file, but either may fail at the tree. -/
inductive Predicted (compiler : Compiler) (tree : Tree) (turn : Turn) : Finding → Outcome → Prop
  | refused {fault : Fault}
      (hCheck : compiler.compileUnit tree turn.definition turn.mode = .error fault)
      (hTurn : turn.compiled compiler = .error fault) :
      Predicted compiler tree turn (.failed ⟨turn.definition, turn.mode, fault⟩)
        (.failed ⟨turn.definition, turn.mode, fault⟩)
  | current {unit : RenderedUnit}
      (hCheck : compiler.compileUnit tree turn.definition turn.mode = .ok unit)
      (hTurn : turn.compiled compiler = .ok unit) :
      Predicted compiler tree turn (.upToDate unit.output) (.unchanged unit.output)
  | outdated {unit : RenderedUnit} {finding : Finding} {outcome : Outcome}
      (hCheck : compiler.compileUnit tree turn.definition turn.mode = .ok unit)
      (hTurn : turn.compiled compiler = .ok unit)
      (hFinding : (∃ drift : Drift, drift.definition = turn.definition ∧
          drift.output = unit.output ∧ finding = .drifted drift) ∨
        ∃ path fault, finding = .failed ⟨turn.definition, turn.mode, .tree path fault⟩)
      (hOutcome : outcome = .written unit.output ∨
        ∃ path fault, outcome = .failed ⟨turn.definition, turn.mode, .tree path fault⟩) :
      Predicted compiler tree turn finding outcome

end Turn

variable {compiler : Compiler} {tree : Tree}

/-! ## Where the outputs are -/

/-- The name of a source file has no characters but those of words and a dot. -/
theorem notMem_fileName {definition : Definition} {naming : Naming} {generated : GeneratedModule}
    (h : describe naming definition = .ok generated) {c : Char} (hWord : isWordPart c = false)
    (hDot : c ≠ '.') : c ∉ (Writer.source.fileName generated).toList := by
  have hOther : ∀ other, isWordPart other = true → c ≠ other := by
    rintro other hOther rfl
    rw [hWord] at hOther
    cases hOther
  have hModule : c ∉ generated.moduleName.toList :=
    notMem_snakeCase (wellNamed_of_describe h).className hWord
  simp [Writer.source, hModule, hDot, hOther 'r' (by decide), hOther 's' (by decide)]

theorem isName_fileName {definition : Definition} {naming : Naming} {generated : GeneratedModule}
    (h : describe naming definition = .ok generated) :
    Tree.IsName (Writer.source.fileName generated) := by
  have hEnd : (Writer.source.fileName generated).toList.getLast? = some 's' := by
    simp [Writer.source]
  have hElse : ∀ {name : String}, name.toList.getLast? ≠ some 's' →
      Writer.source.fileName generated ≠ name := fun hName hSame => hName (hSame ▸ hEnd)
  exact
    { nonempty := hElse (by decide)
      notDot := hElse (by decide)
      notStepBack := hElse (by decide)
      noSlash := notMem_fileName h (by decide) (by decide) }

/-- The path of a source file below the output directory never steps back. -/
theorem descending_relativePath {definition : Definition} {naming : Naming}
    {generated : GeneratedModule} (h : describe naming definition = .ok generated)
    (hDirectories : ∀ segment ∈ generated.directories, (⟨segment⟩ : Path).Descending) :
    (Writer.source.relativePath generated).Descending := by
  have hEmpty : (⟨""⟩ : Path).Descending := ⟨by decide, by decide⟩
  have hName := isName_fileName h
  refine hEmpty.foldl_join ?_
  rw [List.forall_mem_append, List.forall_mem_singleton]
  exact ⟨hDirectories, Path.descending_of_notMem hName.noSlash hName.notStepBack⟩

namespace Compiler

/-- The locations of the files that definitions are compiled to. -/
def IsOutput (compiler : Compiler) (tree : Tree) (units : List (Path × Mode))
    (location : Location) : Prop :=
  ∃ unit ∈ units, ∃ own, compiler.compileUnit tree unit.1 unit.2 = .ok own ∧
    location = tree.locate own.output

/-- The locations above the files that definitions are compiled to. -/
def IsAboveOutput (compiler : Compiler) (tree : Tree) (units : List (Path × Mode))
    (location : Location) : Prop :=
  ∃ unit ∈ units, ∃ own, compiler.compileUnit tree unit.1 unit.2 = .ok own ∧
    tree.IsAbove own.output location

namespace Confined

variable {units : List (Path × Mode)} {unit : Path × Mode} {own : RenderedUnit}

theorem exists_anchors (h : compiler.Confined tree units) :
    ∃ root, tree.Anchors compiler.configuration.baseDirectory root := by
  rcases h.base with hDirectory | hEmpty
  · exact ⟨_, Tree.anchors_of_isDirectory hDirectory⟩
  · rw [hEmpty]
    exact ⟨_, h.wellFormed.anchors_origin ⟨""⟩⟩

/-- A definition is compiled to a file on a way down, below the output directory. -/
theorem exists_descendsFrom_output (h : compiler.Confined tree units) (hUnit : unit ∈ units)
    (hCompiled : compiler.compileUnit tree unit.1 unit.2 = .ok own) :
    (∃ root, tree.DescendsFrom root own.output) ∧
      tree.locate compiler.configuration.outputDirectory <+: tree.locate own.output := by
  obtain ⟨root, hRoot⟩ := h.exists_anchors
  obtain ⟨generated, hDescribed, hOwn⟩ := Checked.bind_eq_ok.mp hCompiled
  obtain ⟨definition, -, hDescribe⟩ := Checked.bind_eq_ok.mp hDescribed
  cases hOwn
  have hPath := descending_relativePath hDescribe (h.directories unit hUnit generated hDescribed)
  rw [← h.writer] at hPath
  exact ⟨⟨root, hRoot.descendsFrom_join h.outputRoot hPath⟩, Tree.prefix_locate_join hPath _⟩

/-- A definition is compiled to the same file, or refused with the same fault, when files have been
put where definitions are compiled to, and directories above them. -/
theorem compileUnit_eq (h : compiler.Confined tree units) (hUnit : unit ∈ units) {after : Tree}
    (hGrown : tree.Grows (compiler.IsOutput tree units) (compiler.IsAboveOutput tree units) after) :
    compiler.compileUnit after unit.1 unit.2 = compiler.compileUnit tree unit.1 unit.2 := by
  obtain ⟨root, hRoot⟩ := h.exists_anchors
  refine compileUnit_congr fun reading hReading => ?_
  obtain ⟨place, hPlace⟩ := exists_descendsFrom_of_mem_readings h.wellFormed hRoot hReading
    (h.names unit hUnit reading hReading)
  obtain ⟨hBelow, hAbove⟩ := h.inputs unit hUnit reading hReading
  refine Reading.sameIn_of_apart hPlace h.wellFormed hGrown ?_ ?_ hBelow hAbove
  · rintro location ⟨other, hOther, rendered, hCompiled, rfl⟩
    exact (h.exists_descendsFrom_output hOther hCompiled).2
  · rintro location hNone ⟨other, hOther, rendered, hCompiled, hLocation⟩
    obtain ⟨⟨way, hWay⟩, hOutput⟩ := h.exists_descendsFrom_output hOther hCompiled
    exact List.prefix_or_prefix_of_prefix hOutput
      (hWay.prefix_of_isAbove h.wellFormed hLocation hNone)

/-- Every turn of a run finds a tree that has grown by files that definitions are compiled to and by
directories above them. -/
theorem grows_before (h : compiler.Confined tree units) {rest : List (Path × Mode)}
    (hRest : ∀ unit ∈ rest, unit ∈ units) {middle : Tree}
    (hGrown :
      tree.Grows (compiler.IsOutput tree units) (compiler.IsAboveOutput tree units) middle) :
    ∀ turn ∈ compiler.turns middle rest, tree.Grows (compiler.IsOutput tree units)
      (compiler.IsAboveOutput tree units) turn.before := by
  induction rest generalizing middle with
  | nil => exact fun turn hTurn => absurd hTurn List.not_mem_nil
  | cons unit rest ih =>
    rw [List.forall_mem_cons] at hRest
    rw [turns_cons, List.forall_mem_cons]
    refine ⟨hGrown, ih hRest.2 (hGrown.trans ?_)⟩
    -- What has grown so far does not show, so the turn puts its file where the check expects it.
    have hSame := h.compileUnit_eq hRest.1 hGrown
    refine (Turn.grows compiler ⟨middle, unit.1, unit.2⟩).imp ?_ ?_
    · rintro location ⟨output, hWritten, rfl⟩
      obtain ⟨own, hCompiled, rfl, -⟩ := Turn.exists_of_reported (.inl hWritten)
      exact ⟨unit, hRest.1, own, hSame.symm.trans hCompiled, hGrown.locate _⟩
    · rintro location - ⟨own, hCompiled, parent, hParent, upper, hUpper, hLocation⟩
      exact ⟨unit, hRest.1, own, hSame.symm.trans hCompiled, parent, hParent, upper, hUpper,
        hLocation.trans (hGrown.locate upper)⟩

theorem mem_units {turn : Turn} (hTurn : turn ∈ compiler.turns tree units) :
    (turn.definition, turn.mode) ∈ units := by
  have hMem := List.mem_map_of_mem (f := fun turn : Turn => (turn.definition, turn.mode)) hTurn
  rwa [map_turns] at hMem

/-- Every turn of a run compiles its definition as on the tree that the run starts with. -/
theorem compiled_eq (h : compiler.Confined tree units) {turn : Turn}
    (hTurn : turn ∈ compiler.turns tree units) :
    turn.compiled compiler = compiler.compileUnit tree turn.definition turn.mode :=
  h.compileUnit_eq (mem_units hTurn) (h.grows_before (fun _ hUnit => hUnit) .refl turn hTurn)

/-- A turn finds its file as it was when the run started. -/
theorem readText_before_iff (h : compiler.Confined tree units) {turn : Turn}
    (hTurn : turn ∈ compiler.turns tree units) (hCompiled : turn.compiled compiler = .ok own)
    (text : String) :
    turn.before.readText own.output = .ok text ↔ tree.readText own.output = .ok text := by
  have hOwn := (h.compiled_eq hTurn).symm.trans hCompiled
  obtain ⟨⟨root, hRoot⟩, -⟩ := h.exists_descendsFrom_output (mem_units hTurn) hOwn
  obtain ⟨earlier, later, hTurns⟩ := List.append_of_mem hTurn
  obtain ⟨front, rest, -, hEarlier, hBefore, -⟩ := exists_of_turns_eq hTurns
  have hGrown := grows_generateUnits compiler tree front
  rw [← hBefore, ← hEarlier] at hGrown
  -- No turn before has written this file.
  have hElse : ¬∃ other ∈ earlier, other.Writes compiler (tree.locate own.output) := by
    rintro ⟨other, hOther, output, hWritten, hSame⟩
    obtain ⟨rendered, hRendered, rfl, -⟩ := Turn.exists_of_reported (.inl hWritten)
    have hMem : other ∈ compiler.turns tree units := by
      rw [hTurns]
      exact List.mem_append_left _ hOther
    have hApart := h.outputs
    rw [← map_turns compiler tree units, hTurns, List.pairwise_map, List.pairwise_append] at hApart
    refine hApart.2.2 other hOther turn List.mem_cons_self rendered
      ((h.compiled_eq hMem).symm.trans hRendered) own hOwn ?_
    rw [hSame, locate_before hMem]
  exact ⟨hRoot.readText_of_readText h.wellFormed hGrown hElse,
    fun hText => hGrown.readText hText hElse⟩

end Confined

end Compiler

/-! ## Findings and outcomes -/

theorem render_ne_empty (generated : GeneratedModule) : generated.render ≠ "" := by
  intro hEmpty
  have hText := congrArg String.toList hEmpty
  rw [GeneratedModule.render_eq_unlines, GeneratedModule.lines,
    GeneratedModule.headerLines] at hText
  simp [unlines] at hText

/-- No source file is empty. -/
theorem Compiler.content_ne_empty (hWriter : compiler.writer = .source) {definition : Path}
    {mode : Mode} {unit : RenderedUnit}
    (hCompiled : compiler.compileUnit tree definition mode = .ok unit) : unit.content ≠ "" := by
  obtain ⟨generated, -, hRendered⟩ := Checked.bind_eq_ok.mp hCompiled
  cases hRendered
  rw [Compiler.renderUnit, hWriter]
  exact render_ne_empty generated

/-- A check on the tree that a run starts with agrees with every turn of the run. -/
theorem Compiler.Confined.predicted {units : List (Path × Mode)}
    (h : compiler.Confined tree units) {turn : Turn} (hTurn : turn ∈ compiler.turns tree units) :
    turn.Predicted compiler tree (checkUnit compiler tree turn.definition turn.mode)
      (turn.outcome compiler) := by
  have hSame := h.compiled_eq hTurn
  cases hCompiled : turn.compiled compiler with
  | error fault =>
    have hCheck := hSame.symm.trans hCompiled
    rw [checkUnit_of_refused hCheck, Turn.outcome_of_refused hCompiled]
    exact .refused hCheck hCompiled
  | ok unit =>
    have hCheck := hSame.symm.trans hCompiled
    by_cases hCurrent : tree.readText unit.output = .ok unit.content
    · have hBefore := (h.readText_before_iff hTurn hCompiled unit.content).mpr hCurrent
      have hSettled : compiler.Settled tree (turn.definition, turn.mode) unit :=
        ⟨hCheck, hCurrent⟩
      have hTurnSettled : compiler.Settled turn.before (turn.definition, turn.mode) unit :=
        ⟨hCompiled, hBefore⟩
      have hOutcome : turn.outcome compiler = .unchanged unit.output := by
        rw [Turn.outcome, hTurnSettled.generateUnit_eq]
      rw [hSettled.checkUnit_eq, hOutcome]
      exact .current hCheck hCompiled
    · have hBefore := mt (h.readText_before_iff hTurn hCompiled unit.content).mp hCurrent
      exact .outdated hCheck hCompiled
        (checkUnit_of_outdated hCheck (content_ne_empty h.writer hCheck) hCurrent)
        (Turn.outcome_of_outdated hCompiled hBefore)

/-- A check predicts a run that stays in its output directory: what it finds up to date is what the
run reports as unchanged, in order, and for every definition its finding agrees with the outcome of
the turn: the definition is refused by both with the same fault, or the file is up to date for both,
or it has drifted and is written, where either may fail at the tree. -/
theorem check_predicts_generate {manifest : Manifest}
    (hConfined : compiler.Confined tree manifest.units) :
    (check compiler tree manifest).upToDate = (generate compiler tree manifest).2.unchanged ∧
      ∀ turn ∈ compiler.turns tree manifest.units,
        turn.Predicted compiler tree (checkUnit compiler tree turn.definition turn.mode)
          (turn.outcome compiler) := by
  have hPredicted : ∀ turn ∈ compiler.turns tree manifest.units,
      turn.Predicted compiler tree (checkUnit compiler tree turn.definition turn.mode)
        (turn.outcome compiler) := fun turn hTurn => hConfined.predicted hTurn
  refine ⟨?_, hPredicted⟩
  -- Both lists are told turn by turn, and no other pair of finding and outcome is predicted.
  rw [generate_eq, check_eq]
  simp only [CheckReport.ofFindings, RunReport.ofOutcomes, List.filterMap_map]
  refine List.filterMap_congr fun turn hTurn => ?_
  have hTurnPredicted := hPredicted turn hTurn
  simp only [Function.comp_apply]
  generalize checkUnit compiler tree turn.definition turn.mode = finding,
    turn.outcome compiler = outcome at hTurnPredicted
  cases hTurnPredicted with
  | refused _ _ => rfl
  | current _ _ => rfl
  | outdated _ _ hFinding hOutcome =>
    rcases hFinding with ⟨drift, -, -, rfl⟩ | ⟨_, _, rfl⟩ <;>
      rcases hOutcome with rfl | ⟨_, _, rfl⟩ <;> rfl

/-- A check predicts the run over a definition of constants and one of tables. -/
theorem check_predicts_generate_tables :
    (check appCompiler tablesTree tablesManifest).upToDate =
        (generate appCompiler tablesTree tablesManifest).2.unchanged ∧
      ∀ turn ∈ appCompiler.turns tablesTree tablesManifest.units,
        turn.Predicted appCompiler tablesTree
          (checkUnit appCompiler tablesTree turn.definition turn.mode)
          (turn.outcome appCompiler) := by
  have hConfined : appCompiler.Confined tablesTree tablesManifest.units :=
    { writer := rfl
      wellFormed := by decide +kernel
      base := .inr rfl
      outputRoot := by decide
      names := by decide +kernel
      directories := by decide +kernel
      inputs := by decide +kernel
      outputs := by decide +kernel }
  exact check_predicts_generate hConfined

end ResourceTables
