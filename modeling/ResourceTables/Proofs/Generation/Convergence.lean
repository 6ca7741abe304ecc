import ResourceTables.Proofs.Definition.Interference
import ResourceTables.Proofs.Generation.Findings
import ResourceTables.Proofs.Generation.Outputs

/-!
# Runs converge

Where the outputs of a run are apart from each other and from all that the run reads, a turn that
does not fail settles its definition for the rest of the run: the definition stays compiled to the
same file, and the file stays there. A run over definitions that are settled does nothing, and a
check finds all of them up to date.

## Main definitions

* `Turn.target?`: the location of the file that a turn compiles its definition to.
* `Compiler.Separate`: turns that get in the way of no other turn, and of no reading.
-/

namespace ResourceTables

variable {compiler : Compiler} {tree : Tree}

namespace Turn

variable {turn : Turn}

/-- What a turn looks at to compile its definition. -/
def readings (compiler : Compiler) (turn : Turn) : List Reading :=
  compiler.readings turn.before turn.definition turn.mode

/-- The location of the file that a turn compiles its definition to. -/
def target? (compiler : Compiler) (turn : Turn) : Option Location :=
  (turn.compiled compiler).toOption.map fun unit => turn.before.locate unit.output

theorem target?_of_compiled {unit : RenderedUnit} (h : turn.compiled compiler = .ok unit) :
    turn.target? compiler = some (turn.before.locate unit.output) := by
  rw [target?, h]
  rfl

/-- A turn writes nowhere but at its target. -/
theorem target?_of_writes {location : Location} (h : turn.Writes compiler location) :
    turn.target? compiler = some location := by
  obtain ⟨output, hOutcome, rfl⟩ := h
  obtain ⟨unit, hCompiled, rfl, -⟩ := exists_of_reported (.inl hOutcome)
  exact target?_of_compiled hCompiled

end Turn

/-- The outputs of turns are apart: they are different files, and none of them shows in what a turn
reads. -/
structure Compiler.Separate (compiler : Compiler) (turns : List Turn) : Prop where
  outputs : turns.Pairwise fun first second =>
    ∀ location ∈ first.target? compiler, location ∉ second.target? compiler
  inputs : ∀ reader ∈ turns, ∀ reading ∈ reader.readings compiler, ∀ writer ∈ turns,
    ∀ location ∈ writer.target? compiler, ¬reading.Shows reader.before location

instance (compiler : Compiler) (turns : List Turn) : Decidable (compiler.Separate turns) :=
  decidable_of_iff
    ((turns.Pairwise fun first second =>
        ∀ location ∈ first.target? compiler, location ∉ second.target? compiler) ∧
      ∀ reader ∈ turns, ∀ reading ∈ reader.readings compiler, ∀ writer ∈ turns,
        ∀ location ∈ writer.target? compiler, ¬reading.Shows reader.before location)
    ⟨fun ⟨outputs, inputs⟩ => ⟨outputs, inputs⟩, fun ⟨outputs, inputs⟩ => ⟨outputs, inputs⟩⟩

/-! ## Settled definitions -/

section Runs

variable {units : List (Path × Mode)} {rendered : List RenderedUnit}

/-- A run over settled definitions does nothing. -/
theorem generateUnits_of_settled (h : List.Forall₂ (compiler.Settled tree) units rendered) :
    generateUnits compiler tree units =
      (tree, rendered.map fun own => .unchanged own.output) := by
  induction h with
  | nil => rfl
  | @cons unit own units rendered hOwn _ ih =>
    have hTurn := hOwn.generateUnit_eq
    rw [generateUnits_cons, Turn.after, Turn.outcome, hTurn, ih]
    rfl

/-- A check finds settled definitions up to date. -/
theorem map_checkUnit_of_settled (h : List.Forall₂ (compiler.Settled tree) units rendered) :
    (units.map fun unit => checkUnit compiler tree unit.1 unit.2) =
      rendered.map fun own => .upToDate own.output := by
  induction h with
  | nil => rfl
  | cons hOwn _ ih => rw [List.map_cons, List.map_cons, hOwn.checkUnit_eq, ih]

/-- A turn of a run that does not fail is settled at the end, if the outputs of the run are
apart. -/
theorem exists_settled {turn : Turn} (hTurn : turn ∈ compiler.turns tree units)
    (hSeparate : compiler.Separate (compiler.turns tree units))
    (hReported : ∀ failure, turn.outcome compiler ≠ .failed failure) :
    ∃ own, turn.compiled compiler = .ok own ∧
      compiler.Settled (generateUnits compiler tree units).1 (turn.definition, turn.mode) own := by
  obtain ⟨own, hCompiled, -, hText⟩ := Turn.exists_of_not_failed hReported
  obtain ⟨earlier, later, hTurns⟩ := List.append_of_mem hTurn
  obtain ⟨front, rest, -, -, -, rfl, hFinal⟩ := exists_of_turns_eq hTurns
  have hLater := grows_generateUnits compiler (turn.after compiler) rest
  have hMem : ∀ writer ∈ compiler.turns (turn.after compiler) rest,
      writer ∈ compiler.turns tree units := by
    intro writer hWriter
    rw [hTurns]
    exact List.mem_append_right _ (List.mem_cons_of_mem _ hWriter)
  refine ⟨own, hCompiled, ?_⟩
  rw [hFinal]
  constructor
  · -- From the start of the turn on, files are put at targets only, where no reading shows them.
    have hAll : Tree.Grows
        (fun location => ∃ writer ∈ compiler.turns tree units,
          writer.target? compiler = some location)
        (fun _ => True) turn.before (generateUnits compiler (turn.after compiler) rest).1 := by
      refine Tree.Grows.trans ((turn.grows compiler).imp ?_ fun _ _ _ => trivial)
        (hLater.imp ?_ fun _ _ _ => trivial)
      · exact fun location h => ⟨turn, hTurn, Turn.target?_of_writes h⟩
      · rintro location ⟨writer, hWriter, h⟩
        exact ⟨writer, hMem writer hWriter, Turn.target?_of_writes h⟩
    have hSame : ∀ reading ∈ turn.readings compiler, reading.SameIn turn.before
        (generateUnits compiler (turn.after compiler) rest).1 := by
      intro reading hReading
      refine (succeeds_of_compileUnit hCompiled reading hReading).sameIn hAll ?_
      rintro location hShows ⟨writer, hWriter, hTarget⟩
      exact hSeparate.inputs turn hTurn reading hReading writer hWriter location hTarget hShows
    exact (compileUnit_congr hSame).trans hCompiled
  · -- The file of the turn stays, since no later turn has its target.
    refine hLater.readText hText ?_
    rintro ⟨writer, hWriter, hWrites⟩
    have hApart := hSeparate.outputs
    rw [hTurns] at hApart
    have hTarget : turn.target? compiler =
        some ((turn.after compiler).locate own.output) := by
      rw [Turn.target?_of_compiled hCompiled, (turn.grows compiler).locate]
    have hPair := (List.pairwise_cons.mp (List.pairwise_append.mp hApart).2.1).1 writer hWriter
    exact hPair _ hTarget (Turn.target?_of_writes hWrites)

/-- All definitions of a run are settled at its end, if no turn fails and the outputs of the run are
apart. -/
theorem exists_forall₂_settled (hSeparate : compiler.Separate (compiler.turns tree units))
    (hReported : ∀ turn ∈ compiler.turns tree units,
      ∀ failure, turn.outcome compiler ≠ .failed failure) :
    ∃ rendered,
      List.Forall₂ (fun turn own => turn.compiled compiler = .ok own)
        (compiler.turns tree units) rendered ∧
      List.Forall₂ (compiler.Settled (generateUnits compiler tree units).1) units rendered := by
  have hSettled : ∀ turn ∈ compiler.turns tree units, ∃ own, turn.compiled compiler = .ok own ∧
      compiler.Settled (generateUnits compiler tree units).1 (turn.definition, turn.mode) own :=
    fun turn hTurn => exists_settled hTurn hSeparate (hReported turn hTurn)
  obtain ⟨rendered, hAll⟩ := Checked.mapM_isOk_iff.mpr fun turn hTurn =>
    (hSettled turn hTurn).imp fun _ h => h.1
  have hCompiled := Checked.mapM_eq_ok_iff.mp hAll
  have hBoth := List.forall₂_map_left_iff.mpr <|
    (List.forall₂_and_left _ _ |>.mpr ⟨hSettled, hCompiled⟩).imp fun turn own h => by
      obtain ⟨⟨other, hOther, hCurrent⟩, hOwn⟩ := h
      cases hOther.symm.trans hOwn
      exact hCurrent
  rw [map_turns] at hBoth
  exact ⟨rendered, hCompiled, hBoth⟩

end Runs

/-! ## Running again -/

theorem ofOutcomes_map_unchanged (outputs : List Path) :
    RunReport.ofOutcomes (outputs.map .unchanged) = ⟨[], outputs, []⟩ := by
  simp [RunReport.ofOutcomes, List.filterMap_map]

theorem ofFindings_map_upToDate (outputs : List Path) :
    CheckReport.ofFindings (outputs.map .upToDate) = ⟨outputs, [], []⟩ := by
  simp [CheckReport.ofFindings, List.filterMap_map]

theorem not_failed_of_failures_eq_nil {manifest : Manifest}
    (h : (generate compiler tree manifest).2.failures = []) :
    ∀ turn ∈ compiler.turns tree manifest.units,
      ∀ failure, turn.outcome compiler ≠ .failed failure := by
  intro turn hTurn failure hFailed
  rw [generate_eq] at h
  have hNone := List.filterMap_eq_nil_iff.mp h _ (List.mem_map_of_mem hTurn)
  rw [hFailed] at hNone
  cases hNone

/-- A run that reports no failure converges, if its outputs are apart: a check right after is clean
and finds all files up to date, in the order of the run, and a second run reports the same files as
unchanged and leaves the tree as it is. -/
theorem generate_converges {manifest : Manifest}
    (hSeparate : compiler.Separate (compiler.turns tree manifest.units))
    (hSuccess : (generate compiler tree manifest).2.failures = []) :
    ∃ rendered,
      List.Forall₂ (fun turn own => turn.compiled compiler = .ok own)
        (compiler.turns tree manifest.units) rendered ∧
      check compiler (generate compiler tree manifest).1 manifest =
        ⟨rendered.map (·.output), [], []⟩ ∧
      (check compiler (generate compiler tree manifest).1 manifest).isClean = true ∧
      generate compiler (generate compiler tree manifest).1 manifest =
        ((generate compiler tree manifest).1, ⟨[], rendered.map (·.output), []⟩) := by
  obtain ⟨rendered, hCompiled, hSettled⟩ :=
    exists_forall₂_settled hSeparate (not_failed_of_failures_eq_nil hSuccess)
  have hCheck : check compiler (generate compiler tree manifest).1 manifest =
      ⟨rendered.map (·.output), [], []⟩ := by
    rw [generate_eq, check, map_checkUnit_of_settled hSettled, ← ofFindings_map_upToDate,
      List.map_map]
    rfl
  refine ⟨rendered, hCompiled, hCheck, by rw [hCheck]; rfl, ?_⟩
  rw [generate_eq compiler tree, generate, generateUnits_of_settled hSettled,
    ← ofOutcomes_map_unchanged, List.map_map]
  rfl

/-- A definition of constants, and one of tables in a directory. The file of the first is there, but
with other bytes. -/
def tablesTree : Tree where
  entries :=
    [(["labels.json"], .file (.text
      "\x7b\"class\":\"Labels\",\"type\":\"in-place\",\"data\":\x7b\"k\":\"v\"\x7d\x7d")),
     (["texts.json"], .file (.text
      ("\x7b\"class\":\"Texts\",\"type\":\"csv-grouped\",\"defaultVersion\":\"en\"," ++
        "\"versions\":\x7b\"en\":\"en\"\x7d\x7d"))),
     (["en"], .directory),
     (["en", "home.csv"], .file (.text "k,v\n")),
     (["gen"], .directory),
     (["gen", "labels.rs"], .file (.bytes [255]))]

/-- The run over both definitions. -/
def tablesManifest : Manifest where
  path := ⟨"resgen.toml"⟩
  configuration := appCompiler.configuration
  naming := appCompiler.naming
  constants := [⟨"labels.json"⟩]
  values := [⟨"texts.json"⟩]

/-- Both definitions are settled by a run over them. -/
theorem generate_converges_tables : ∃ rendered : List RenderedUnit,
    rendered.length = 2 ∧
      check appCompiler (generate appCompiler tablesTree tablesManifest).1 tablesManifest =
        ⟨rendered.map (·.output), [], []⟩ ∧
      generate appCompiler (generate appCompiler tablesTree tablesManifest).1 tablesManifest =
        ((generate appCompiler tablesTree tablesManifest).1,
          ⟨[], rendered.map (·.output), []⟩) := by
  have hSeparate :
      appCompiler.Separate (appCompiler.turns tablesTree tablesManifest.units) := by
    decide +kernel
  have hSuccess : (generate appCompiler tablesTree tablesManifest).2.failures = [] := by
    decide +kernel
  obtain ⟨rendered, hCompiled, hCheck, -, hAgain⟩ := generate_converges hSeparate hSuccess
  exact ⟨rendered, hCompiled.length_eq.symm, hCheck, hAgain⟩

end ResourceTables
