import ResourceTables.CommandLine
import ResourceTables.Proofs.Generation.Turns

/-!
# The frame of a run

A run places every definition in exactly one list of its report, and each list is in the order of
the manifest. Of the tree it changes no more than it reports: files are put where the report says
that they are written, directories are made above outputs, and all else stays. The other commands
change nothing at all.

## Main definitions

* `Outcome.written?`, `Outcome.unchanged?`, `Outcome.failure?`: what an outcome adds to each list.
* `Turn.Placed`: the one list that a turn is placed in, and with what.
* `RunReport.Accounts`: a report that places all turns, in order.
* `Compiler.Frames`: a tree that has changed no more than a run reports.
-/

namespace ResourceTables

variable {compiler : Compiler} {tree : Tree}

namespace Outcome

/-- What an outcome adds to the files that are written. -/
def written? : Outcome → Option Path
  | .written output => some output
  | _ => none

/-- What an outcome adds to the files that were there. -/
def unchanged? : Outcome → Option Path
  | .unchanged output => some output
  | _ => none

/-- What an outcome adds to the failures. -/
def failure? : Outcome → Option Failure
  | .failed failure => some failure
  | _ => none

theorem written?_eq_some_iff {outcome : Outcome} {output : Path} :
    outcome.written? = some output ↔ outcome = .written output := by
  cases outcome <;> simp [written?]

end Outcome

theorem RunReport.ofOutcomes_eq (outcomes : List Outcome) :
    RunReport.ofOutcomes outcomes = ⟨outcomes.filterMap Outcome.written?,
      outcomes.filterMap Outcome.unchanged?, outcomes.filterMap Outcome.failure?⟩ := rfl

/-! ## Accounting -/

/-- What a turn adds to the files that are written, to the files that were there and to the
failures: it is placed in one of these lists, with the output that its definition is compiled to, or
with the definition and a fault. -/
inductive Turn.Placed (compiler : Compiler) (turn : Turn) :
    Option Path → Option Path → Option Failure → Prop
  | written {unit : RenderedUnit} (hCompiled : turn.compiled compiler = .ok unit) :
      Placed compiler turn (some unit.output) none none
  | unchanged {unit : RenderedUnit} (hCompiled : turn.compiled compiler = .ok unit) :
      Placed compiler turn none (some unit.output) none
  | failed (fault : Fault) :
      Placed compiler turn none none (some ⟨turn.definition, turn.mode, fault⟩)

theorem Turn.placed (compiler : Compiler) (turn : Turn) :
    turn.Placed compiler (turn.outcome compiler).written? (turn.outcome compiler).unchanged?
      (turn.outcome compiler).failure? := by
  have hCourse := turn.course compiler
  generalize turn.after compiler = after, turn.outcome compiler = outcome at hCourse
  cases hCourse with
  | refused _ => exact .failed _
  | unchanged hCompiled _ => exact .unchanged hCompiled
  | unprepared _ _ _ => exact .failed _
  | unwritten _ _ _ _ => exact .failed _
  | written hCompiled _ _ _ => exact .written hCompiled

/-- A report that places turns over some definitions, each in one of its lists, where all lists are
in the order of the definitions. -/
structure RunReport.Accounts (compiler : Compiler) (report : RunReport)
    (units : List (Path × Mode)) (turns : List Turn) : Prop where
  units : turns.map (fun turn => (turn.definition, turn.mode)) = units
  placed : ∀ turn ∈ turns, turn.Placed compiler (turn.outcome compiler).written?
    (turn.outcome compiler).unchanged? (turn.outcome compiler).failure?
  written : report.written = turns.filterMap fun turn => (turn.outcome compiler).written?
  unchanged : report.unchanged = turns.filterMap fun turn => (turn.outcome compiler).unchanged?
  failures : report.failures = turns.filterMap fun turn => (turn.outcome compiler).failure?

theorem accounts_generate (compiler : Compiler) (tree : Tree) (manifest : Manifest) :
    (generate compiler tree manifest).2.Accounts compiler manifest.units
      (compiler.turns tree manifest.units) := by
  rw [generate_eq, RunReport.ofOutcomes_eq]
  refine ⟨map_turns compiler tree manifest.units, fun turn _ => turn.placed compiler, ?_, ?_, ?_⟩
  · exact List.filterMap_map
  · exact List.filterMap_map
  · exact List.filterMap_map

/-- The locations where turns write are those that the report says are written. -/
theorem RunReport.Accounts.exists_writes_iff {report : RunReport} {units : List (Path × Mode)}
    (h : report.Accounts compiler units (compiler.turns tree units)) (location : Location) :
    (∃ turn ∈ compiler.turns tree units, turn.Writes compiler location) ↔
      ∃ output ∈ report.written, location = tree.locate output := by
  rw [h.written]
  simp only [List.mem_filterMap, Outcome.written?_eq_some_iff]
  constructor
  · rintro ⟨turn, hTurn, output, hOutcome, hLocation⟩
    exact ⟨output, ⟨turn, hTurn, hOutcome⟩, hLocation.trans (locate_before hTurn output)⟩
  · rintro ⟨output, ⟨turn, hTurn, hOutcome⟩, hLocation⟩
    exact ⟨turn, hTurn, output, hOutcome, hLocation.trans (locate_before hTurn output).symm⟩

/-! ## What stays -/

/-- A tree that has changed no more than is reported of a run: files are as they were but for those
at the outputs written, nothing has gone away, and new directories are above outputs. -/
structure Compiler.Frames (compiler : Compiler) (tree : Tree) (turns : List Turn)
    (written : List Path) (after : Tree) : Prop where
  home : after.home = tree.home
  files : ∀ location, (∀ output ∈ written, location ≠ tree.locate output) → ∀ content,
    after.entry? location = some (.file content) ↔ tree.entry? location = some (.file content)
  fileStays : ∀ location content, tree.entry? location = some (.file content) →
    ∃ other, after.entry? location = some (.file other)
  directoryStays : ∀ location, tree.entry? location = some .directory →
    after.entry? location = some .directory
  made : ∀ location, after.entry? location = some .directory →
    tree.entry? location = some .directory ∨ tree.entry? location = none ∧
      ∃ turn ∈ turns, ∃ unit, turn.compiled compiler = .ok unit ∧
        tree.IsAbove unit.output location

theorem isAbove_before {units : List (Path × Mode)} {turn : Turn}
    (hTurn : turn ∈ compiler.turns tree units) {output : Path} {location : Location}
    (h : turn.before.IsAbove output location) : tree.IsAbove output location := by
  obtain ⟨parent, hParent, upper, hUpper, hLocation⟩ := h
  exact ⟨parent, hParent, upper, hUpper, hLocation.trans (locate_before hTurn upper)⟩

theorem frames_generate (compiler : Compiler) (tree : Tree) (manifest : Manifest) :
    compiler.Frames tree (compiler.turns tree manifest.units)
      (generate compiler tree manifest).2.written (generate compiler tree manifest).1 := by
  have hAccounts := accounts_generate compiler tree manifest
  have hGrown := grows_generateUnits compiler tree manifest.units
  have hWrites := hAccounts.exists_writes_iff
  rw [generate_eq] at hWrites ⊢
  refine ⟨hGrown.home, ?_, fun _ _ => hGrown.exists_file, fun _ => hGrown.entry?_of_directory, ?_⟩
  · intro location hElse content
    have hFile := mt (hWrites location).mp fun ⟨output, hOutput, h⟩ => hElse output hOutput h
    rcases hGrown.entry?_eq_or hFile with hSame | ⟨hNone, hDirectory, -⟩
    · rw [hSame]
    · rw [hNone, hDirectory]
      simp
  · intro location hDirectory
    rcases hGrown.directory_or_made hDirectory with
      hThere | ⟨hNone, turn, hTurn, unit, hUnit, hAbove⟩
    · exact .inl hThere
    · exact .inr ⟨hNone, turn, hTurn, unit, hUnit, isAbove_before hTurn hAbove⟩

/-- A run places every definition in exactly one list of its report, each in the order of the
manifest, and changes no more of the tree than it reports: files at the outputs written, and
directories above outputs. A command that generates nothing leaves the tree as it is. -/
theorem generate_accounts_and_frames (compiler : Compiler) (tree : Tree) (manifest : Manifest) :
    (generate compiler tree manifest).2.Accounts compiler manifest.units
        (compiler.turns tree manifest.units) ∧
      compiler.Frames tree (compiler.turns tree manifest.units)
        (generate compiler tree manifest).2.written (generate compiler tree manifest).1 ∧
      ∀ (invocation : Invocation) (environment : Environment), invocation.command ≠ .generate →
        (invocation.run environment tree).1 = tree := by
  refine ⟨accounts_generate compiler tree manifest, frames_generate compiler tree manifest, ?_⟩
  intro invocation environment hCommand
  rw [Invocation.run]
  cases Manifest.load tree environment invocation.manifest with
  | error fault => rfl
  | ok manifest =>
    cases hKind : invocation.command with
    | generate => exact absurd hKind hCommand
    | check => rfl
    | inspect definition mode =>
      dsimp only
      cases (Compiler.ofManifest manifest).describeFile tree definition mode <;> rfl

end ResourceTables
