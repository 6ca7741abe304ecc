import ResourceTables.Generation
import ResourceTables.Proofs.Tree.Changes
import ResourceTables.Proofs.Tree.Descent

/-!
# Turns of a run

A run takes the definitions of a manifest in turn, each on the tree that the turns before have left.
A turn has one of five courses, and whatever its course, the tree grows: by directories above the
output of the turn, and by the file there if the turn writes it.

## Main definitions

* `Turn`: a definition of a run, with the tree that it finds.
* `Compiler.turns`: the turns of a run.
* `Turn.Course`: what a turn makes of the tree, and its outcome.
-/

namespace ResourceTables

/-- A definition of a run, with the tree that it finds. -/
structure Turn where
  before : Tree
  definition : Path
  mode : Mode

namespace Turn

/-- The generated file of a turn, or why there is none. -/
def compiled (compiler : Compiler) (turn : Turn) : Checked RenderedUnit :=
  compiler.compileUnit turn.before turn.definition turn.mode

/-- The tree that a turn leaves. -/
def after (compiler : Compiler) (turn : Turn) : Tree :=
  (generateUnit compiler turn.before turn.definition turn.mode).1

/-- What becomes of the definition in a turn. -/
def outcome (compiler : Compiler) (turn : Turn) : Outcome :=
  (generateUnit compiler turn.before turn.definition turn.mode).2

/-- The courses that a turn can take, with the tree that it leaves and its outcome. -/
inductive Course (compiler : Compiler) (turn : Turn) : Tree → Outcome → Prop
  /-- The definition is not compiled. -/
  | refused {fault : Fault} (hCompiled : turn.compiled compiler = .error fault) :
      Course compiler turn turn.before (.failed ⟨turn.definition, turn.mode, fault⟩)
  /-- The file is there already. -/
  | unchanged {unit : RenderedUnit} (hCompiled : turn.compiled compiler = .ok unit)
      (hCurrent : turn.before.readText unit.output = .ok unit.content) :
      Course compiler turn turn.before (.unchanged unit.output)
  /-- A directory of the file cannot be made. -/
  | unprepared {unit : RenderedUnit} {made : Tree} {fault : Fault}
      (hCompiled : turn.compiled compiler = .ok unit)
      (hOutdated : turn.before.readText unit.output ≠ .ok unit.content)
      (hPrepared : prepareDirectory turn.before unit.output = (made, .error fault)) :
      Course compiler turn made (.failed ⟨turn.definition, turn.mode, fault⟩)
  /-- The file cannot be put in its directory. -/
  | unwritten {unit : RenderedUnit} {made : Tree} {fault : TreeFault}
      (hCompiled : turn.compiled compiler = .ok unit)
      (hOutdated : turn.before.readText unit.output ≠ .ok unit.content)
      (hPrepared : prepareDirectory turn.before unit.output = (made, .ok ()))
      (hWritten : made.write unit.output (.text unit.content) = .error fault) :
      Course compiler turn made (.failed ⟨turn.definition, turn.mode, .tree unit.output fault⟩)
  /-- The file is put in its directory. -/
  | written {unit : RenderedUnit} {made written : Tree}
      (hCompiled : turn.compiled compiler = .ok unit)
      (hOutdated : turn.before.readText unit.output ≠ .ok unit.content)
      (hPrepared : prepareDirectory turn.before unit.output = (made, .ok ()))
      (hWritten : made.write unit.output (.text unit.content) = .ok written) :
      Course compiler turn written (.written unit.output)

theorem course (compiler : Compiler) (turn : Turn) :
    turn.Course compiler (turn.after compiler) (turn.outcome compiler) := by
  unfold after outcome generateUnit
  cases hCompiled : compiler.compileUnit turn.before turn.definition turn.mode with
  | error fault => exact .refused hCompiled
  | ok unit =>
    dsimp only
    unfold writeUnit
    -- The file is read first, then its directory is prepared, then it is written.
    by_cases hCurrent : (turn.before.readText unit.output).toOption = some unit.content
    · rw [if_pos hCurrent]
      refine .unchanged hCompiled ?_
      cases hText : turn.before.readText unit.output with
      | error fault =>
        rw [hText] at hCurrent
        cases hCurrent
      | ok text =>
        rw [hText] at hCurrent
        rw [Option.some.inj hCurrent]
    · rw [if_neg hCurrent]
      have hOutdated : turn.before.readText unit.output ≠ .ok unit.content := by
        intro hText
        exact hCurrent (by rw [hText]; rfl)
      cases hPrepared : prepareDirectory turn.before unit.output with
      | mk made result =>
        cases result with
        | error fault => exact .unprepared hCompiled hOutdated hPrepared
        | ok =>
          dsimp only
          cases hWritten : made.write unit.output (.text unit.content) with
          | error fault => exact .unwritten hCompiled hOutdated hPrepared hWritten
          | ok written => exact .written hCompiled hOutdated hPrepared hWritten

end Turn

/-! ## The tree during a turn -/

theorem prepareDirectory_of_parent? {output parent : Path} (h : output.parent? = some parent)
    (tree : Tree) :
    prepareDirectory tree output = ((tree.makeDirectories parent).1,
      match (tree.makeDirectories parent).2 with
      | .ok () => .ok ()
      | .error fault => .error (.tree parent fault)) := by
  rw [prepareDirectory, h]
  dsimp only
  split <;> next h => rw [h]

theorem grows_prepareDirectory (tree : Tree) (output : Path) :
    Tree.Grows (fun _ => False) (tree.IsAbove output) tree (prepareDirectory tree output).1 := by
  cases hParent : output.parent? with
  | none =>
    rw [prepareDirectory, hParent]
    exact .refl
  | some parent =>
    rw [prepareDirectory_of_parent? hParent]
    refine (tree.grows_makeDirectories parent).imp (fun _ h => h) ?_
    exact fun _ _ ⟨upper, hUpper, hEq⟩ => ⟨parent, hParent, upper, hUpper, hEq⟩

theorem exists_tree_of_prepareDirectory {tree made : Tree} {output : Path} {fault : Fault}
    (h : prepareDirectory tree output = (made, .error fault)) :
    ∃ path reason, fault = .tree path reason := by
  rw [prepareDirectory] at h
  split at h
  · cases h
  · split at h
    · cases h
    · cases h
      exact ⟨_, _, rfl⟩

namespace Turn

variable {compiler : Compiler} {turn : Turn}

def Writes (compiler : Compiler) (turn : Turn) (location : Location) : Prop :=
  ∃ output, turn.outcome compiler = .written output ∧ location = turn.before.locate output

/-- A location above the output of a turn. -/
def Above (compiler : Compiler) (turn : Turn) (location : Location) : Prop :=
  ∃ unit, turn.compiled compiler = .ok unit ∧ turn.before.IsAbove unit.output location

/-- The tree grows in a turn: by directories above the output, and by the file if it is written. -/
theorem grows (compiler : Compiler) (turn : Turn) :
    Tree.Grows (turn.Writes compiler) (turn.Above compiler) turn.before (turn.after compiler) := by
  have hPrepare : ∀ {unit made result}, turn.compiled compiler = .ok unit →
      prepareDirectory turn.before unit.output = (made, result) →
      Tree.Grows (turn.Writes compiler) (turn.Above compiler) turn.before made := by
    intro unit made result hCompiled hPrepared
    have hGrown := grows_prepareDirectory turn.before unit.output
    rw [hPrepared] at hGrown
    exact hGrown.imp (fun _ h => h.elim) fun _ _ h => ⟨unit, hCompiled, h⟩
  have hCourse := turn.course compiler
  generalize hAfter : turn.after compiler = after, hOutcome : turn.outcome compiler = outcome
    at hCourse
  cases hCourse with
  | refused _ => exact .refl
  | unchanged _ _ => exact .refl
  | unprepared hCompiled _ hPrepared => exact hPrepare hCompiled hPrepared
  | unwritten hCompiled _ hPrepared _ => exact hPrepare hCompiled hPrepared
  | @written unit made _ hCompiled _ hPrepared hWritten =>
    have hMade := hPrepare hCompiled hPrepared
    refine hMade.trans ((Tree.grows_write hWritten).imp (fun location h => ?_) fun _ _ h => h.elim)
    exact ⟨unit.output, hOutcome, by rw [h, hMade.locate]⟩

/-- A turn that does not fail has compiled its definition to a file, is reported with it, and leaves
it there. -/
theorem exists_of_not_failed (h : ∀ failure, turn.outcome compiler ≠ .failed failure) :
    ∃ unit, turn.compiled compiler = .ok unit ∧
      (turn.outcome compiler = .written unit.output ∨
        turn.outcome compiler = .unchanged unit.output) ∧
      (turn.after compiler).readText unit.output = .ok unit.content := by
  have hCourse := turn.course compiler
  generalize turn.after compiler = after, turn.outcome compiler = outcome at hCourse h
  cases hCourse with
  | refused _ => exact absurd rfl (h _)
  | unprepared _ _ _ => exact absurd rfl (h _)
  | unwritten _ _ _ _ => exact absurd rfl (h _)
  | @unchanged unit hCompiled hCurrent => exact ⟨unit, hCompiled, .inr rfl, hCurrent⟩
  | @written unit _ _ hCompiled _ _ hWritten =>
    exact ⟨unit, hCompiled, .inl rfl, Tree.readText_of_write hWritten⟩

/-- A turn that is reported with a file has compiled its definition to this file, and leaves it
there. -/
theorem exists_of_reported {output : Path}
    (h : turn.outcome compiler = .written output ∨ turn.outcome compiler = .unchanged output) :
    ∃ unit, turn.compiled compiler = .ok unit ∧ unit.output = output ∧
      (turn.after compiler).readText output = .ok unit.content := by
  have hReported : ∀ failure, turn.outcome compiler ≠ .failed failure := by
    intro failure hFailed
    rw [hFailed] at h
    rcases h with h | h <;> cases h
  obtain ⟨unit, hCompiled, hOutcome, hText⟩ := exists_of_not_failed hReported
  have hOutput : unit.output = output := by
    rcases hOutcome with hOutcome | hOutcome <;> rw [hOutcome] at h <;>
      rcases h with h | h <;> cases h <;> rfl
  exact ⟨unit, hCompiled, hOutput, hOutput ▸ hText⟩

end Turn

/-! ## Runs -/

/-- The turns of a run that starts with a tree. -/
def Compiler.turns (compiler : Compiler) : Tree → List (Path × Mode) → List Turn
  | _, [] => []
  | tree, unit :: rest =>
    ⟨tree, unit.1, unit.2⟩ :: compiler.turns (Turn.after compiler ⟨tree, unit.1, unit.2⟩) rest

section Runs

variable {compiler : Compiler} {tree : Tree}

theorem generateUnits_cons (compiler : Compiler) (tree : Tree) (unit : Path × Mode)
    (rest : List (Path × Mode)) :
    generateUnits compiler tree (unit :: rest) =
      ((generateUnits compiler (Turn.after compiler ⟨tree, unit.1, unit.2⟩) rest).1,
        Turn.outcome compiler ⟨tree, unit.1, unit.2⟩ ::
          (generateUnits compiler (Turn.after compiler ⟨tree, unit.1, unit.2⟩) rest).2) := by
  unfold Turn.after Turn.outcome
  rfl

theorem turns_cons (compiler : Compiler) (tree : Tree) (unit : Path × Mode)
    (rest : List (Path × Mode)) :
    compiler.turns tree (unit :: rest) =
      ⟨tree, unit.1, unit.2⟩ :: compiler.turns (Turn.after compiler ⟨tree, unit.1, unit.2⟩) rest :=
  rfl

theorem outcomes_eq (compiler : Compiler) (tree : Tree) (units : List (Path × Mode)) :
    (generateUnits compiler tree units).2 =
      (compiler.turns tree units).map (·.outcome compiler) := by
  induction units generalizing tree with
  | nil => rfl
  | cons unit rest ih => rw [generateUnits_cons, turns_cons, List.map_cons, ih]

theorem generate_eq (compiler : Compiler) (tree : Tree) (manifest : Manifest) :
    generate compiler tree manifest =
      ((generateUnits compiler tree manifest.units).1,
        .ofOutcomes ((compiler.turns tree manifest.units).map (·.outcome compiler))) := by
  rw [← outcomes_eq]
  rfl

theorem map_turns (compiler : Compiler) (tree : Tree) (units : List (Path × Mode)) :
    (compiler.turns tree units).map (fun turn => (turn.definition, turn.mode)) = units := by
  induction units generalizing tree with
  | nil => rfl
  | cons unit rest ih => rw [turns_cons, List.map_cons, ih]

/-- A turn of a run finds the tree that a run over the definitions before it leaves, and the turns
after it are those of a run that starts with what it leaves. -/
theorem exists_of_turns_eq {units : List (Path × Mode)} {earlier later : List Turn} {turn : Turn}
    (h : compiler.turns tree units = earlier ++ turn :: later) :
    ∃ front rest, units = front ++ (turn.definition, turn.mode) :: rest ∧
      earlier = compiler.turns tree front ∧ turn.before = (generateUnits compiler tree front).1 ∧
      later = compiler.turns (turn.after compiler) rest ∧
      (generateUnits compiler tree units).1 =
        (generateUnits compiler (turn.after compiler) rest).1 := by
  induction units generalizing tree earlier with
  | nil => simp [Compiler.turns] at h
  | cons unit units ih =>
    rw [turns_cons] at h
    cases earlier with
    | nil =>
      rw [List.nil_append, List.cons.injEq] at h
      obtain ⟨rfl, rfl⟩ := h
      refine ⟨[], units, rfl, rfl, rfl, rfl, ?_⟩
      rw [generateUnits_cons]
    | cons first earlier =>
      rw [List.cons_append, List.cons.injEq] at h
      obtain ⟨rfl, hRest⟩ := h
      obtain ⟨front, rest, rfl, rfl, hBefore, hLater, hFinal⟩ := ih hRest
      refine ⟨unit :: front, rest, rfl, rfl, ?_, hLater, ?_⟩
      · rw [generateUnits_cons, hBefore]
      · rw [generateUnits_cons, hFinal]

/-- A run over two lists of definitions one after the other goes on with what the first has left. -/
theorem turns_append (compiler : Compiler) (tree : Tree) (front rest : List (Path × Mode)) :
    compiler.turns tree (front ++ rest) =
      compiler.turns tree front ++ compiler.turns (generateUnits compiler tree front).1 rest := by
  induction front generalizing tree with
  | nil => rfl
  | cons unit front ih =>
    rw [List.cons_append, turns_cons, turns_cons, generateUnits_cons, List.cons_append, ih]

theorem generateUnits_append (compiler : Compiler) (tree : Tree) (front rest : List (Path × Mode)) :
    (generateUnits compiler tree (front ++ rest)).1 =
      (generateUnits compiler (generateUnits compiler tree front).1 rest).1 := by
  induction front generalizing tree with
  | nil => rfl
  | cons unit front ih => rw [List.cons_append, generateUnits_cons, generateUnits_cons, ih]

/-- The tree grows in a run: by directories above outputs, and by the files that turns write. -/
theorem grows_generateUnits (compiler : Compiler) (tree : Tree) (units : List (Path × Mode)) :
    Tree.Grows (fun location => ∃ turn ∈ compiler.turns tree units, turn.Writes compiler location)
      (fun location => ∃ turn ∈ compiler.turns tree units, turn.Above compiler location)
      tree (generateUnits compiler tree units).1 := by
  induction units generalizing tree with
  | nil => exact .refl
  | cons unit rest ih =>
    rw [generateUnits_cons, turns_cons]
    refine Tree.Grows.trans
      ((Turn.grows compiler ⟨tree, unit.1, unit.2⟩).imp ?_ ?_) ((ih _).imp ?_ ?_)
    · exact fun location h => ⟨_, List.mem_cons_self, h⟩
    · exact fun location _ h => ⟨_, List.mem_cons_self, h⟩
    · exact fun location ⟨turn, hTurn, h⟩ => ⟨turn, List.mem_cons_of_mem _ hTurn, h⟩
    · exact fun location _ ⟨turn, hTurn, h⟩ => ⟨turn, List.mem_cons_of_mem _ hTurn, h⟩

/-- The tree that a turn finds has grown from the one that the run starts with. -/
theorem grows_before {units : List (Path × Mode)} {turn : Turn}
    (h : turn ∈ compiler.turns tree units) :
    Tree.Grows (fun location => ∃ turn ∈ compiler.turns tree units, turn.Writes compiler location)
      (fun location => ∃ turn ∈ compiler.turns tree units, turn.Above compiler location)
      tree turn.before := by
  obtain ⟨earlier, later, hTurns⟩ := List.append_of_mem h
  obtain ⟨front, rest, -, rfl, hBefore, -⟩ := exists_of_turns_eq hTurns
  rw [hBefore, hTurns]
  refine (grows_generateUnits compiler tree front).imp ?_ ?_
  · exact fun location ⟨turn, hTurn, hWrites⟩ => ⟨turn, List.mem_append_left _ hTurn, hWrites⟩
  · exact fun location _ ⟨turn, hTurn, hAbove⟩ => ⟨turn, List.mem_append_left _ hTurn, hAbove⟩

/-- All turns of a run have the same home directory, so that a path denotes the same location. -/
theorem locate_before {units : List (Path × Mode)} {turn : Turn}
    (h : turn ∈ compiler.turns tree units) (path : Path) :
    turn.before.locate path = tree.locate path :=
  (grows_before h).locate path

theorem wellFormed_before (hTree : tree.WellFormed) {units : List (Path × Mode)} {turn : Turn}
    (h : turn ∈ compiler.turns tree units) : turn.before.WellFormed :=
  (grows_before h).wellFormed hTree

end Runs

end ResourceTables
