import ResourceTables.Compiler

/-!
# Generating files

A run compiles the definitions of a manifest one after the other, constants first, and writes the
files whose content is not there yet. A definition that fails is reported, and the others still run.

## Main definitions

* `Manifest.units`: the definitions of a run in order, with their modes.
* `writeUnit`: writes a generated file, unless it is there.
* `Outcome`: what became of a definition.
* `generateUnit`: compiles and writes one definition.
* `RunReport`: the outcomes of a run, by kind.
* `generate`: a whole run.
-/

namespace ResourceTables

/-- The definitions of a run in order, with their modes. -/
def Manifest.units (manifest : Manifest) : List (Path × Mode) :=
  manifest.constants.map (fun path => (path, .constants)) ++
    manifest.values.map fun path => (path, .values)

/-- A definition that failed. -/
structure Failure where
  definition : Path
  mode : Mode
  fault : Fault
deriving DecidableEq

/-- Makes the directory of a file, if need be. -/
def prepareDirectory (tree : Tree) (output : Path) : Tree × Checked Unit :=
  match output.parent? with
  | none => (tree, .ok ())
  | some parent =>
    match tree.makeDirectories parent with
    | (made, .ok ()) => (made, .ok ())
    | (made, .error fault) => (made, .error (.tree parent fault))

/-- Writes a generated file unless it is there with the same content, and tells whether it did. The
directory of the file is made first; it stays when the file cannot be written. -/
def writeUnit (tree : Tree) (unit : RenderedUnit) : Tree × Checked Bool :=
  if (tree.readText unit.output).toOption = some unit.content then
    (tree, .ok false)
  else
    match prepareDirectory tree unit.output with
    | (made, .error fault) => (made, .error fault)
    | (made, .ok ()) =>
      match made.write unit.output (.text unit.content) with
      | .ok written => (written, .ok true)
      | .error fault => (made, .error (.tree unit.output fault))

/-- What became of a definition in a run. -/
inductive Outcome where
  | written (output : Path)
  | unchanged (output : Path)
  | failed (failure : Failure)
deriving DecidableEq

/-- Compiles and writes one definition. -/
def generateUnit (compiler : Compiler) (tree : Tree) (definition : Path) (mode : Mode) :
    Tree × Outcome :=
  match compiler.compileUnit tree definition mode with
  | .error fault => (tree, .failed ⟨definition, mode, fault⟩)
  | .ok unit =>
    match writeUnit tree unit with
    | (changed, .ok true) => (changed, .written unit.output)
    | (same, .ok false) => (same, .unchanged unit.output)
    | (changed, .error fault) => (changed, .failed ⟨definition, mode, fault⟩)

/-- Compiles and writes definitions one after the other. -/
def generateUnits (compiler : Compiler) : Tree → List (Path × Mode) → Tree × List Outcome
  | tree, [] => (tree, [])
  | tree, (definition, mode) :: rest =>
    let (changed, outcome) := generateUnit compiler tree definition mode
    let (final, outcomes) := generateUnits compiler changed rest
    (final, outcome :: outcomes)

/-- The outcomes of a run, by kind. -/
structure RunReport where
  written : List Path
  unchanged : List Path
  failures : List Failure
deriving DecidableEq

namespace RunReport

/-- Outcomes, sorted by kind. -/
def ofOutcomes (outcomes : List Outcome) : RunReport where
  written := outcomes.filterMap fun outcome =>
    match outcome with
    | .written output => some output
    | _ => none
  unchanged := outcomes.filterMap fun outcome =>
    match outcome with
    | .unchanged output => some output
    | _ => none
  failures := outcomes.filterMap fun outcome =>
    match outcome with
    | .failed failure => some failure
    | _ => none

/-- No definition failed. -/
def isSuccess (report : RunReport) : Bool :=
  report.failures.isEmpty

end RunReport

/-- A run over all definitions of a manifest. -/
def generate (compiler : Compiler) (tree : Tree) (manifest : Manifest) : Tree × RunReport :=
  let (final, outcomes) := generateUnits compiler tree manifest.units
  (final, .ofOutcomes outcomes)

end ResourceTables
