import ResourceTables.Difference.Unified
import ResourceTables.Generation

/-!
# Checking files

A check compiles the definitions of a manifest like a run, but compares the files instead of writing
them. A file that is not up to date has drifted: it is missing, or its definitions have changed, or
it has been edited by hand, which its fingerprint tells.

## Main definitions

* `DriftKind`, `Drift`: how a file is out of date.
* `detectDrift`: compares a generated file with the file on disk.
* `CheckReport`: what a check found.
* `check`: a whole check.
-/

namespace ResourceTables

/-- Why a file is out of date. -/
inductive DriftKind where
  /-- There is no file. -/
  | missing
  /-- The definitions have changed since the file was written. -/
  | stale
  /-- The body of the file does not have the fingerprint that its header tells. -/
  | handEdited
deriving DecidableEq

/-- How a file is out of date. -/
structure Drift where
  definition : Path
  output : Path
  kind : DriftKind
  insertions : Nat
  deletions : Nat
  /-- The difference from the file on disk to the expected content. -/
  difference : String
deriving DecidableEq

/-- The kind of drift of a file that is there, by what it holds. -/
def driftOf (existing : String) : DriftKind :=
  match Fingerprint.extract? existing with
  | some (fingerprint, body) => if fingerprint.verifies body then .stale else .handEdited
  | none => .stale

/-- The text of a file, or the empty text if nothing is there. -/
def readOrEmpty (tree : Tree) (path : Path) : Checked String :=
  match tree.readText path with
  | .ok text => .ok text
  | .error .notFound => .ok ""
  | .error fault => .error (.tree path fault)

/-- The edit script from the lines of one text to those of another. -/
def lineScript (existing expected : String) : List (Edit (List Char)) :=
  editScript (Text.terminatedLines existing.toList) (Text.terminatedLines expected.toList)

/-- Compares a generated file with the file on disk. -/
def detectDrift (tree : Tree) (unit : RenderedUnit) : Checked (Option Drift) := do
  let existing ← readOrEmpty tree unit.output
  if existing = unit.content then return none
  let script := lineScript existing unit.content
  return some {
    definition := unit.definition
    output := unit.output
    kind := if tree.contains unit.output then driftOf existing else .missing
    insertions := insertions script
    deletions := deletions script
    difference := unified unit.output.text script }

/-- What a check finds about a definition. -/
inductive Finding where
  | upToDate (output : Path)
  | drifted (drift : Drift)
  | failed (failure : Failure)
deriving DecidableEq

/-- Checks one definition. -/
def checkUnit (compiler : Compiler) (tree : Tree) (definition : Path) (mode : Mode) : Finding :=
  match compiler.compileUnit tree definition mode with
  | .error fault => .failed ⟨definition, mode, fault⟩
  | .ok unit =>
    match detectDrift tree unit with
    | .error fault => .failed ⟨definition, mode, fault⟩
    | .ok none => .upToDate unit.output
    | .ok (some drift) => .drifted drift

/-- What a check found, by kind. -/
structure CheckReport where
  upToDate : List Path
  drift : List Drift
  failures : List Failure
deriving DecidableEq

namespace CheckReport

/-- Findings, sorted by kind. -/
def ofFindings (findings : List Finding) : CheckReport where
  upToDate := findings.filterMap fun finding =>
    match finding with
    | .upToDate output => some output
    | _ => none
  drift := findings.filterMap fun finding =>
    match finding with
    | .drifted drift => some drift
    | _ => none
  failures := findings.filterMap fun finding =>
    match finding with
    | .failed failure => some failure
    | _ => none

/-- All files are up to date. -/
def isClean (report : CheckReport) : Bool :=
  report.drift.isEmpty && report.failures.isEmpty

end CheckReport

/-- A check of all definitions of a manifest. -/
def check (compiler : Compiler) (tree : Tree) (manifest : Manifest) : CheckReport :=
  .ofFindings (manifest.units.map fun (definition, mode) =>
    checkUnit compiler tree definition mode)

end ResourceTables
