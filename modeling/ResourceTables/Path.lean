import ResourceTables.Text.Split

/-!
# Paths

A path is a text that is shown as it was written: it is never made absolute or cleaned up. What it
names is read off its steps, the pieces between slashes; empty pieces and dots are no steps, except
a dot at the very front.

## Main definitions

* `Path.steps`: the steps of a path, each with the length of the path up to its end.
* `Path.join`: a path taken relative to another.
* `Path.parent?`, `Path.ancestors`: the path without its last step, without its last two, ….
* `Path.fileName?`, `Path.stem?`, `Path.extension?`: the last step and its parts around the last
  dot.
-/

namespace ResourceTables

open Text

/-- A path as it was written. -/
structure Path where
  text : String
deriving DecidableEq

namespace Path

/-- A path that starts at the root. -/
def isAbsolute (path : Path) : Bool :=
  path.text.toList.head? == some '/'

/-- The pieces of a path between slashes. -/
def pieces (path : Path) : List String :=
  (splitOnChar '/' path.text.toList).map String.ofList

/-- Pieces with the length of the text up to the end of each, if `start` characters come before. -/
def withEnds : Nat → List String → List (String × Nat)
  | _, [] => []
  | start, piece :: rest =>
    (piece, start + piece.length) :: withEnds (start + piece.length + 1) rest

/-- The steps of a path, each with the length of the path up to its end. -/
def steps (path : Path) : List (String × Nat) :=
  match withEnds 0 path.pieces with
  | [] => []
  | front :: rest =>
    [front].filter (fun step => step.1 != "") ++
      rest.filter (fun step => step.1 != "" && step.1 != ".")

/-- The first characters of a path. -/
def upTo (path : Path) (length : Nat) : Path :=
  ⟨String.ofList (path.text.toList.take length)⟩

/-- The path left when all steps are gone. -/
def origin (path : Path) : Path :=
  if path.isAbsolute then ⟨"/"⟩ else ⟨""⟩

/-- A path without its last step. -/
def parent? (path : Path) : Option Path :=
  match path.steps.reverse with
  | [] => none
  | [_] => some path.origin
  | _ :: step :: _ => some (path.upTo step.2)

/-- A path, the path without its last step, without its last two, and so on. -/
def ancestors (path : Path) : List Path :=
  match path.steps.reverse with
  | [] => [path]
  | _ :: earlier => path :: earlier.map (fun step => path.upTo step.2) ++ [path.origin]

/-- The last step of a path, if it is a name. -/
def fileName? (path : Path) : Option String :=
  match path.steps.getLast? with
  | some (name, _) => if name = "." ∨ name = ".." then none else some name
  | none => none

/-- A name cut at its last dot, if that is not its first character. -/
def cutExtension? (name : String) : Option (String × String) :=
  match cutAt? '.' name.toList.reverse with
  | some (after, before) =>
    if before.isEmpty then none
    else some (String.ofList before.reverse, String.ofList after.reverse)
  | none => none

/-- The last step of a path up to its last dot. -/
def stem? (path : Path) : Option String :=
  path.fileName?.map fun name => ((cutExtension? name).map (·.1)).getD name

/-- The last step of a path from its last dot. -/
def extension? (path : Path) : Option String :=
  path.fileName?.bind fun name => (cutExtension? name).map (·.2)

/-- A path taken relative to another; an absolute path stays as it is. -/
def join (base path : Path) : Path :=
  if path.isAbsolute then path
  else if base.text.isEmpty || base.text.toList.getLast? == some '/' then ⟨base.text ++ path.text⟩
  else ⟨base.text ++ "/" ++ path.text⟩

end Path

end ResourceTables
