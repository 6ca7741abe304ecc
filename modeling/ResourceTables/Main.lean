import ResourceTables.Footprint

/-!
# The program

The command line on the file system. The files that a run looks at are taken into a tree, the run is
carried out on the tree, and what it has changed is written to the file system.

## Main definitions

* `Disk.take`: takes what a path leads to into a tree.
* `Disk.takeFootprint`: takes all that an invocation looks at into a tree.
* `Disk.store`: writes what has changed.
* `Disk.run`: carries out arguments.
-/

namespace ResourceTables.Disk

/-- Where a location is on the file system. -/
def place (location : Location) : IO.FS.DirEntry :=
  ⟨"/", "/".intercalate location⟩

/-- Takes a directory, or a file with its content, into a tree. -/
def takeEntry (tree : Tree) (location : Location) : IO Tree := do
  let path := (place location).path
  if ← path.isDir then
    return tree.put location .directory
  else if ← path.pathExists then
    return tree.put location (.file (.ofBytes (← IO.FS.readBinFile path).toList))
  else
    return tree

/-- Takes what the pieces of a path lead to from a location on, and the directories on the way, into
a tree. The entries of a directory at the end are taken, too. -/
def takePieces (tree : Tree) (location : Location) : List String → IO Tree
  | [] => do
    let path := (place location).path
    let tree ← takeEntry tree location
    if ← path.isDir then
      (← path.readDir).foldlM (fun tree child => takeEntry tree (location ++ [child.fileName])) tree
    else
      return tree
  | piece :: rest => do
    let tree ← takeEntry tree location
    if tree.entry? location = some .directory then
      takePieces tree (Tree.step location piece) rest
    else
      return tree

/-- Takes what a path leads to into a tree. -/
def take (tree : Tree) (path : Path) : IO Tree :=
  match Tree.checkPath path with
  | .ok () => takePieces tree (tree.start path) path.pieces
  | .error _ => return tree

/-- Takes all that an invocation looks at into a tree: the manifest first, then the definitions,
their data, and the files to be compared or written. -/
def takeFootprint (invocation : Invocation) (environment : Environment) (tree : Tree) : IO Tree :=
  (List.range 4).foldlM
    (fun tree _ => (invocation.footprint environment tree).foldlM take tree) tree

/-- Writes the directories and files that a run has made or changed. -/
def store (before after : Tree) : IO Unit :=
  after.entries.forM fun (location, entry) => do
    if before.entry? location ≠ some entry then
      let path := (place location).path
      match entry with
      | .directory => IO.FS.createDirAll path
      | .file (.text text) => IO.FS.writeFile path text
      | .file (.bytes raw) => IO.FS.writeBinFile path ⟨raw.toArray⟩

/-- The variables of the environment. -/
def environment : IO Environment := do
  let block ← try IO.FS.readBinFile "/proc/self/environ" catch _ => pure ByteArray.empty
  let assignments := Text.splitOnChar '\x00' (Text.repairedText block.toList).toList
  return assignments.filterMap fun assignment =>
    (Text.cutAt? '=' assignment).map fun (name, value) => (String.ofList name, String.ofList value)

/-- The tree with the working directory as its home. -/
def homeTree : IO Tree := do
  let directory := (← IO.currentDir).toString
  let home := (Path.pieces ⟨directory⟩).filter (· ≠ "")
  take { home } ⟨directory⟩

/-- Carries out arguments on the file system, prints the report and returns the exit code. -/
def run (arguments : List String) : IO UInt32 := do
  let environment ← environment
  let home ← homeTree
  let before ←
    match Invocation.ofArguments? arguments with
    | some invocation => takeFootprint invocation environment home
    | none => pure home
  let (after, report) := runArguments arguments environment before
  store before after
  report.output.forM IO.println
  report.errors.forM IO.eprintln
  return UInt32.ofNat report.exitCode

end ResourceTables.Disk

/-- The program. -/
def main (arguments : List String) : IO UInt32 :=
  ResourceTables.Disk.run arguments
