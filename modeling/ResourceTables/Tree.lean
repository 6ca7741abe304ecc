import ResourceTables.Path
import ResourceTables.Text.Encoding
import ResourceTables.Tree.Fault

/-!
# The file tree

Directories and files as a value. A location is a list of names from the root; a path is walked from
the root or from the home directory, and each step needs a directory to stand on, also a step back.

## Main definitions

* `Content`: what a file holds, text or other bytes.
* `Tree`: the directories and files there are, and the home directory.
* `Tree.walk`, `Tree.find`: the location that a path leads to, and what is there.
* `Tree.readText`, `Tree.children`: what a file or a directory holds.
* `Tree.write`, `Tree.makeDirectories`: changes; a refused change may still have made directories.
-/

namespace ResourceTables

/-- What a file holds: text, or bytes that are not the encoding of a text. -/
inductive Content where
  | text (text : String)
  | bytes (raw : List UInt8)
deriving DecidableEq

/-- The content with given bytes. -/
def Content.ofBytes (raw : List UInt8) : Content :=
  match String.fromUTF8? ⟨raw.toArray⟩ with
  | some decoded => .text decoded
  | none => .bytes raw

/-- The text of a content, with replacement characters for bytes that encode none. -/
def Content.repaired : Content → String
  | .text content => content
  | .bytes raw => Text.repairedText raw

/-- The names from the root to a directory or file. -/
abbrev Location := List String

/-- What stands at a location. -/
inductive Entry where
  | directory
  | file (content : Content)
deriving DecidableEq

/-- The directories and files there are, each with its location, and the directory where relative
paths start. The root needs no entry. -/
structure Tree where
  home : Location := []
  entries : List (Location × Entry) := []

namespace Tree

/-- What stands at a location. -/
def entry? (tree : Tree) (location : Location) : Option Entry :=
  if location = [] then some .directory else tree.entries.lookup location

/-- Puts an entry at a location in an association list, in place of the one there. -/
def replaceEntry (location : Location) (entry : Entry) :
    List (Location × Entry) → List (Location × Entry)
  | [] => [(location, entry)]
  | (l, e) :: rest =>
    if l = location then (l, entry) :: rest else (l, e) :: replaceEntry location entry rest

/-- The tree with an entry at a location. -/
def put (tree : Tree) (location : Location) (entry : Entry) : Tree :=
  { tree with entries := replaceEntry location entry tree.entries }

/-- The tree without a location and all that is below it. -/
def erase (tree : Tree) (location : Location) : Tree :=
  { tree with entries := tree.entries.filter fun entry => !location.isPrefixOf entry.1 }

/-- Where one piece of a path leads from a directory. -/
def step (location : Location) (piece : String) : Location :=
  if piece = "" ∨ piece = "." then location
  else if piece = ".." then location.dropLast
  else location ++ [piece]

/-- Follows the pieces of a path from a location; every piece needs a directory to stand on. -/
def walk (tree : Tree) : Location → List String → Except TreeFault Location
  | location, [] => .ok location
  | location, piece :: rest =>
    match tree.entry? location with
    | none => .error .notFound
    | some (.file _) => .error .notADirectory
    | some .directory => tree.walk (step location piece) rest

/-- Where the pieces of a path start. -/
def start (tree : Tree) (path : Path) : Location :=
  if path.isAbsolute then [] else tree.home

/-- A path that can be walked at all: it is not empty and has no NUL. -/
def checkPath (path : Path) : Except TreeFault Unit :=
  if path.text.toList.contains '\x00' then .error .nulInPath
  else if path.text.isEmpty then .error .notFound
  else .ok ()

/-- The location a path leads to, and what is there. -/
def find (tree : Tree) (path : Path) : Except TreeFault (Location × Entry) := do
  checkPath path
  let location ← tree.walk (tree.start path) path.pieces
  match tree.entry? location with
  | none => .error .notFound
  | some entry => .ok (location, entry)

/-- Something stands where a path leads. -/
def contains (tree : Tree) (path : Path) : Bool :=
  (tree.find path).isOk

/-- A directory stands where a path leads. -/
def isDirectory (tree : Tree) (path : Path) : Bool :=
  match tree.find path with
  | .ok (_, .directory) => true
  | _ => false

/-- A file stands where a path leads. -/
def isFile (tree : Tree) (path : Path) : Bool :=
  match tree.find path with
  | .ok (_, .file _) => true
  | _ => false

/-- The text of the file a path leads to. -/
def readText (tree : Tree) (path : Path) : Except TreeFault String := do
  match ← tree.find path with
  | (_, .directory) => .error .isADirectory
  | (_, .file (.bytes _)) => .error .notText
  | (_, .file (.text text)) => .ok text

/-- The names right below a location, with what stands there. -/
def childrenAt (tree : Tree) (location : Location) : List (String × Entry) :=
  tree.entries.filterMap fun (l, entry) =>
    match location.isPrefixOf? l with
    | some [name] => some (name, entry)
    | _ => none

/-- The names in a directory with what stands there, sorted by name. -/
def children (tree : Tree) (path : Path) : List (String × Entry) :=
  match tree.find path with
  | .ok (location, .directory) =>
    (tree.childrenAt location).mergeSort fun a b => decide (a.1 ≤ b.1)
  | _ => []

/-- The last of some pieces, if it can name something new. -/
def newName? (pieces : List String) : Option String :=
  match pieces.getLast? with
  | some name => if name = "" ∨ name = "." ∨ name = ".." then none else some name
  | none => none

/-- The location that a path names in a directory that is there, whether or not something stands at
it. -/
def findSlot (tree : Tree) (path : Path) (name : String) : Except TreeFault Location := do
  let parent ← tree.walk (tree.start path) path.pieces.dropLast
  match tree.entry? parent with
  | none => .error .notFound
  | some (.file _) => .error .notADirectory
  | some .directory => .ok (parent ++ [name])

/-- Puts a file where a path leads, over the one there. -/
def write (tree : Tree) (path : Path) (content : Content) : Except TreeFault Tree := do
  checkPath path
  match newName? path.pieces with
  | none =>
    match ← tree.find path with
    | (_, .directory) => .error .isADirectory
    | (_, .file _) => .error .notADirectory
  | some name =>
    let location ← tree.findSlot path name
    match tree.entry? location with
    | some .directory => .error .isADirectory
    | _ => .ok (tree.put location (.file content))

/-- Makes one directory, in a directory that is there. -/
def makeDirectory (tree : Tree) (path : Path) : Except TreeFault Tree := do
  checkPath path
  match newName? (path.pieces.reverse.dropWhile (· = "")).reverse with
  | none =>
    let _ ← tree.find path
    .error .alreadyThere
  | some name =>
    let pieces := (path.pieces.reverse.dropWhile (· = "")).reverse
    let parent ← tree.walk (tree.start path) pieces.dropLast
    match tree.entry? parent with
    | none => .error .notFound
    | some (.file _) => .error .notADirectory
    | some .directory =>
      match tree.entry? (parent ++ [name]) with
      | some _ => .error .alreadyThere
      | none => .ok (tree.put (parent ++ [name]) .directory)

/-- Makes the first of some paths a directory, where each path is the parent of the one before. A
directory that is there is fine, an absent parent is made first. What was made stays, also when the
rest is refused. -/
def makeChain (tree : Tree) : List Path → Tree × Except TreeFault Unit
  | [] => (tree, .error (.stated "failed to create whole tree"))
  | path :: parents =>
    if path.text.isEmpty then
      (tree, .ok ())
    else
      match tree.makeDirectory path with
      | .ok made => (made, .ok ())
      | .error .notFound =>
        match tree.makeChain parents with
        | (made, .error fault) => (made, .error fault)
        | (made, .ok ()) =>
          match made.makeDirectory path with
          | .ok done => (done, .ok ())
          | .error fault => (made, if made.isDirectory path then .ok () else .error fault)
      | .error fault => (tree, if tree.isDirectory path then .ok () else .error fault)

/-- Makes a directory and, if need be, the directories above it. -/
def makeDirectories (tree : Tree) (path : Path) : Tree × Except TreeFault Unit :=
  tree.makeChain path.ancestors

end Tree

end ResourceTables
