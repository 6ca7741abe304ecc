import ResourceTables.Entries.Indexed
import ResourceTables.Fault
import ResourceTables.Naming
import ResourceTables.Text.Blank
import ResourceTables.Text.Lines
import ResourceTables.Tree

/-!
# Table files

A table file holds one record per line. Blank lines and lines that start with `#` say nothing, but
they count where a line is named by its number.

## Main definitions

* `Table.dataLines`: the lines that say something, with their numbers.
* `Table.recordOf?`, `Table.elementOf?`: what a line says, in a table of records or in a list.
* `Table.parseRecords`, `Table.parseList`: the content of a table, or the number of its first line
  that is malformed.
* `Table.readRecords`, `Table.readList`: the content of a file.
-/

namespace ResourceTables

/-- Keys with values, in order. -/
abbrev Records := List (String × String)

namespace Table

open Text

/-- A line that says something: it is not blank and not a comment. -/
def isData (line : List Char) : Bool :=
  match trim line with
  | [] => false
  | c :: _ => c != '#'

/-- The lines that say something, numbered from 1 over all lines. -/
def dataLines (content : String) : List (Nat × List Char) :=
  (((physicalLines content.toList).zipIdx 1).map fun (line, number) => (number, line)).filter
    fun line => isData line.2

/-- A key without its blank ends, and all that follows the first separator. -/
def recordOf? (separator : Char) (line : List Char) : Option (String × String) :=
  match cutAt? separator line with
  | none => none
  | some (before, after) =>
    let key := trim before
    if key.isEmpty then none else some (String.ofList key, String.ofList after)

/-- The element of a list that a line is. -/
def elementOf? (naming : Naming) (line : List Char) : Option String :=
  let whole := trim line
  let element :=
    match naming.listMode with
    | .wholeLine => whole
    | .firstField =>
      match cutAt? naming.separator whole with
      | some (first, _) => trimEnd first
      | none => whole
  if element.isEmpty then none else some (String.ofList element)

/-- What each line says, or the number of the first line that says nothing sensible. -/
def readLines {α : Type} (read? : List Char → Option α) :
    List (Nat × List Char) → Except Nat (List α)
  | [] => .ok []
  | (number, line) :: rest =>
    match read? line with
    | none => .error number
    | some item => do return item :: (← readLines read? rest)

/-- The records of a table. A key that comes again keeps its place and takes the last value. -/
def parseRecords (naming : Naming) (content : String) : Except Nat Records := do
  let records ← readLines (recordOf? naming.separator) (dataLines content)
  return (IndexedMap.ofEntries records).entries.toList

/-- The records are the map that the lines build up, by the index or without it. -/
theorem parseRecords_eq (naming : Naming) (content : String) :
    parseRecords naming content =
      (readLines (recordOf? naming.separator) (dataLines content)).map putEntries := by
  rw [parseRecords]
  cases readLines (recordOf? naming.separator) (dataLines content) with
  | error number => rfl
  | ok items => exact congrArg Except.ok (IndexedMap.toList_ofEntries items)

/-- The elements of a list. -/
def parseList (naming : Naming) (content : String) : Except Nat (List String) :=
  readLines (elementOf? naming) (dataLines content)

/-- The content of a file, as a parser of tables understands it. -/
def read {α : Type} (parse : String → Except Nat α) (tree : Tree) (file : Path) : Checked α :=
  match tree.readText file with
  | .error fault => .error (.tree file fault)
  | .ok content =>
    match parse content with
    | .error line => .error (.malformedRow file line)
    | .ok table => .ok table

theorem read_of_readText {α : Type} {tree : Tree} {file : Path} {content : String}
    (h : tree.readText file = .ok content) (parse : String → Except Nat α) :
    read parse tree file = (parse content).mapError (.malformedRow file) := by
  rw [read, h]
  dsimp only
  cases parse content <;> rfl

/-- The records of a file. -/
def readRecords (naming : Naming) (tree : Tree) (file : Path) : Checked Records :=
  read (parseRecords naming) tree file

/-- The elements of a file. -/
def readList (naming : Naming) (tree : Tree) (file : Path) : Checked (List String) :=
  read (parseList naming) tree file

end Table

end ResourceTables
