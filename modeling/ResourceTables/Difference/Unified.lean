import ResourceTables.Difference.Sliding
import ResourceTables.Text.Lines

/-!
# Unified differences

How one text becomes another, shown line by line: lines that go or come, with up to three lines that
stay around them. Places that are close to each other are shown together.

## Main definitions

* `Hunk`: neighbouring lines with their places in the two texts.
* `hunks`: the hunks of a script.
* `unified`: the difference of two texts.
-/

namespace ResourceTables

open Text

/-- What happens to a line. -/
inductive LineMark where
  | stays
  | goes
  | comes
deriving DecidableEq

/-- The sign of a line in a difference. -/
def LineMark.sign : LineMark → String
  | .stays => " "
  | .goes => "-"
  | .comes => "+"

/-- Neighbouring lines that are shown together, with the number of lines before them. -/
structure Hunk where
  oldStart : Nat
  newStart : Nat
  lines : List (LineMark × List Char)

namespace Hunk

/-- The number of lines in the text before. -/
def oldLength (hunk : Hunk) : Nat :=
  (hunk.lines.filter fun line => line.1 != .comes).length

/-- The number of lines in the text after. -/
def newLength (hunk : Hunk) : Nat :=
  (hunk.lines.filter fun line => line.1 != .goes).length

/-- The hunk with more lines. -/
def append (hunk : Hunk) (mark : LineMark) (lines : List (List Char)) : Hunk :=
  { hunk with lines := hunk.lines ++ lines.map fun line => (mark, line) }

/-- A range of lines: the number of the first and the number of lines, which is left out if it is
one. An empty range has the number of the line before. -/
def range (start length : Nat) : String :=
  if length = 1 then toString (start + 1)
  else toString (if length = 0 then start else start + 1) ++ "," ++ toString length

/-- A line with its sign. A line without an end is given one, and a note says so. -/
def writeLine (line : LineMark × List Char) : String :=
  let ended := line.2.getLast? == some '\n' || line.2.getLast? == some '\r'
  line.1.sign ++ String.ofList line.2 ++
    (if ended then "" else "\n\\ No newline at end of file\n")

/-- The text of a hunk. -/
def write (hunk : Hunk) : String :=
  "@@ -" ++ range hunk.oldStart hunk.oldLength ++ " +" ++ range hunk.newStart hunk.newLength ++
    " @@\n" ++ String.join (hunk.lines.map writeLine)

end Hunk

/-- The number of lines that are shown around a change. -/
def context : Nat := 3

/-- The hunks of blocks whose first line has the given places, if a hunk is open that has a change
in it. -/
def hunksFrom (oldPlace newPlace : Nat) (opened : Hunk) :
    List (Block (List Char)) → List Hunk
  | [] => [opened]
  | [.keep run] => [opened.append .stays (run.take context)]
  | .keep run :: rest =>
    let length := run.length
    let oldNext := oldPlace + length
    let newNext := newPlace + length
    if length > 2 * context then
      let next : Hunk := ⟨oldNext - context, newNext - context, []⟩
      opened.append .stays (run.take context) ::
        hunksFrom oldNext newNext (next.append .stays (run.drop (length - context))) rest
    else hunksFrom oldNext newNext (opened.append .stays run) rest
  | .change deleted inserted :: rest =>
    hunksFrom (oldPlace + deleted.length) (newPlace + inserted.length)
      ((opened.append .goes deleted).append .comes inserted) rest

/-- The hunks of a script. -/
def hunks (blocks : List (Block (List Char))) : List Hunk :=
  match blocks with
  | [] => []
  | [.keep _] => []
  | .keep run :: rest =>
    let front := run.length - context
    let opened : Hunk := ⟨front, front, []⟩
    hunksFrom run.length run.length (opened.append .stays (run.drop front)) rest
  | blocks => hunksFrom 0 0 ⟨0, 0, []⟩ blocks

/-- The difference of two texts as it is shown, under the name of the file. -/
def unified (name : String) (script : List (Edit (List Char))) : String :=
  let shown := hunks (blocksOf script)
  if shown.isEmpty then ""
  else "--- " ++ name ++ "\n+++ " ++ name ++ "\n" ++ String.join (shown.map Hunk.write)

end ResourceTables
