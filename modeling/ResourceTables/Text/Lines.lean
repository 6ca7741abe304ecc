/-!
# Lines

Two ways to cut a text into lines. Tables are read by physical lines: a line feed ends a line, a
carriage return right before it belongs to the line end. Files are compared by terminated lines,
which keep their ends and also stop after a lone carriage return, so that nothing of the text is
lost.

## Main definitions

* `physicalLines`: the lines of a text without their ends.
* `terminatedLines`: the lines of a text with their ends.
-/

namespace ResourceTables.Text

/-- The pieces of a text between line feeds, each with whether a line feed ends it. -/
def feedLines : List Char → List (List Char × Bool)
  | [] => []
  | c :: rest =>
    if c = '\n' then
      ([], true) :: feedLines rest
    else
      match feedLines rest with
      | [] => [([c], false)]
      | (line, fed) :: lines => (c :: line, fed) :: lines

/-- A line without a carriage return at its end. -/
def dropReturn (line : List Char) : List Char :=
  if line.getLast? = some '\r' then line.dropLast else line

/-- The lines of a text without their ends. Text after the last line feed is a line, too, and keeps
a carriage return at its end. -/
def physicalLines (text : List Char) : List (List Char) :=
  (feedLines text).map fun (line, fed) => if fed then dropReturn line else line

/-- The lines of a text with their ends: a line feed, a carriage return, or both in this order. -/
def terminatedLines : List Char → List (List Char)
  | [] => []
  | '\r' :: '\n' :: rest => ['\r', '\n'] :: terminatedLines rest
  | c :: rest =>
    if c = '\n' ∨ c = '\r' then
      [c] :: terminatedLines rest
    else
      match terminatedLines rest with
      | [] => [[c]]
      | line :: lines => (c :: line) :: lines

/-- Terminated lines lose nothing of the text. -/
theorem flatten_terminatedLines (text : List Char) : (terminatedLines text).flatten = text := by
  fun_induction terminatedLines text with
  | case1 => rfl
  | case2 rest ih => simp [ih]
  | case3 c rest _ _ ih => simp [ih]
  | case4 c rest _ _ hLines ih => simp_all
  | case5 c rest _ _ line lines hLines ih => simp_all

end ResourceTables.Text
