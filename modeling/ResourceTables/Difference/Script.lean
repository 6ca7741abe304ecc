/-!
# Edit scripts

An edit script says how one sequence becomes another: runs of elements that stay, runs that are
deleted and runs that are inserted. What a script turns into what is read off the script itself.

## Main definitions

* `Edit`: a run of elements that stay, go or come.
* `Edit.olds`, `Edit.news`: the sequences before and after a script.
* `Change`: the elements that go and come at one place.
* `Block`, `blocksOf`: a script with all that goes or comes at one place taken together.
-/

namespace ResourceTables

variable {α : Type}

/-- A run of elements of an edit script. -/
inductive Edit (α : Type) where
  | keep (run : List α)
  | delete (run : List α)
  | insert (run : List α)
deriving DecidableEq

namespace Edit

/-- The elements of a run that are there before. -/
def old : Edit α → List α
  | .keep run => run
  | .delete run => run
  | .insert _ => []

/-- The elements of a run that are there after. -/
def new : Edit α → List α
  | .keep run => run
  | .delete _ => []
  | .insert run => run

/-- The sequence before a script. -/
def olds (script : List (Edit α)) : List α :=
  script.flatMap old

/-- The sequence after a script. -/
def news (script : List (Edit α)) : List α :=
  script.flatMap new

/-- The run deletes. -/
def isDelete : Edit α → Bool
  | .delete _ => true
  | _ => false

/-- The run inserts. -/
def isInsert : Edit α → Bool
  | .insert _ => true
  | _ => false

end Edit

/-- A run that stays, or all that goes and comes between two such runs. -/
inductive Block (α : Type) where
  | keep (run : List α)
  | change (deleted inserted : List α)
deriving DecidableEq

/-- A script with all that goes or comes at one place taken together. -/
def blocksOf : List (Edit α) → List (Block α)
  | [] => []
  | .keep run :: rest =>
    match blocksOf rest with
    | .keep more :: blocks => .keep (run ++ more) :: blocks
    | blocks => .keep run :: blocks
  | .delete run :: rest =>
    match blocksOf rest with
    | .change deleted inserted :: blocks => .change (run ++ deleted) inserted :: blocks
    | blocks => .change run [] :: blocks
  | .insert run :: rest =>
    match blocksOf rest with
    | .change deleted inserted :: blocks => .change deleted (run ++ inserted) :: blocks
    | blocks => .change [] run :: blocks

/-- The number of elements that come. -/
def insertions (script : List (Edit α)) : Nat :=
  (Edit.news (script.filter Edit.isInsert)).length

/-- The number of elements that go. -/
def deletions (script : List (Edit α)) : Nat :=
  (Edit.olds (script.filter Edit.isDelete)).length

end ResourceTables
