import ResourceTables.Difference.Shortest

/-!
# Sliding runs

A run that is inserted can often be placed a little earlier or later without changing what the
script does: when the run ends as the run in front of it ends, or begins as the run behind it
begins. Each inserted run is slid up as far as possible, so that it meets runs of its kind and is
joined with them, and then down as far as possible. A deleted run moves past inserted runs and is
joined with deleted runs next to it, but it does not slide along elements that stay.

## Main definitions

* `slideUp`, `slideDown`: a run at its place after it was slid.
* `slideAll`: a script whose runs of one kind have been slid.
* `editScript`: a shortest script with all runs slid, deletions first.
-/

namespace ResourceTables

variable {α : Type}

/-- A run that goes or comes, with the runs before it, the nearest first, and the runs after it. -/
structure Cursor (α : Type) where
  before : List (Edit α)
  run : List α
  after : List (Edit α)

/-- The elements of some runs, and the runs themselves, counted. -/
def weight : List (Edit α) → Nat
  | [] => 0
  | edit :: rest => edit.old.length + edit.new.length + 1 + weight rest

/-- A run that goes or comes. -/
def changeRun (inserts : Bool) (run : List α) : Edit α :=
  if inserts then .insert run else .delete run

/-- Puts an element that stays in front of other runs. -/
def keepBefore (a : α) : List (Edit α) → List (Edit α)
  | .keep run :: rest => .keep (a :: run) :: rest
  | runs => .keep [a] :: runs

/-- Puts an element that stays behind other runs, the nearest of which comes first. -/
def keepAfter (a : α) : List (Edit α) → List (Edit α)
  | .keep run :: rest => .keep (run ++ [a]) :: rest
  | runs => .keep [a] :: runs

/-- Slides a run up: past runs of the other kind, into runs of its own kind, and, if it is inserted,
along elements that stay and equal its last one. The runs before it are given last, the nearest
first. -/
def slideUp [DecidableEq α] (inserts : Bool) (run : List α) (after : List (Edit α)) :
    List (Edit α) → Cursor α
  | [] => ⟨[], run, after⟩
  | .keep kept :: before =>
    match _hLast : kept.getLast?, run.getLast? with
    | none, _ => slideUp inserts run after before
    | some a, some b =>
      if inserts ∧ a = b then
        slideUp inserts (b :: run.dropLast) (keepBefore a after) (.keep kept.dropLast :: before)
      else ⟨.keep kept :: before, run, after⟩
    | some _, none => ⟨.keep kept :: before, run, after⟩
  | .delete other :: before =>
    if inserts then slideUp inserts run (.delete other :: after) before
    else slideUp inserts (other ++ run) after before
  | .insert other :: before =>
    if inserts then slideUp inserts (other ++ run) after before
    else slideUp inserts run (.insert other :: after) before
termination_by before => weight before
decreasing_by
  · simp only [weight]
    omega
  · have hKept : kept.length ≠ 0 := by
      intro hNil
      simp [List.length_eq_zero_iff.1 hNil] at _hLast
    simp only [weight, Edit.old, Edit.new, List.length_dropLast]
    omega
  all_goals
    simp only [weight]
    omega

/-- Slides a run down: past runs of the other kind, over runs of its own kind, and, if it is
inserted, along elements that stay and equal its first one. -/
def slideDown [DecidableEq α] (inserts : Bool) (run : List α) (before : List (Edit α)) :
    List (Edit α) → Cursor α
  | [] => ⟨before, run, []⟩
  | .keep [] :: after => slideDown inserts run before after
  | .keep (a :: kept) :: after =>
    match run with
    | [] => ⟨before, run, .keep (a :: kept) :: after⟩
    | b :: rest =>
      if inserts ∧ a = b then
        slideDown inserts (rest ++ [b]) (keepAfter a before) (.keep kept :: after)
      else ⟨before, run, .keep (a :: kept) :: after⟩
  | .delete other :: after =>
    if inserts then slideDown inserts run (.delete other :: before) after
    else slideDown inserts (run ++ other) before after
  | .insert other :: after =>
    if inserts then slideDown inserts (run ++ other) before after
    else slideDown inserts run (.insert other :: before) after
termination_by after => weight after
decreasing_by
  all_goals
    simp only [weight, Edit.old, Edit.new, List.length_cons]
    omega

/-- A script whose runs of one kind have been slid, one after the other; `fuel` bounds their number.
The runs that are done come first, the nearest first. -/
def slideAll [DecidableEq α] (inserts : Bool) :
    (fuel : Nat) → List (Edit α) → List (Edit α) → List (Edit α)
  | 0, done, runs => done.reverse ++ runs
  | _ + 1, done, [] => done.reverse
  | fuel + 1, done, edit :: runs =>
    let slid (run : List α) : List (Edit α) :=
      let up := slideUp inserts run runs done
      let down := slideDown inserts up.run up.before up.after
      slideAll inserts fuel (changeRun inserts down.run :: down.before) down.after
    match edit, inserts with
    | .delete run, false => slid run
    | .insert run, true => slid run
    | other, _ => slideAll inserts fuel (other :: done) runs

/-- A bound on the number of runs that come up while a script is slid: each joins two runs, or is
followed by fewer runs than the one before. -/
def slideBound (script : List (Edit α)) : Nat :=
  (weight script + 2) * (weight script + 2)

/-- A shortest edit script with all runs slid, deletions first. -/
def editScript [DecidableEq α] (old new : List α) : List (Edit α) :=
  let script := shortestScript old new
  let deletesSlid := slideAll false (slideBound script) [] script
  slideAll true (slideBound deletesSlid) [] deletesSlid

end ResourceTables
