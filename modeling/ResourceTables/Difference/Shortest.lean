import ResourceTables.Difference.Script

/-!
# Shortest edit scripts

An edit script with as few insertions and deletions as possible. What two sequences share at their
ends stays. The rest is split where a shortest path through the grid of their elements has its
middle, which is found by searching from both corners at once, and the parts are treated alike.

## Main definitions

* `stripFront`: what two sequences share at the front.
* `middle?`: a point in the middle of a shortest path.
* `shortestScript`: a shortest edit script.
-/

namespace ResourceTables

variable {α : Type} [DecidableEq α]

/-- What two sequences share at the front, and what is left of them. -/
def stripFront : List α → List α → List α × List α × List α
  | a :: old, b :: new =>
    if a = b then
      let (front, restOld, restNew) := stripFront old new
      (a :: front, restOld, restNew)
    else ([], a :: old, b :: new)
  | old, new => ([], old, new)

/-- What two sequences share at the back, and what is left of them. -/
def stripBack (old new : List α) : List α × List α × List α :=
  let (back, restOld, restNew) := stripFront old.reverse new.reverse
  (back.reverse, restOld.reverse, restNew.reverse)

/-- Nothing is left that was not there. -/
theorem length_stripFront_le (old new : List α) :
    (stripFront old new).2.1.length ≤ old.length ∧
      (stripFront old new).2.2.length ≤ new.length := by
  induction old generalizing new with
  | nil => simp [stripFront]
  | cons a old ih =>
    cases new with
    | nil => simp [stripFront]
    | cons b new =>
      have hRest := ih new
      by_cases h : a = b
      · subst h
        rcases hStrip : stripFront old new with ⟨front, restOld, restNew⟩
        simp only [hStrip] at hRest
        simp only [stripFront, if_true, hStrip, List.length_cons]
        omega
      · simp [stripFront, if_neg h]

/-- Nothing is left that was not there. -/
theorem length_stripBack_le (old new : List α) :
    (stripBack old new).2.1.length ≤ old.length ∧
      (stripBack old new).2.2.length ≤ new.length := by
  simpa [stripBack] using length_stripFront_le old.reverse new.reverse

/-- The number of equal elements from two places on. -/
def agreeFrom (old new : Array α) (x y : Nat) : Nat :=
  if h : x < old.size ∧ y < new.size then
    if old[x] = new[y] then agreeFrom old new (x + 1) (y + 1) + 1 else 0
  else 0
termination_by old.size - x

/-- How far paths have come, for each diagonal of the grid, which is numbered from `-bound` on. -/
structure Frontier where
  bound : Nat
  reached : Array Int

namespace Frontier

/-- Paths that have not started. -/
def start (bound : Nat) : Frontier :=
  ⟨bound, Array.replicate (2 * bound + 3) 0⟩

/-- How far the path on a diagonal has come. -/
def get (frontier : Frontier) (diagonal : Int) : Int :=
  frontier.reached.getD (diagonal + frontier.bound + 1).toNat 0

/-- The path on a diagonal has come so far. -/
def set (frontier : Frontier) (diagonal reached : Int) : Frontier :=
  { frontier with
    reached := frontier.reached.setIfInBounds (diagonal + frontier.bound + 1).toNat reached }

/-- Where the path with one more edit starts on a diagonal: it comes from the neighbour that has
come farther. -/
def step (frontier : Frontier) (edits diagonal : Int) : Int :=
  if diagonal = -edits ∨
      (diagonal ≠ edits ∧ frontier.get (diagonal - 1) < frontier.get (diagonal + 1)) then
    frontier.get (diagonal + 1)
  else frontier.get (diagonal - 1) + 1

end Frontier

/-- The number of equal elements that a path runs along from a point. -/
def runFrom (old new : Array α) (x y : Int) : Nat :=
  if 0 ≤ x ∧ 0 ≤ y then agreeFrom old new x.toNat y.toNat else 0

/-- One step of a search: the paths of a search advance by one edit along all diagonals, and a
meeting with the paths of the other search is looked for if `meets` allows it. The result is the new
frontier and the start and end of the run on which they meet. -/
def advance (old new : Array α) (own other : Frontier) (edits : Nat) (meets : Int → Bool) :
    Frontier × Option (Int × Int × Int × Int) :=
  let width : Int := old.size
  let shift : Int := old.size - new.size
  (List.range (edits + 1)).foldl (fun state (i : Nat) =>
    match state with
    | (own, some found) => (own, some found)
    | (own, none) =>
      let diagonal : Int := (edits : Int) - 2 * i
      let x := own.step edits diagonal
      let y := x - diagonal
      let far := x + runFrom old new x y
      let own := own.set diagonal far
      if meets diagonal && far + other.get (shift - diagonal) ≥ width then
        (own, some (x, y, far, far - diagonal))
      else (own, none)) (own, none)

/-- A point in the middle of a shortest path: the start of the run on which a search from the front
and a search from the back meet. The search from the back works on the sequences in reverse. The
searches take turns and have used fewer than `edits + fuel` edits when they meet. -/
def search (old new oldBack newBack : Array α) : (fuel : Nat) → (edits : Nat) →
    Frontier → Frontier → Option (Int × Int)
  | 0, _, _, _ => none
  | fuel + 1, edits, forth, back =>
    let shift : Int := old.size - new.size
    let odd := shift % 2 != 0
    let near (reach diagonal : Int) : Bool := (diagonal - shift).natAbs ≤ reach
    match advance old new forth back edits (fun diagonal => odd && near (edits - 1) diagonal) with
    | (_, some (x, y, _, _)) => some (x, y)
    | (forth, none) =>
      match advance oldBack newBack back forth edits
          (fun diagonal => !odd && near edits diagonal) with
      | (_, some (_, _, x, y)) => some (old.size - x, new.size - y)
      | (back, none) => search old new oldBack newBack fuel (edits + 1) forth back

/-- A point in the middle of a shortest path through the grid of two sequences. -/
def middle? (old new : Array α) : Option (Nat × Nat) :=
  let bound := (old.size + new.size + 1) / 2 + 1
  (search old new old.reverse new.reverse bound 0 (.start bound) (.start bound)).map
    fun (x, y) => (x.toNat, y.toNat)

/-- A run that stays, if there is anything in it. -/
def keepRun (run : List α) : List (Edit α) :=
  if run.isEmpty then [] else [.keep run]

/-- A shortest edit script. A middle that leaves everything on one side is not used. -/
def shortestScript (old new : List α) : List (Edit α) :=
  let stripped := stripFront old new
  let inner := stripBack stripped.2.1 stripped.2.2
  let old' := inner.2.1
  let new' := inner.2.2
  let core :=
    match old', new' with
    | [], [] => []
    | gone, [] => [.delete gone]
    | [], come => [.insert come]
    | gone, come =>
      match middle? gone.toArray come.toArray with
      | none => [.delete gone, .insert come]
      | some (x, y) =>
        if (old'.take x).length + (new'.take y).length < old'.length + new'.length ∧
            (old'.drop x).length + (new'.drop y).length < old'.length + new'.length then
          shortestScript (old'.take x) (new'.take y) ++ shortestScript (old'.drop x) (new'.drop y)
        else [.delete gone, .insert come]
  keepRun stripped.1 ++ core ++ keepRun inner.1
termination_by old.length + new.length
decreasing_by
  all_goals
    have hFront := length_stripFront_le old new
    have hBack := length_stripBack_le (stripFront old new).2.1 (stripFront old new).2.2
    simp only [stripped, inner, old', new'] at *
    omega

end ResourceTables
