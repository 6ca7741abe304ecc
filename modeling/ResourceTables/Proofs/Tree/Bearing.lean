import ResourceTables.Proofs.Tree.Walk

/-!
# Bearings

Where the pieces of a path lead does not depend on what is there: so many steps back, and then down
along some names. From this bearing it is seen whether a path that starts in a directory ends inside
it.

## Main definitions

* `Tree.Inside`: a location inside a directory.
* `Bearing`: steps back and names.
* `Bearing.ofPieces`: the bearing of some pieces.
* `Bearing.target`: where a bearing leads from a location.
-/

namespace ResourceTables

/-- A location inside a directory, at any depth. -/
def Tree.Inside (root location : Location) : Prop :=
  root <+: location ∧ root ≠ location

instance (root location : Location) : Decidable (Tree.Inside root location) :=
  inferInstanceAs (Decidable (root <+: location ∧ root ≠ location))

/-- Steps back, and names down from there. -/
structure Bearing where
  back : Nat
  names : List String
deriving DecidableEq

namespace Bearing

/-- A bearing with one more piece: a step back takes off the last name, or else leads further
back. -/
def step (bearing : Bearing) (piece : String) : Bearing :=
  if piece = "" ∨ piece = "." then bearing
  else if piece = ".." then
    if bearing.names = [] then { bearing with back := bearing.back + 1 }
    else { bearing with names := bearing.names.dropLast }
  else { bearing with names := bearing.names ++ [piece] }

/-- The bearing of some pieces. -/
def ofPieces (pieces : List String) : Bearing :=
  pieces.foldl step ⟨0, []⟩

/-- Where a bearing leads from a location. There is nothing further back than the root. -/
def target (bearing : Bearing) (location : Location) : Location :=
  location.take (location.length - bearing.back) ++ bearing.names

theorem step_target (bearing : Bearing) (location : Location) (piece : String) :
    Tree.step (bearing.target location) piece = (bearing.step piece).target location := by
  rw [Tree.step, step]
  split
  · rfl
  · split
    · rw [target]
      split
      · next hNames =>
        rw [hNames, target, List.append_nil, List.append_nil, List.dropLast_eq_take,
          List.take_take, List.length_take]
        have hBack : min (min (location.length - bearing.back) location.length - 1)
            (location.length - bearing.back) = location.length - (bearing.back + 1) := by
          omega
        rw [hBack]
      · next hNames => rw [List.dropLast_append_of_ne_nil hNames, target]
    · rw [target, target, List.append_assoc]

theorem foldl_step_eq (pieces : List String) (location : Location) :
    pieces.foldl Tree.step location = (ofPieces pieces).target location := by
  have hFold : ∀ bearing : Bearing, pieces.foldl Tree.step (bearing.target location) =
      (pieces.foldl step bearing).target location := by
    induction pieces with
    | nil => exact fun bearing => rfl
    | cons piece rest ih =>
      intro bearing
      rw [List.foldl_cons, List.foldl_cons, step_target, ih]
  have hStart : (⟨0, []⟩ : Bearing).target location = location := by
    simp [target]
  rw [ofPieces, ← hFold, hStart]

/-- A bearing leads into a directory that it starts in exactly if its names lead into the part of
the directory's location that its steps back leave. -/
theorem inside_target_iff (bearing : Bearing) (root : Location) :
    Tree.Inside root (bearing.target root) ↔
      Tree.Inside (root.drop (root.length - bearing.back)) bearing.names := by
  obtain ⟨front, hFront⟩ : ∃ front, root.take (root.length - bearing.back) = front := ⟨_, rfl⟩
  obtain ⟨rest, hRest⟩ : ∃ rest, root.drop (root.length - bearing.back) = rest := ⟨_, rfl⟩
  have hParts : root = front ++ rest := by
    rw [← hFront, ← hRest, List.take_append_drop]
  rw [Tree.Inside, Tree.Inside, target, hFront, hRest, hParts, List.prefix_append_right_inj,
    ne_eq, List.append_right_inj]

end Bearing

end ResourceTables
