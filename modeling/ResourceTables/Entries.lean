/-!
# Ordered maps

A map as a list of entries in the order of their keys' first appearance.

## Main definitions

* `putEntry`: adds an entry; a key that is there keeps its place and takes the value.
* `putEntries`: the map that entries build up, one after the other.
-/

namespace ResourceTables

variable {α : Type}

/-- Adds an entry to a map; a key that is there keeps its place and takes the value. -/
def putEntry (key : String) (value : α) : List (String × α) → List (String × α)
  | [] => [(key, value)]
  | (k, v) :: rest => if k = key then (k, value) :: rest else (k, v) :: putEntry key value rest

/-- The map that entries build up, one after the other. -/
def putEntries (entries : List (String × α)) : List (String × α) :=
  entries.foldl (fun map entry => putEntry entry.1 entry.2 map) []

theorem putEntry_of_notMem {map : List (String × α)} {key : String} (h : key ∉ map.map (·.1))
    (value : α) : putEntry key value map = map ++ [(key, value)] := by
  induction map with
  | nil => rfl
  | cons entry rest ih =>
    rw [List.map_cons, List.mem_cons, not_or] at h
    rw [putEntry, if_neg (Ne.symm h.1), ih h.2, List.cons_append]

/-- At the first place of its key an entry is replaced. -/
theorem putEntry_eq_set {map : List (String × α)} {key : String} {place : Nat}
    (hKey : map[place]?.map (·.1) = some key)
    (hFirst : ∀ other < place, map[other]?.map (·.1) ≠ some key) (value : α) :
    putEntry key value map = map.set place (key, value) := by
  induction map generalizing place with
  | nil => cases hKey
  | cons entry rest ih =>
    cases place with
    | zero =>
      have hSame : entry.1 = key := Option.some.inj hKey
      rw [putEntry, if_pos hSame, hSame, List.set_cons_zero]
    | succ place =>
      have hOther : entry.1 ≠ key := fun h => hFirst 0 (Nat.succ_pos place) (congrArg some h)
      rw [putEntry, if_neg hOther, List.set_cons_succ,
        ih hKey fun other hLess => hFirst (other + 1) (Nat.succ_lt_succ hLess)]

end ResourceTables
