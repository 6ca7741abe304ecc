import ResourceTables.Entries

/-!
# Ordered maps with an index

A map as an array of entries in the order of their keys' first appearance, with an index that tells
where the entry of a key stands. An entry with a key of the index replaces the value at that place,
and any other entry comes last.

## Main definitions

* `IndexedMap`: entries with the places of their keys.
* `IndexedMap.put`: adds an entry.
* `IndexedMap.ofEntries`: the map that entries build up, one after the other.

## Main results

* `IndexedMap.lt_size_of_lookup`: a place of the index is never out of range.
* `IndexedMap.toList_ofEntries`: the index makes no difference to what entries build up.
-/

namespace ResourceTables

variable {α : Type}

/-- A map with an index: a key has a place in it exactly if its entry stands there. -/
structure IndexedMap (α : Type) where
  entries : Array (String × α)
  places : List (String × Nat)
  lookup_places : ∀ key place,
    places.lookup key = some place ↔ entries[place]?.map (·.1) = some key

namespace IndexedMap

/-- A place of the index is never out of range. -/
theorem lt_size_of_lookup (map : IndexedMap α) {key : String} {place : Nat}
    (h : map.places.lookup key = some place) : place < map.entries.size := by
  obtain ⟨entry, hEntry, -⟩ := Option.map_eq_some_iff.mp ((map.lookup_places key place).mp h)
  exact (Array.getElem?_eq_some_iff.mp hEntry).1

/-- The index stays as it is when a value is replaced. -/
theorem lookup_places_set (map : IndexedMap α) {target : Nat} (hTarget : target < map.entries.size)
    (value : α) (key : String) (place : Nat) :
    map.places.lookup key = some place ↔
      (map.entries.set target (map.entries[target].1, value))[place]?.map (·.1) = some key := by
  rw [map.lookup_places, Array.getElem?_set]
  split
  · next hSame =>
    subst hSame
    rw [Array.getElem?_eq_getElem hTarget]
    rfl
  · rfl

/-- A new key stands behind all others. -/
theorem lookup_places_push (map : IndexedMap α) {new : String}
    (hNew : map.places.lookup new = none) (value : α) (key : String) (place : Nat) :
    ((new, map.entries.size) :: map.places).lookup key = some place ↔
      (map.entries.push (new, value))[place]?.map (·.1) = some key := by
  rw [List.lookup_cons, Array.getElem?_push]
  by_cases hLast : place = map.entries.size
  · -- An old key stands further in front.
    have hOld : map.places.lookup key ≠ some place :=
      fun h => Nat.ne_of_lt (map.lt_size_of_lookup h) hLast
    by_cases hKey : key = new
    · simp [hKey, hLast]
    · simp only [beq_eq_false_iff_ne.mpr hKey, if_pos hLast, Option.map_some, Option.some.injEq]
      exact iff_of_false hOld (Ne.symm hKey)
  · rw [if_neg hLast, ← map.lookup_places]
    by_cases hKey : key = new
    · simp [hKey, hNew, Ne.symm hLast]
    · rw [beq_eq_false_iff_ne.mpr hKey]

/-- The map without entries. -/
def empty : IndexedMap α where
  entries := #[]
  places := []
  lookup_places := by simp

/-- Adds an entry: at the place of its key if the index has one, and else behind all others. -/
def put (map : IndexedMap α) (key : String) (value : α) : IndexedMap α :=
  match h : map.places.lookup key with
  | some place =>
    have hPlace : place < map.entries.size := map.lt_size_of_lookup h
    { entries := map.entries.set place (map.entries[place].1, value)
      places := map.places
      lookup_places := map.lookup_places_set hPlace value }
  | none =>
    { entries := map.entries.push (key, value)
      places := (key, map.entries.size) :: map.places
      lookup_places := map.lookup_places_push h value }

/-- The index makes no difference to what a map holds. -/
theorem toList_put (map : IndexedMap α) (key : String) (value : α) :
    (map.put key value).entries.toList = putEntry key value map.entries.toList := by
  have hPlaces : ∀ place, map.places.lookup key = some place ↔
      map.entries.toList[place]?.map (·.1) = some key := by
    simpa only [Array.getElem?_toList] using map.lookup_places key
  rw [put]
  split
  · next place hLookup =>
    have hPlace := map.lt_size_of_lookup hLookup
    have hKey : map.entries[place].1 = key := by
      have hEntry := (map.lookup_places key place).mp hLookup
      rw [Array.getElem?_eq_getElem hPlace] at hEntry
      exact Option.some.inj hEntry
    have hFirst : ∀ other < place, map.entries.toList[other]?.map (·.1) ≠ some key := by
      intro other hLess hOther
      rw [← hPlaces, hLookup] at hOther
      exact Nat.ne_of_gt hLess (Option.some.inj hOther)
    rw [putEntry_eq_set ((hPlaces place).mp hLookup) hFirst]
    dsimp only
    rw [Array.toList_set, hKey]
  · next hLookup =>
    have hNew : key ∉ map.entries.toList.map (·.1) := by
      intro hMem
      obtain ⟨place, hPlace⟩ := List.getElem?_of_mem hMem
      rw [List.getElem?_map, ← hPlaces, hLookup] at hPlace
      cases hPlace
    rw [putEntry_of_notMem hNew]
    exact Array.toList_push

/-- The map that entries build up, one after the other. -/
def ofEntries (entries : List (String × α)) : IndexedMap α :=
  entries.foldl (fun map entry => map.put entry.1 entry.2) empty

theorem toList_ofEntries (entries : List (String × α)) :
    (ofEntries entries).entries.toList = putEntries entries :=
  (List.foldl_hom (fun map : IndexedMap α => map.entries.toList) fun map entry =>
    (map.toList_put entry.1 entry.2).symm).symm

end IndexedMap

end ResourceTables
