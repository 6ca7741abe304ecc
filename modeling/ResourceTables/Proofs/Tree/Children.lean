import ResourceTables.Proofs.Entries
import ResourceTables.Proofs.Tree.Growth

/-!
# Files in a directory

The names in a directory come sorted, and sorting keeps the order of what is left when some are
dropped. So the files in a directory are the same, in the same order, however many directories are
made beside them.

## Main definitions

* `Tree.sortedChildren`: the names in the directory at a location, with what stands there.
-/

namespace ResourceTables

/-- Sorting what is left after dropping is dropping from what is sorted. -/
theorem filter_mergeSort {α : Type} {le : α → α → Bool}
    (hTrans : ∀ a b c, le a b = true → le b c = true → le a c = true)
    (hTotal : ∀ a b, (le a b || le b a) = true) (p : α → Bool) (items : List α) :
    (items.mergeSort le).filter p = (items.filter p).mergeSort le := by
  induction items with
  | nil => simp
  | cons item rest ih =>
    obtain ⟨before, after, hSorted, hRest, hBefore⟩ := List.mergeSort_cons hTrans hTotal item rest
    rw [hRest, List.filter_append] at ih
    rw [hSorted, List.filter_append]
    by_cases hItem : p item = true
    · obtain ⟨low, high, hKept, hLow, hAbove⟩ :=
        List.mergeSort_cons hTrans hTotal item (rest.filter p)
      rw [List.filter_cons_of_pos hItem, List.filter_cons_of_pos hItem, hKept]
      -- Both cuts of the sorted rest are where the items begin that do not come before this one.
      have hAfter : ∀ other ∈ after, le item other = true := by
        have hPairwise := List.pairwise_mergeSort hTrans hTotal (item :: rest)
        rw [hSorted] at hPairwise
        exact (List.pairwise_cons.mp (List.pairwise_append.mp hPairwise).2.1).1
      have hHigh : ∀ other ∈ high, le item other = true := by
        have hPairwise := List.pairwise_mergeSort hTrans hTotal (item :: rest.filter p)
        rw [hKept] at hPairwise
        exact (List.pairwise_cons.mp (List.pairwise_append.mp hPairwise).2.1).1
      have hCut : before.filter p ++ after.filter p = low ++ high := by rw [ih, hLow]
      have hFront : ∀ {front back : List α}, (∀ other ∈ front, (!le item other) = true) →
          (∀ other ∈ back, le item other = true) →
          (front ++ back).takeWhile (fun other => !le item other) = front := by
        intro front back hNot hYes
        rw [List.takeWhile_append_of_pos hNot]
        cases back with
        | nil => simp
        | cons other back => simp [hYes other List.mem_cons_self]
      have hSame : before.filter p = low := by
        have hKeptFront := hFront
          (fun other h => hBefore other (List.mem_of_mem_filter (p := p) h))
          (fun other h => hAfter other (List.mem_of_mem_filter (p := p) h))
        rw [hCut, hFront hAbove hHigh] at hKeptFront
        exact hKeptFront.symm
      rw [hSame, List.append_cancel_left_eq] at hCut
      rw [hSame, hCut]
    · rw [List.filter_cons_of_neg hItem, List.filter_cons_of_neg hItem, ih]

namespace Tree

variable {tree : Tree}

theorem nameOrder_trans (a b c : String × Entry) (hab : decide (a.1 ≤ b.1) = true)
    (hbc : decide (b.1 ≤ c.1) = true) : decide (a.1 ≤ c.1) = true :=
  decide_eq_true (String.le_trans (of_decide_eq_true hab) (of_decide_eq_true hbc))

theorem nameOrder_total (a b : String × Entry) :
    (decide (a.1 ≤ b.1) || decide (b.1 ≤ a.1)) = true := by
  simpa using String.le_total a.1 b.1

/-- The names in the directory at a location, sorted, with what stands there. -/
def sortedChildren (tree : Tree) (location : Location) : List (String × Entry) :=
  (tree.childrenAt location).mergeSort fun a b => decide (a.1 ≤ b.1)

theorem children_of_find {path : Path} {location : Location}
    (h : tree.find path = .ok (location, .directory)) :
    tree.children path = tree.sortedChildren location := by
  rw [children, h]
  rfl

/-- The names in a directory come in order. -/
theorem sorted_children (tree : Tree) (path : Path) :
    (tree.children path).Pairwise fun first second => first.1 ≤ second.1 := by
  rw [children]
  split
  · exact (List.pairwise_mergeSort nameOrder_trans nameOrder_total _).imp of_decide_eq_true
  · exact List.Pairwise.nil

theorem children_of_isDirectory_eq_false {path : Path} (h : tree.isDirectory path = false) :
    tree.children path = [] := by
  rw [isDirectory] at h
  rw [children]
  split
  · next hFind =>
    rw [hFind] at h
    cases h
  · rfl

/-- The child of a location that an entry is, if it is right below. -/
def childOf? (location : Location) (place : Location × Entry) : Option (String × Entry) :=
  match location.isPrefixOf? place.1 with
  | some [name] => some (name, place.2)
  | _ => none

theorem childrenAt_eq (tree : Tree) (location : Location) :
    tree.childrenAt location = tree.entries.filterMap (childOf? location) := rfl

theorem childOf?_eq_some_iff {location : Location} {place : Location × Entry}
    {child : String × Entry} :
    childOf? location place = some child ↔ place = (location ++ [child.1], child.2) := by
  obtain ⟨place, entry⟩ := place
  obtain ⟨name, there⟩ := child
  rw [childOf?, Prod.mk.injEq]
  constructor
  · intro h
    split at h
    · next only hPrefix =>
      cases h
      exact ⟨(List.isPrefixOf?_eq_some_iff_append_eq.mp hPrefix).symm, rfl⟩
    · cases h
  · rintro ⟨rfl, rfl⟩
    rw [List.isPrefixOf?_eq_some_iff_append_eq.mpr rfl]

/-- Where no location has two entries, the children of a location are what stands right below it. -/
theorem mem_childrenAt_iff (hDistinct : (tree.entries.map (·.1)).Nodup) {location : Location}
    {child : String × Entry} :
    child ∈ tree.childrenAt location ↔ tree.entry? (location ++ [child.1]) = some child.2 := by
  rw [entry?_eq_lookup (by simp), lookup_eq_some_iff_mem hDistinct, childrenAt_eq,
    List.mem_filterMap]
  constructor
  · rintro ⟨place, hMem, hChild⟩
    rwa [childOf?_eq_some_iff.mp hChild] at hMem
  · exact fun hMem => ⟨_, hMem, childOf?_eq_some_iff.mpr rfl⟩

/-- Where no location has two entries, no name in a directory comes twice. -/
theorem nodup_childrenAt (hDistinct : (tree.entries.map (·.1)).Nodup) (location : Location) :
    ((tree.childrenAt location).map (·.1)).Nodup := by
  have hSublist : ((tree.childrenAt location).map fun child => location ++ [child.1]).Sublist
      (tree.entries.map (·.1)) := by
    rw [childrenAt_eq]
    induction tree.entries with
    | nil => exact .slnil
    | cons place rest ih =>
      cases hChild : childOf? location place with
      | none =>
        rw [List.filterMap_cons_none hChild]
        exact ih.cons _
      | some child =>
        rw [List.filterMap_cons_some hChild, List.map_cons, List.map_cons,
          childOf?_eq_some_iff.mp hChild]
        exact ih.cons_cons _
  have hNodup := hDistinct.sublist hSublist
  have hNames : ((tree.childrenAt location).map fun child => location ++ [child.1]) =
      ((tree.childrenAt location).map (·.1)).map fun name => location ++ [name] := by
    rw [List.map_map]
    rfl
  rw [hNames] at hNodup
  exact hNodup.of_map _

/-- The name of a child is that of an entry. -/
theorem entry?_ne_none_of_mem_sortedChildren {location : Location} {child : String × Entry}
    (h : child ∈ tree.sortedChildren location) :
    tree.entry? (location ++ [child.1]) ≠ none := by
  rw [sortedChildren, List.mem_mergeSort, childrenAt_eq, List.mem_filterMap] at h
  obtain ⟨place, hMem, hChild⟩ := h
  rw [childOf?_eq_some_iff.mp hChild] at hMem
  exact entry?_ne_none_of_mem hMem

namespace Grows

variable {files directories : Location → Prop} {after : Tree}

/-- A directory keeps its files, in the order they are in, unless one is put there. -/
theorem filter_childrenAt (h : Grows files directories tree after) {location : Location}
    (hFiles : ∀ name, ¬files (location ++ [name])) :
    (after.childrenAt location).filter (fun child => child.2 ≠ .directory) =
      (tree.childrenAt location).filter fun child => child.2 ≠ .directory := by
  induction h with
  | refl => rfl
  | @directory middle parent name _ _ _ hNew _ ih =>
    -- A new directory comes last, and is no file.
    have hEntries : (middle.put (parent ++ [name]) .directory).entries =
        middle.entries ++ [(parent ++ [name], .directory)] := by
      rw [entry?_eq_lookup (by simp)] at hNew
      exact replaceEntry_of_lookup_eq_none hNew _
    have hAdded : ([(parent ++ [name], Entry.directory)].filterMap (childOf? location)).filter
        (fun child => child.2 ≠ .directory) = [] := by
      refine List.filter_eq_nil_iff.mpr fun child hChild => ?_
      obtain ⟨place, hMem, hPlace⟩ := List.mem_filterMap.mp hChild
      rw [List.mem_singleton.mp hMem, childOf?_eq_some_iff, Prod.mk.injEq] at hPlace
      simp [← hPlace.2]
    rw [← ih, childrenAt_eq, hEntries, List.filterMap_append, List.filter_append, hAdded,
      List.append_nil, childrenAt_eq]
  | @file middle parent name content _ _ _ _ hPlace ih =>
    have hElse : ∀ entry, childOf? location (parent ++ [name], entry) = none := by
      intro entry
      rw [Option.eq_none_iff_forall_ne_some]
      rintro ⟨only, there⟩ hChild
      rw [childOf?_eq_some_iff, Prod.mk.injEq] at hChild
      exact hFiles only (hChild.1 ▸ hPlace)
    rw [← ih, childrenAt_eq, put, filterMap_replaceEntry hElse, childrenAt_eq]

theorem filterMap_sortedChildren (h : Grows files directories tree after) {location : Location}
    (hFiles : ∀ name, ¬files (location ++ [name])) {α : Type}
    {choose : String × Entry → Option α} (hChoose : ∀ name, choose (name, .directory) = none) :
    (after.sortedChildren location).filterMap choose =
      (tree.sortedChildren location).filterMap choose := by
  have hKept : ∀ children : List (String × Entry), children.filterMap choose =
      (children.filter fun child => child.2 ≠ .directory).filterMap choose := by
    intro children
    rw [List.filterMap_filter]
    refine List.filterMap_congr fun child _ => ?_
    obtain ⟨name, entry⟩ := child
    by_cases hEntry : entry = .directory
    · simp [hEntry, hChoose]
    · simp [hEntry]
  have hSort : ∀ children : List (String × Entry),
      (children.mergeSort fun a b => decide (a.1 ≤ b.1)).filter
          (fun child => child.2 ≠ .directory) =
        (children.filter fun child => child.2 ≠ .directory).mergeSort
          fun a b => decide (a.1 ≤ b.1) :=
    fun children => filter_mergeSort nameOrder_trans nameOrder_total _ children
  rw [hKept, hKept (tree.sortedChildren location), sortedChildren, sortedChildren, hSort, hSort,
    h.filter_childrenAt hFiles]

end Grows

end Tree

end ResourceTables
