import ResourceTables.Proofs.Tree.Walk

/-!
# Growth of the file tree

Changes make directories where nothing was, and put files where no directory was. A tree grows by
such changes: nothing goes away, a directory stays a directory, and a file changes only where files
are put. So what a path leads to stays, and a directory gains no file unless one is put there.

## Main definitions

* `Tree.Grows`: a tree comes from another by making directories and putting files at locations that
  are named.
-/

namespace ResourceTables.Tree

variable {tree : Tree}

/-! ## Putting an entry -/

@[simp] theorem home_put (tree : Tree) (location : Location) (entry : Entry) :
    (tree.put location entry).home = tree.home := rfl

theorem lookup_cons_eq_ite (place other : Location) (entry : Entry)
    (rest : List (Location × Entry)) :
    ((place, entry) :: rest).lookup other =
      if other = place then some entry else rest.lookup other := by
  rw [List.lookup_cons]
  by_cases h : other = place
  · simp [h]
  · rw [beq_false_of_ne h, if_neg h]

theorem lookup_replaceEntry (location other : Location) (entry : Entry)
    (entries : List (Location × Entry)) :
    (replaceEntry location entry entries).lookup other =
      if other = location then some entry else entries.lookup other := by
  induction entries with
  | nil => rw [replaceEntry, lookup_cons_eq_ite]
  | cons first rest ih =>
    obtain ⟨place, there⟩ := first
    rw [replaceEntry, lookup_cons_eq_ite]
    split
    · next hPlace =>
      rw [lookup_cons_eq_ite, hPlace]
      split <;> rfl
    · next hPlace =>
      rw [lookup_cons_eq_ite, ih]
      by_cases h : other = place
      · rw [if_pos h, if_pos h, if_neg (h ▸ hPlace)]
      · rw [if_neg h, if_neg h]

theorem entry?_put_self {location : Location} (h : location ≠ []) (tree : Tree) (entry : Entry) :
    entry? (tree.put location entry) location = some entry := by
  rw [entry?_eq_lookup h, put, lookup_replaceEntry, if_pos rfl]

theorem entry?_put_of_ne {location other : Location} (h : other ≠ location) (tree : Tree)
    (entry : Entry) : entry? (tree.put location entry) other = tree.entry? other := by
  by_cases hRoot : other = []
  · rw [hRoot]
    rfl
  · rw [entry?_eq_lookup hRoot, entry?_eq_lookup hRoot, put, lookup_replaceEntry, if_neg h]

/-- Putting an entry takes nothing away. -/
theorem entry?_put_ne_none {location other : Location} (hRoot : location ≠ []) {entry : Entry}
    (h : tree.entry? other ≠ none) : entry? (tree.put location entry) other ≠ none := by
  by_cases hHere : other = location
  · rw [hHere, entry?_put_self hRoot]
    simp
  · rwa [entry?_put_of_ne hHere]

/-- An entry where nothing was comes last. -/
theorem replaceEntry_of_lookup_eq_none {location : Location} {entries : List (Location × Entry)}
    (h : entries.lookup location = none) (entry : Entry) :
    replaceEntry location entry entries = entries ++ [(location, entry)] := by
  induction entries with
  | nil => rfl
  | cons first rest ih =>
    obtain ⟨place, there⟩ := first
    rw [lookup_cons_eq_ite] at h
    by_cases hPlace : location = place
    · rw [if_pos hPlace] at h
      cases h
    · rw [if_neg hPlace] at h
      rw [replaceEntry, if_neg (Ne.symm hPlace), ih h]
      rfl

/-- An entry changes nothing about those that are chosen elsewhere. -/
theorem filterMap_replaceEntry {α : Type} {choose : Location × Entry → Option α}
    {location : Location} (h : ∀ entry, choose (location, entry) = none) (entry : Entry)
    (entries : List (Location × Entry)) :
    (replaceEntry location entry entries).filterMap choose = entries.filterMap choose := by
  induction entries with
  | nil => simp [replaceEntry, h]
  | cons first rest ih =>
    obtain ⟨place, there⟩ := first
    rw [replaceEntry]
    split
    · next hPlace =>
      subst hPlace
      simp [h]
    · rw [List.filterMap_cons, List.filterMap_cons, ih]

theorem map_fst_replaceEntry_subset (location : Location) (entry : Entry)
    (entries : List (Location × Entry)) :
    (replaceEntry location entry entries).map (·.1) ⊆ location :: entries.map (·.1) := by
  induction entries with
  | nil => exact List.Subset.refl _
  | cons first rest ih =>
    obtain ⟨place, there⟩ := first
    rw [replaceEntry]
    split
    · exact List.subset_cons_self _ _
    · rw [List.map_cons, List.cons_subset]
      refine ⟨List.mem_cons_of_mem _ List.mem_cons_self, fun other hOther => ?_⟩
      rcases List.mem_cons.mp (ih hOther) with rfl | hRest
      · exact List.mem_cons_self
      · exact List.mem_cons_of_mem _ (List.mem_cons_of_mem _ hRest)

/-- An entry that is put gives no location a second one. -/
theorem nodup_replaceEntry {entries : List (Location × Entry)}
    (h : (entries.map (·.1)).Nodup) (location : Location) (entry : Entry) :
    ((replaceEntry location entry entries).map (·.1)).Nodup := by
  induction entries with
  | nil => exact List.pairwise_singleton _ _
  | cons first rest ih =>
    obtain ⟨place, there⟩ := first
    rw [List.map_cons, List.nodup_cons] at h
    rw [replaceEntry]
    split
    · exact List.nodup_cons.mpr h
    · next hPlace =>
      refine List.nodup_cons.mpr ⟨fun hMem => ?_, ih h.2⟩
      exact (List.mem_cons.mp (map_fst_replaceEntry_subset _ _ _ hMem)).elim hPlace h.1

/-! ## Growing -/

/-- A tree comes from another by making directories and putting files, each with a name in a
directory that is there. Directories are made where nothing is, and files are put where no directory
is. The places of new directories and of all files that are put are among those named. -/
inductive Grows (files directories : Location → Prop) (tree : Tree) : Tree → Prop
  | refl : Grows files directories tree tree
  | directory {middle : Tree} {parent : Location} {name : String}
      (grown : Grows files directories tree middle)
      (hParent : middle.entry? parent = some .directory) (hName : IsName name)
      (hNew : middle.entry? (parent ++ [name]) = none) (hPlace : directories (parent ++ [name])) :
      Grows files directories tree (middle.put (parent ++ [name]) .directory)
  | file {middle : Tree} {parent : Location} {name : String} {content : Content}
      (grown : Grows files directories tree middle)
      (hParent : middle.entry? parent = some .directory) (hName : IsName name)
      (hSlot : middle.entry? (parent ++ [name]) ≠ some .directory)
      (hPlace : files (parent ++ [name])) :
      Grows files directories tree (middle.put (parent ++ [name]) (.file content))

namespace Grows

variable {files directories : Location → Prop} {after : Tree}

theorem trans {middle : Tree} (first : Grows files directories tree middle)
    (second : Grows files directories middle after) : Grows files directories tree after := by
  induction second with
  | refl => exact first
  | directory _ hParent hName hNew hPlace ih => exact .directory ih hParent hName hNew hPlace
  | file _ hParent hName hSlot hPlace ih => exact .file ih hParent hName hSlot hPlace

@[simp] theorem home (h : Grows files directories tree after) : after.home = tree.home := by
  induction h with
  | refl => rfl
  | directory _ _ _ _ _ ih => exact ih
  | file _ _ _ _ _ ih => exact ih

theorem start (h : Grows files directories tree after) (path : Path) :
    after.start path = tree.start path := by
  rw [Tree.start, Tree.start, h.home]

theorem locate (h : Grows files directories tree after) (path : Path) :
    after.locate path = tree.locate path := by
  rw [Tree.locate, Tree.locate, h.start]

/-- A directory stays. -/
theorem entry?_of_directory (h : Grows files directories tree after) {location : Location}
    (hEntry : tree.entry? location = some .directory) :
    after.entry? location = some .directory := by
  induction h with
  | refl => exact hEntry
  | @directory middle parent name _ _ _ hNew _ ih =>
    rw [entry?_put_of_ne, ih]
    rintro rfl
    rw [hNew] at ih
    cases ih
  | @file middle parent name content _ _ _ hSlot _ ih =>
    rw [entry?_put_of_ne, ih]
    rintro rfl
    exact hSlot ih

/-- Where no file is put, an entry stays, or a directory is new. -/
theorem entry?_eq_or (h : Grows files directories tree after) {location : Location}
    (hFile : ¬files location) :
    after.entry? location = tree.entry? location ∨
      tree.entry? location = none ∧ after.entry? location = some .directory ∧
        directories location := by
  induction h with
  | refl => exact .inl rfl
  | @directory middle parent name grown _ _ hNew hPlace ih =>
    by_cases hHere : location = parent ++ [name]
    · subst hHere
      rw [entry?_put_self (by simp)]
      rcases ih with hSame | ⟨hNone, -, -⟩
      · exact .inr ⟨hSame ▸ hNew, rfl, hPlace⟩
      · exact .inr ⟨hNone, rfl, hPlace⟩
    · rw [entry?_put_of_ne hHere]
      exact ih
  | @file middle parent name content grown _ _ _ hPlace ih =>
    have hElse : location ≠ parent ++ [name] := fun hHere => hFile (hHere ▸ hPlace)
    rw [entry?_put_of_ne hElse]
    exact ih

/-- Where no file is put and no directory is made, an entry stays. -/
theorem entry?_eq (h : Grows files directories tree after) {location : Location}
    (hFile : ¬files location) (hMade : tree.entry? location = none → ¬directories location) :
    after.entry? location = tree.entry? location := by
  rcases h.entry?_eq_or hFile with hSame | ⟨hNone, -, hNew⟩
  · exact hSame
  · exact absurd hNew (hMade hNone)

/-- Where only directories are made, an entry stays, or a directory is new. -/
theorem entry?_eq_or_made (h : Grows (fun _ => False) directories tree after)
    (location : Location) :
    after.entry? location = tree.entry? location ∨
      tree.entry? location = none ∧ after.entry? location = some .directory ∧
        directories location :=
  h.entry?_eq_or id

/-- A directory stays, and a file stays where no other is put. -/
theorem entry?_of_some (h : Grows files directories tree after) {location : Location}
    {entry : Entry} (hEntry : tree.entry? location = some entry)
    (hFile : entry = .directory ∨ ¬files location) : after.entry? location = some entry := by
  rcases hFile with rfl | hFile
  · exact h.entry?_of_directory hEntry
  · rcases h.entry?_eq_or hFile with hSame | ⟨hNone, -⟩
    · rw [hSame, hEntry]
    · rw [hEntry] at hNone
      cases hNone

/-- Nothing goes away. -/
theorem entry?_ne_none (h : Grows files directories tree after) {location : Location}
    (hEntry : tree.entry? location ≠ none) : after.entry? location ≠ none := by
  induction h with
  | refl => exact hEntry
  | directory _ _ _ _ _ ih => exact entry?_put_ne_none (by simp) ih
  | file _ _ _ _ _ ih => exact entry?_put_ne_none (by simp) ih

/-- A file stays a file, whatever is put there. -/
theorem exists_file (h : Grows files directories tree after) {location : Location}
    {content : Content} (hEntry : tree.entry? location = some (.file content)) :
    ∃ other, after.entry? location = some (.file other) := by
  induction h with
  | refl => exact ⟨content, hEntry⟩
  | @directory middle parent name _ _ _ hNew _ ih =>
    obtain ⟨other, hOther⟩ := ih
    refine ⟨other, ?_⟩
    rw [entry?_put_of_ne, hOther]
    rintro rfl
    rw [hNew] at hOther
    cases hOther
  | @file middle parent name new _ _ _ _ _ ih =>
    by_cases hHere : location = parent ++ [name]
    · rw [hHere]
      exact ⟨new, entry?_put_self (by simp) _ _⟩
    · rw [entry?_put_of_ne hHere]
      exact ih

/-- A directory was there, or is new. -/
theorem directory_or_made (h : Grows files directories tree after) {location : Location}
    (hEntry : after.entry? location = some .directory) :
    tree.entry? location = some .directory ∨
      tree.entry? location = none ∧ directories location := by
  induction h with
  | refl => exact .inl hEntry
  | @directory middle parent name grown _ _ hNew hPlace ih =>
    by_cases hHere : location = parent ++ [name]
    · subst hHere
      refine .inr ⟨by_contra fun hThere => ?_, hPlace⟩
      exact absurd hNew (grown.entry?_ne_none hThere)
    · rw [entry?_put_of_ne hHere] at hEntry
      exact ih hEntry
  | @file middle parent name content _ _ _ _ _ ih =>
    by_cases hHere : location = parent ++ [name]
    · rw [hHere, entry?_put_self (by simp)] at hEntry
      cases hEntry
    · rw [entry?_put_of_ne hHere] at hEntry
      exact ih hEntry

/-- What is named may be said otherwise, of new directories also that nothing was there before. -/
theorem imp {files' directories' : Location → Prop} (h : Grows files directories tree after)
    (hFiles : ∀ location, files location → files' location)
    (hDirectories : ∀ location, tree.entry? location = none → directories location →
      directories' location) : Grows files' directories' tree after := by
  induction h with
  | refl => exact .refl
  | @directory middle parent name grown hParent hName hNew hPlace ih =>
    have hBefore : tree.entry? (parent ++ [name]) = none := by
      by_cases hNone : tree.entry? (parent ++ [name]) = none
      · exact hNone
      · exact absurd hNew (grown.entry?_ne_none hNone)
    exact .directory ih hParent hName hNew (hDirectories _ hBefore hPlace)
  | file _ hParent hName hSlot hPlace ih =>
    exact .file ih hParent hName hSlot (hFiles _ hPlace)

/-- Growth gives no location a second entry. -/
theorem nodup (h : Grows files directories tree after)
    (hDistinct : (tree.entries.map (·.1)).Nodup) : (after.entries.map (·.1)).Nodup := by
  induction h with
  | refl => exact hDistinct
  | directory _ _ _ _ _ ih => exact nodup_replaceEntry ih _ _
  | file _ _ _ _ _ ih => exact nodup_replaceEntry ih _ _

/-- Growth keeps a tree well-formed. -/
theorem wellFormed (h : Grows files directories tree after) (hTree : tree.WellFormed) :
    after.WellFormed := by
  -- One step adds an entry with a name to a directory, which stays one.
  have hStep : ∀ {middle : Tree} {parent : Location} {name : String} {entry : Entry},
      middle.WellFormed → middle.entry? parent = some .directory → IsName name →
      (entry ≠ .directory → middle.entry? (parent ++ [name]) ≠ some .directory) →
      (middle.put (parent ++ [name]) entry).WellFormed := by
    intro middle parent name entry hMiddle hParent hName hEntry
    have hDirectory : ∀ location, middle.entry? location = some .directory →
        entry? (middle.put (parent ++ [name]) entry) location = some .directory := by
      intro location hLocation
      by_cases hHere : location = parent ++ [name]
      · subst hHere
        have hSame : entry = .directory := by_contra fun hFile => hEntry hFile hLocation
        rw [entry?_put_self (by simp), hSame]
      · rw [entry?_put_of_ne hHere, hLocation]
    refine ⟨hDirectory _ hMiddle.home, ?_, ?_⟩
    · intro location other hOther
      by_cases hHere : location ++ [other] = parent ++ [name]
      · obtain ⟨-, hSame⟩ := List.append_inj' hHere rfl
        rw [List.singleton_inj.mp hSame]
        exact hName
      · rw [entry?_put_of_ne hHere] at hOther
        exact hMiddle.name hOther
    · intro location other hOther
      by_cases hHere : location ++ [other] = parent ++ [name]
      · obtain ⟨hSame, -⟩ := List.append_inj' hHere rfl
        rw [hSame]
        exact hDirectory _ hParent
      · rw [entry?_put_of_ne hHere] at hOther
        exact hDirectory _ (hMiddle.parent hOther)
  induction h with
  | refl => exact hTree
  | directory _ hParent hName _ _ ih => exact hStep ih hParent hName fun h => absurd rfl h
  | file _ hParent hName hSlot _ ih => exact hStep ih hParent hName fun _ => hSlot

/-! ## Paths in a tree that grows -/

/-- A walk that ends goes on to end. -/
theorem walk (h : Grows files directories tree after) {location target : Location}
    {pieces : List String} (hWalk : tree.walk location pieces = .ok target) :
    after.walk location pieces = .ok target := by
  induction pieces generalizing location with
  | nil => exact hWalk
  | cons piece rest ih =>
    obtain ⟨hDirectory, hRest⟩ := walk_cons_eq_ok_iff.mp hWalk
    exact walk_cons_eq_ok_iff.mpr ⟨h.entry?_of_directory hDirectory, ih hRest⟩

/-- What a path leads to stays if it is a directory or no file is put there. -/
theorem find (h : Grows files directories tree after) {path : Path} {location : Location}
    {entry : Entry} (hFind : tree.find path = .ok (location, entry))
    (hEntry : entry = .directory ∨ ¬files location) :
    after.find path = .ok (location, entry) := by
  obtain ⟨hPath, hWalk, hThere⟩ := find_eq_ok_iff.mp hFind
  refine find_eq_ok_iff.mpr ⟨hPath, ?_, h.entry?_of_some hThere hEntry⟩
  rw [h.start]
  exact h.walk hWalk

theorem isDirectory (h : Grows files directories tree after) {path : Path}
    (hPath : tree.isDirectory path = true) : after.isDirectory path = true := by
  rw [isDirectory_eq_true_iff] at hPath ⊢
  rw [h.locate]
  exact h.find hPath (.inl rfl)

theorem readText (h : Grows files directories tree after) {path : Path} {text : String}
    (hText : tree.readText path = .ok text) (hFile : ¬files (tree.locate path)) :
    after.readText path = .ok text := by
  rw [readText_eq_ok_iff] at hText ⊢
  rw [h.locate]
  exact h.find hText (.inr hFile)

end Grows

end ResourceTables.Tree
