import ResourceTables.Proofs.Path.Ancestors
import ResourceTables.Proofs.Tree.Growth

/-!
# Changes of the file tree

What a change does that is not refused: it puts one file, or one directory, at the location that its
path denotes. A refused change has done nothing, except that making a directory together with those
above it may have made some of these. Either way the tree has grown.

## Main definitions

* `Tree.Slot`: a location that a path denotes in a directory that is there.
-/

namespace ResourceTables.Tree

variable {tree : Tree}

/-- A location that a path denotes, in a directory that is there. -/
structure Slot (tree : Tree) (path : Path) (parent : Location) (name : String) : Prop where
  locate : tree.locate path = parent ++ [name]
  isName : IsName name
  directory : tree.entry? parent = some .directory

/-! ## Names at the end of a path -/

theorem newName?_eq_some_iff {pieces : List String} {name : String} :
    newName? pieces = some name ↔
      ∃ front, pieces = front ++ [name] ∧ name ≠ "" ∧ name ≠ "." ∧ name ≠ ".." := by
  rw [newName?]
  constructor
  · intro h
    split at h
    · next last hLast =>
      split at h
      · cases h
      · next hName =>
        cases h
        obtain ⟨front, hFront⟩ := List.getLast?_eq_some_iff.mp hLast
        simp only [not_or] at hName
        exact ⟨front, hFront, hName⟩
    · cases h
  · rintro ⟨front, rfl, hName⟩
    simp [hName]

theorem isName_of_mem_pieces {path : Path} {name : String} (hMem : name ∈ path.pieces)
    (hEmpty : name ≠ "") (hDot : name ≠ ".") (hBack : name ≠ "..") : IsName name where
  nonempty := hEmpty
  notDot := hDot
  notStepBack := hBack
  noSlash := Path.slash_notMem_of_mem_pieces hMem

/-- The pieces of a path without the empty ones at the end. -/
theorem exists_dropBlank (path : Path) :
    ∃ blank, path.pieces = (path.pieces.reverse.dropWhile (· = "")).reverse ++ blank ∧
      ∀ piece ∈ blank, piece = "" := by
  refine ⟨(path.pieces.reverse.takeWhile (· = "")).reverse, ?_, fun piece hPiece => ?_⟩
  · rw [← List.reverse_append, List.takeWhile_append_dropWhile, List.reverse_reverse]
  · have hBlank := List.all_takeWhile (p := fun piece => decide (piece = ""))
      (l := path.pieces.reverse)
    exact of_decide_eq_true (List.all_eq_true.mp hBlank _ (List.mem_reverse.mp hPiece))

/-! ## Putting a file -/

theorem write_eq_ok_iff {path : Path} {content : Content} {written : Tree} :
    tree.write path content = .ok written ↔
      checkPath path = .ok () ∧ ∃ name parent, newName? path.pieces = some name ∧
        tree.walk (tree.start path) path.pieces.dropLast = .ok parent ∧
        tree.entry? parent = some .directory ∧
        tree.entry? (parent ++ [name]) ≠ some .directory ∧
        written = tree.put (parent ++ [name]) (.file content) := by
  constructor
  · intro h
    obtain ⟨⟨⟩, hPath, h⟩ := bind_eq_ok.mp h
    cases hName : newName? path.pieces with
    | none =>
      rw [hName] at h
      obtain ⟨⟨location, - | content⟩, -, h⟩ := bind_eq_ok.mp h <;> cases h
    | some name =>
      rw [hName] at h
      obtain ⟨location, hFind, h⟩ := bind_eq_ok.mp h
      obtain ⟨parent, hWalk, hParent⟩ := bind_eq_ok.mp hFind
      split at hParent
      · cases hParent
      · cases hParent
      · next hDirectory =>
        cases hParent
        split at h
        · cases h
        · next hSlot =>
          cases h
          exact ⟨hPath, name, parent, rfl, hWalk, hDirectory, hSlot, rfl⟩
  · rintro ⟨hPath, name, parent, hName, hWalk, hParent, hSlot, rfl⟩
    refine bind_eq_ok.mpr ⟨(), hPath, ?_⟩
    rw [hName]
    refine bind_eq_ok.mpr ⟨parent ++ [name], bind_eq_ok.mpr ⟨parent, hWalk, ?_⟩, ?_⟩
    · rw [hParent]
    · split
      · next hDirectory => exact absurd hDirectory hSlot
      · rfl

theorem locate_of_newName? {path : Path} {name : String} {parent : Location}
    (hName : newName? path.pieces = some name)
    (hWalk : tree.walk (tree.start path) path.pieces.dropLast = .ok parent) :
    IsName name ∧ tree.locate path = parent ++ [name] := by
  obtain ⟨front, hFront, hParts⟩ := newName?_eq_some_iff.mp hName
  have hIsName : IsName name :=
    isName_of_mem_pieces (by rw [hFront]; simp) hParts.1 hParts.2.1 hParts.2.2
  rw [hFront, List.dropLast_concat] at hWalk
  refine ⟨hIsName, ?_⟩
  rw [locate, hFront, List.foldl_append, ← eq_of_walk hWalk, List.foldl_cons, List.foldl_nil,
    step_of_isName hIsName]

/-- A file that is put is put in a directory, at the location that the path denotes. -/
theorem slot_of_write {path : Path} {content : Content} {written : Tree}
    (h : tree.write path content = .ok written) :
    ∃ parent name, tree.Slot path parent name ∧ tree.entry? (parent ++ [name]) ≠ some .directory ∧
      written = tree.put (parent ++ [name]) (.file content) := by
  obtain ⟨hPath, name, parent, hName, hWalk, hParent, hSlot, rfl⟩ := write_eq_ok_iff.mp h
  obtain ⟨hIsName, hLocate⟩ := locate_of_newName? hName hWalk
  exact ⟨parent, name, ⟨hLocate, hIsName, hParent⟩, hSlot, rfl⟩

theorem grows_write {path : Path} {content : Content} {written : Tree}
    (h : tree.write path content = .ok written) :
    Grows (· = tree.locate path) (fun _ => False) tree written := by
  obtain ⟨parent, name, slot, hSlot, rfl⟩ := slot_of_write h
  exact .file .refl slot.directory slot.isName hSlot slot.locate.symm

/-- A text that has been put is found. -/
theorem readText_of_write {path : Path} {text : String} {written : Tree}
    (h : tree.write path (.text text) = .ok written) : written.readText path = .ok text := by
  have hGrown := grows_write h
  obtain ⟨hPath, name, parent, hName, hWalk, hParent, hSlot, rfl⟩ := write_eq_ok_iff.mp h
  obtain ⟨hIsName, hLocate⟩ := locate_of_newName? hName hWalk
  obtain ⟨front, hFront, -⟩ := newName?_eq_some_iff.mp hName
  rw [readText_eq_ok_iff, hGrown.locate, hLocate]
  refine find_eq_ok_iff.mpr ⟨hPath, ?_, entry?_put_self (by simp) _ _⟩
  rw [hFront, List.dropLast_concat] at hWalk
  rw [hGrown.start, hFront, walk_append_eq_ok_iff]
  refine ⟨parent, hGrown.walk hWalk, walk_cons_eq_ok_iff.mpr ⟨?_, ?_⟩⟩
  · exact hGrown.entry?_of_directory hParent
  · rw [step_of_isName hIsName]
    rfl

/-! ## Making directories -/

theorem makeDirectory_eq_ok_iff {path : Path} {made : Tree} :
    tree.makeDirectory path = .ok made ↔
      checkPath path = .ok () ∧ ∃ name parent,
        newName? (path.pieces.reverse.dropWhile (· = "")).reverse = some name ∧
        tree.walk (tree.start path) (path.pieces.reverse.dropWhile (· = "")).reverse.dropLast =
          .ok parent ∧
        tree.entry? parent = some .directory ∧ tree.entry? (parent ++ [name]) = none ∧
        made = tree.put (parent ++ [name]) .directory := by
  constructor
  · intro h
    obtain ⟨⟨⟩, hPath, h⟩ := bind_eq_ok.mp h
    cases hName : newName? (path.pieces.reverse.dropWhile (· = "")).reverse with
    | none =>
      rw [hName] at h
      obtain ⟨found, -, h⟩ := bind_eq_ok.mp h
      cases h
    | some name =>
      rw [hName] at h
      obtain ⟨parent, hWalk, hParent⟩ := bind_eq_ok.mp h
      split at hParent
      · cases hParent
      · cases hParent
      · next hDirectory =>
        split at hParent
        · cases hParent
        · next hSlot =>
          cases hParent
          exact ⟨hPath, name, parent, rfl, hWalk, hDirectory, hSlot, rfl⟩
  · rintro ⟨hPath, name, parent, hName, hWalk, hParent, hSlot, rfl⟩
    refine bind_eq_ok.mpr ⟨(), hPath, ?_⟩
    rw [hName]
    refine bind_eq_ok.mpr ⟨parent, hWalk, ?_⟩
    rw [hParent, hSlot]

/-- A directory that is made is made in a directory, at the location that the path denotes. -/
theorem slot_of_makeDirectory {path : Path} {made : Tree} (h : tree.makeDirectory path = .ok made) :
    ∃ parent name, tree.Slot path parent name ∧ tree.entry? (parent ++ [name]) = none ∧
      made = tree.put (parent ++ [name]) .directory := by
  obtain ⟨hPath, name, parent, hName, hWalk, hParent, hSlot, rfl⟩ := makeDirectory_eq_ok_iff.mp h
  obtain ⟨blank, hPieces, hBlank⟩ := exists_dropBlank path
  obtain ⟨front, hFront, hParts⟩ := newName?_eq_some_iff.mp hName
  have hIsName : IsName name :=
    isName_of_mem_pieces (by rw [hPieces, hFront]; simp) hParts.1 hParts.2.1 hParts.2.2
  refine ⟨parent, name, ⟨?_, hIsName, hParent⟩, hSlot, rfl⟩
  rw [hFront, List.dropLast_concat] at hWalk
  rw [locate, hPieces, hFront, List.foldl_append, List.foldl_append, ← eq_of_walk hWalk,
    foldl_step_of_idle fun piece hPiece => .inl (hBlank piece hPiece), List.foldl_cons,
    List.foldl_nil, step_of_isName hIsName]

theorem grows_makeDirectory {path : Path} {made : Tree} (h : tree.makeDirectory path = .ok made) :
    Grows (fun _ => False) (· = tree.locate path) tree made := by
  obtain ⟨parent, name, slot, hSlot, rfl⟩ := slot_of_makeDirectory h
  exact .directory .refl slot.directory slot.isName hSlot slot.locate.symm

/-- Whatever becomes of making a chain of directories, the tree has grown by some of them. -/
theorem grows_makeChain (tree : Tree) (paths : List Path) :
    Grows (fun _ => False) (fun location => ∃ path ∈ paths, location = tree.locate path) tree
      (tree.makeChain paths).1 := by
  induction paths with
  | nil => exact .refl
  | cons path parents ih =>
    -- The directory itself is made before its parents are tried, or after them.
    have hOwn : ∀ {middle made : Tree},
        Grows (fun _ => False) (fun location => ∃ other ∈ path :: parents,
          location = tree.locate other) tree middle → middle.makeDirectory path = .ok made →
        Grows (fun _ => False) (fun location => ∃ other ∈ path :: parents,
          location = tree.locate other) tree made := by
      intro middle made hMiddle hMade
      refine hMiddle.trans ((grows_makeDirectory hMade).imp (fun _ h => h) fun location _ h => ?_)
      exact ⟨path, List.mem_cons_self, by rw [h, hMiddle.locate]⟩
    have hParents : Grows (fun _ => False) (fun location => ∃ other ∈ path :: parents,
        location = tree.locate other) tree (tree.makeChain parents).1 :=
      ih.imp (fun _ h => h) fun location _ ⟨other, hOther, hEq⟩ =>
        ⟨other, List.mem_cons_of_mem _ hOther, hEq⟩
    rw [makeChain]
    split
    · exact .refl
    · split
      · next made hMade => exact hOwn .refl hMade
      · split
        · next hChain =>
          rw [hChain] at hParents
          exact hParents
        · next hChain =>
          rw [hChain] at hParents
          split
          · next hDone => exact hOwn hParents hDone
          · exact hParents
      · exact .refl

/-- Making a directory with those above it makes the tree grow by ancestors of the path. -/
theorem grows_makeDirectories (tree : Tree) (path : Path) :
    Grows (fun _ => False) (fun location => ∃ upper ∈ path.ancestors, location = tree.locate upper)
      tree (tree.makeDirectories path).1 :=
  grows_makeChain tree path.ancestors

end ResourceTables.Tree
