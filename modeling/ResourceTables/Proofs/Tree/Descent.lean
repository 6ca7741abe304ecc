import ResourceTables.Proofs.Path.Ancestors
import ResourceTables.Proofs.Tree.Growth

/-!
# Paths that descend

A path that goes to a directory which is there, and from then on never steps back, denotes a
location below this directory, and all locations that it passes on the way down are above the one it
denotes. So what such a path leads to can be told from what stands on the way down, and making the
directories above it makes none elsewhere.

## Main definitions

* `Tree.DescendsFrom`: a path that leads to a directory and from there never steps back.
* `Tree.Anchors`: a path that others are joined to, with the directory that it leads to.
* `Tree.IsAbove`: the locations of the directories that a file is put below.
-/

namespace ResourceTables.Tree

variable {tree : Tree}

/-- A path that leads to a directory, where `root` is, and from there never steps back. -/
def DescendsFrom (tree : Tree) (root : Location) (path : Path) : Prop :=
  ∃ front rest, path.pieces = front ++ rest ∧ tree.walk (tree.start path) front = .ok root ∧
    tree.entry? root = some .directory ∧ ".." ∉ rest

/-- A path that leads to a directory, where `root` is, or is empty: what is joined to it starts from
this directory. -/
structure Anchors (tree : Tree) (base : Path) (root : Location) : Prop where
  walk : tree.walk (tree.start base) base.trunk = .ok root
  directory : tree.entry? root = some .directory

/-- A location of a directory that a file is put below: that of the parent of its path, or of an
ancestor of the parent. -/
def IsAbove (tree : Tree) (output : Path) (location : Location) : Prop :=
  ∃ parent, output.parent? = some parent ∧ ∃ upper ∈ parent.ancestors, location = tree.locate upper

theorem start_congr {path other : Path} (h : path.isAbsolute = other.isAbsolute) :
    tree.start path = tree.start other := by
  rw [start, start, h]

theorem WellFormed.directory_start (h : tree.WellFormed) (path : Path) :
    tree.entry? (tree.start path) = some .directory := by
  rw [start]
  split
  · rfl
  · exact h.home

theorem locate_origin (tree : Tree) (path : Path) : tree.locate path.origin = tree.start path := by
  rw [Path.origin, start]
  split <;> rfl

/-! ## Where walks pass -/

theorem directory_of_walk_append {location target : Location} {front rest : List String}
    (hWalk : tree.walk location (front ++ rest) = .ok target)
    (hTarget : tree.entry? target = some .directory) :
    tree.walk location front = .ok (front.foldl step location) ∧
      tree.entry? (front.foldl step location) = some .directory := by
  obtain ⟨middle, hFront, hRest⟩ := walk_append_eq_ok_iff.mp hWalk
  rw [← eq_of_walk hFront]
  refine ⟨hFront, ?_⟩
  cases rest with
  | nil =>
    cases hRest
    exact hTarget
  | cons piece rest => exact (walk_cons_eq_ok_iff.mp hRest).1

theorem arrive_append {location middle : Location} {front : List String}
    (hFront : tree.walk location front = .ok middle) (rest : List String) :
    tree.arrive location (front ++ rest) = tree.arrive middle rest := by
  rw [arrive, walk_append, hFront]
  rfl

/-- What is found in one tree on a way down is found in a well-formed tree that has it, too: the
directories on the way are there. -/
theorem WellFormed.arrive_of_arrive (hTree : tree.WellFormed) {other : Tree}
    {location target : Location} {pieces : List String} {entry : Entry} (hDown : ".." ∉ pieces)
    (hOther : other.arrive location pieces = .ok (target, entry))
    (hEntry : tree.entry? target = some entry) :
    tree.arrive location pieces = .ok (target, entry) := by
  induction pieces generalizing location with
  | nil =>
    obtain ⟨hWalk, -⟩ := arrive_eq_ok_iff.mp hOther
    exact arrive_eq_ok_iff.mpr ⟨hWalk, hEntry⟩
  | cons piece rest ih =>
    obtain ⟨hWalk, hThere⟩ := arrive_eq_ok_iff.mp hOther
    obtain ⟨hOpen, hRest⟩ := walk_cons_eq_ok_iff.mp hWalk
    have hPrefix : location <+: target := by
      rw [eq_of_walk hWalk]
      exact prefix_foldl_step hDown location
    have hDirectory : tree.entry? location = some .directory := by
      by_cases hHere : location = target
      · rw [hHere, hEntry, ← hThere, ← hHere, hOpen]
      · exact hTree.directory_of_prefix (by rw [hEntry]; simp) hPrefix hHere
    rw [arrive_cons, hDirectory]
    exact ih (fun h => hDown (List.mem_cons_of_mem _ h))
      (arrive_eq_ok_iff.mpr ⟨hRest, hThere⟩)

/-! ## Paths that others are joined to -/

theorem anchors_of_walk {base : Path} {location : Location}
    (hWalk : tree.walk (tree.start base) base.pieces = .ok location)
    (hDirectory : tree.entry? location = some .directory) : tree.Anchors base location := by
  rcases base.pieces_eq_trunk with hPieces | hPieces
  · exact ⟨hPieces ▸ hWalk, hDirectory⟩
  · rw [hPieces, walk_append_eq_ok_iff] at hWalk
    obtain ⟨middle, hTrunk, hEnd⟩ := hWalk
    cases (walk_cons_eq_ok_iff.mp hEnd).2
    exact ⟨hTrunk, hDirectory⟩

theorem anchors_of_isDirectory {base : Path} (h : tree.isDirectory base = true) :
    tree.Anchors base (tree.locate base) := by
  obtain ⟨-, hWalk, hDirectory⟩ := find_eq_ok_iff.mp (isDirectory_eq_true_iff.mp h)
  exact anchors_of_walk hWalk hDirectory

/-- What is left of a path without its steps anchors others where the path starts. -/
theorem WellFormed.anchors_origin (h : tree.WellFormed) (path : Path) :
    tree.Anchors path.origin (tree.start path) := by
  have hDirectory := h.directory_start path
  rw [Path.origin, start] at *
  split at hDirectory
  · next hAbsolute =>
    rw [if_pos hAbsolute, if_pos hAbsolute]
    exact ⟨rfl, hDirectory⟩
  · next hRelative =>
    rw [if_neg hRelative, if_neg hRelative]
    exact ⟨rfl, hDirectory⟩

/-- The directory of what is there anchors others. -/
theorem WellFormed.exists_anchors_of_parent? (h : tree.WellFormed) {path parent : Path}
    (hParent : path.parent? = some parent) {location : Location}
    (hWalk : tree.walk (tree.start path) path.pieces = .ok location) :
    ∃ root, tree.Anchors parent root := by
  rcases Path.exists_pieces_of_parent? hParent with rfl | ⟨hAbsolute, piece, rest, hPieces⟩
  · exact ⟨_, h.anchors_origin path⟩
  · rw [hPieces, walk_append_eq_ok_iff] at hWalk
    obtain ⟨middle, hFront, hRest⟩ := hWalk
    rw [← start_congr hAbsolute] at hFront
    exact ⟨middle, anchors_of_walk hFront (walk_cons_eq_ok_iff.mp hRest).1⟩

/-- A path that never steps back descends from the directory that it is joined to. -/
theorem Anchors.descendsFrom {base : Path} {root : Location} (h : tree.Anchors base root)
    {path : Path} (hPath : path.Descending) : tree.DescendsFrom root (base.join path) :=
  ⟨base.trunk, path.pieces, Path.pieces_join hPath.relative base,
    by rw [start_congr (Path.isAbsolute_join hPath.relative base)]; exact h.walk, h.directory,
    hPath.noStepBack⟩

/-- A path that never steps back descends from where its directory, which need not be there, is
joined to. -/
theorem Anchors.descendsFrom_join {base : Path} {root : Location} (h : tree.Anchors base root)
    {directory path : Path} (hDirectory : directory.Descending) (hPath : path.Descending) :
    tree.DescendsFrom root ((base.join directory).join path) := by
  refine ⟨base.trunk, directory.trunk ++ path.pieces, ?_, ?_, h.directory, ?_⟩
  · rw [Path.pieces_join hPath.relative, Path.trunk_join hDirectory.relative, List.append_assoc]
  · rw [start_congr (Path.isAbsolute_join hPath.relative _),
      start_congr (Path.isAbsolute_join hDirectory.relative base)]
    exact h.walk
  · rw [List.mem_append, not_or]
    exact ⟨fun hBack => hDirectory.noStepBack (Path.mem_pieces_of_mem_trunk hBack),
      hPath.noStepBack⟩

theorem locate_eq_trunk (tree : Tree) (path : Path) :
    tree.locate path = path.trunk.foldl step (tree.start path) := by
  rw [locate]
  rcases path.pieces_eq_trunk with hPieces | hPieces
  · rw [hPieces]
  · rw [hPieces, List.foldl_append]
    rfl

/-- A relative path is followed from where the directory is that it is joined to. -/
theorem locate_join {path : Path} (h : path.isAbsolute = false) (base : Path) :
    tree.locate (base.join path) = path.pieces.foldl step (tree.locate base) := by
  rw [locate_eq_trunk tree base, locate, Path.pieces_join h, List.foldl_append,
    start_congr (Path.isAbsolute_join h base)]

/-- A path that never steps back denotes a location below that of the directory that it is joined
to. -/
theorem prefix_locate_join {path : Path} (h : path.Descending) (base : Path) :
    tree.locate base <+: tree.locate (base.join path) := by
  rw [locate_join h.relative]
  exact prefix_foldl_step h.noStepBack _

/-! ## What paths that descend lead to -/

section Descending

variable {root : Location} {path : Path}

/-- A path that descends leads to the same in a tree that has grown, unless a file is put at or
above the location that it denotes, or a directory is made there. -/
theorem DescendsFrom.find_congr {files directories : Location → Prop} {after : Tree}
    (hPath : tree.DescendsFrom root path) (hTree : tree.WellFormed)
    (hGrown : tree.Grows files directories after)
    (hFiles : ∀ place, place <+: tree.locate path → ¬files place)
    (hMade : tree.entry? (tree.locate path) = none → ¬directories (tree.locate path)) :
    after.find path = tree.find path := by
  obtain ⟨front, rest, hPieces, hWalk, hRoot, hDown⟩ := hPath
  have hLocate : tree.locate path = rest.foldl step root := by
    rw [locate, hPieces, List.foldl_append, eq_of_walk hWalk]
  rw [hLocate] at hFiles hMade
  have hAlong : ∀ place, place <+: rest.foldl step root →
      after.entry? place = tree.entry? place ∨
        tree.entry? place = none ∧ after.entry? place = some .directory := by
    intro place hPlace
    rcases hGrown.entry?_eq_or (hFiles place hPlace) with hSame | ⟨hNone, hDirectory, -⟩
    · exact .inl hSame
    · exact .inr ⟨hNone, hDirectory⟩
  have hTarget : after.entry? (rest.foldl step root) = tree.entry? (rest.foldl step root) :=
    hGrown.entry?_eq (hFiles _ (List.prefix_refl _)) hMade
  rw [find_eq, find_eq, hGrown.start, hPieces, arrive_append hWalk,
    arrive_append (hGrown.walk hWalk)]
  rw [hTree.arrive_congr hDown (fun place _ hPlace => hAlong place hPlace) hTarget]

/-- A text that a path that descends leads to in another tree, it leads to in a well-formed tree
that has the file, too. -/
theorem DescendsFrom.readText_of_readText {files directories : Location → Prop} {after : Tree}
    (hPath : tree.DescendsFrom root path) (hTree : tree.WellFormed)
    (hGrown : tree.Grows files directories after) (hFile : ¬files (tree.locate path))
    {text : String} (hText : after.readText path = .ok text) : tree.readText path = .ok text := by
  obtain ⟨front, rest, hPieces, hWalk, -, hDown⟩ := hPath
  rw [readText_eq_ok_iff, hGrown.locate, find_eq_ok_iff, ← arrive_eq_ok_iff, hGrown.start, hPieces,
    arrive_append (hGrown.walk hWalk)] at hText
  rw [readText_eq_ok_iff, find_eq_ok_iff, ← arrive_eq_ok_iff, hPieces, arrive_append hWalk]
  refine ⟨hText.1, hTree.arrive_of_arrive hDown hText.2 ?_⟩
  obtain ⟨-, hThere⟩ := arrive_eq_ok_iff.mp hText.2
  rcases hGrown.entry?_eq_or hFile with hSame | ⟨-, hDirectory, -⟩
  · rw [← hSame, hThere]
  · rw [hThere] at hDirectory
    cases hDirectory

/-- An ancestor of a path that descends is missing on the way down, if at all. -/
theorem DescendsFrom.prefix_of_mem_ancestors (hPath : tree.DescendsFrom root path)
    (hTree : tree.WellFormed) {upper : Path} (hUpper : upper ∈ path.ancestors)
    (hNone : tree.entry? (tree.locate upper) = none) :
    tree.locate upper <+: tree.locate path := by
  obtain ⟨front, rest, hPieces, hWalk, hRoot, hDown⟩ := hPath
  rcases Path.prefix_of_mem_ancestors hUpper with rfl | ⟨⟨more, hMore⟩, hAbsolute⟩
  · rw [locate_origin, hTree.directory_start] at hNone
    cases hNone
  · rw [locate, start_congr hAbsolute] at hNone ⊢
    rw [hPieces] at hMore
    rcases List.append_eq_append_iff.mp hMore with ⟨further, hFront, -⟩ | ⟨further, hUp, hRest⟩
    · -- The way to the directory that the path descends from passes directories only.
      rw [hFront] at hWalk
      rw [(directory_of_walk_append hWalk hRoot).2] at hNone
      cases hNone
    · rw [locate, hPieces, hRest, hUp, List.foldl_append, List.foldl_append, List.foldl_append]
      refine prefix_foldl_step (fun h => hDown ?_) _
      rw [hRest]
      exact List.mem_append_right _ h

/-- A directory that is missing above a path that descends is missing on the way down. -/
theorem DescendsFrom.prefix_of_isAbove (hPath : tree.DescendsFrom root path)
    (hTree : tree.WellFormed) {location : Location} (hAbove : tree.IsAbove path location)
    (hNone : tree.entry? location = none) : location <+: tree.locate path := by
  obtain ⟨parent, hParent, upper, hUpper, rfl⟩ := hAbove
  exact hPath.prefix_of_mem_ancestors hTree (Path.ancestors_subset_of_parent? hParent upper hUpper)
    hNone

theorem DescendsFrom.of_grows {files directories : Location → Prop} {after : Tree}
    (hPath : tree.DescendsFrom root path) (hGrown : tree.Grows files directories after) :
    after.DescendsFrom root path := by
  obtain ⟨front, rest, hPieces, hWalk, hRoot, hDown⟩ := hPath
  refine ⟨front, rest, hPieces, ?_, hGrown.entry?_of_directory hRoot, hDown⟩
  rw [hGrown.start]
  exact hGrown.walk hWalk

end Descending

end ResourceTables.Tree
