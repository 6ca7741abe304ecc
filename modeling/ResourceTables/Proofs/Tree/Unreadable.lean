import ResourceTables.Proofs.Tree.Refusals

/-!
# Files that cannot be read

A text is not read for one of five reasons. Two of them a tree can lose when it grows: a file that
was not found can be put, and bytes that are no text can be written over. The other three stay: a
file or a NUL on the way, or a directory at its end. And a file that is there, whatever it holds,
can be written over without making any directory.

## Main results

* `Tree.readText_eq_error_iff`: why a text is not read.
* `Tree.Grows.readText_eq_error`: the reasons that stay.
* `Tree.WellFormed.exists_write_over`: a file that is there is written over.
-/

namespace ResourceTables.Tree

variable {tree : Tree} {path : Path}

/-! ## Why a text is not read -/

theorem mem_of_walk_eq_error {location : Location} {pieces : List String} {fault : TreeFault}
    (h : tree.walk location pieces = .error fault) : fault ∈ [.notFound, .notADirectory] := by
  induction pieces generalizing location with
  | nil => cases h
  | cons piece rest ih =>
    rw [walk] at h
    split at h
    · rw [← Except.error.inj h]
      decide
    · rw [← Except.error.inj h]
      decide
    · exact ih h

/-- What is not found is wanting, or a file or a NUL is on the way. -/
theorem mem_of_find_eq_error {fault : TreeFault} (h : tree.find path = .error fault) :
    fault ∈ [.notFound, .notADirectory, .nulInPath] := by
  rw [find_eq] at h
  cases hPath : checkPath path with
  | error reason =>
    rw [hPath] at h
    obtain rfl : reason = fault := Except.error.inj h
    rw [checkPath] at hPath
    split at hPath
    · rw [← Except.error.inj hPath]
      decide
    · split at hPath
      · rw [← Except.error.inj hPath]
        decide
      · cases hPath
  | ok =>
    rw [hPath] at h
    -- The walk fails on the way, or nothing is at its end.
    change tree.arrive (tree.start path) path.pieces = .error fault at h
    rw [arrive] at h
    cases hWalk : tree.walk (tree.start path) path.pieces with
    | error reason =>
      rw [hWalk] at h
      have hMem := mem_of_walk_eq_error hWalk
      rw [Except.error.inj h] at hMem
      exact List.mem_append_left [.nulInPath] hMem
    | ok target =>
      rw [hWalk] at h
      dsimp only [bind, Except.bind] at h
      split at h
      · rw [← Except.error.inj h]
        decide
      · cases h

/-- A text is not read because nothing is found, or a directory, or bytes that are no text. -/
theorem readText_eq_error_iff {fault : TreeFault} :
    tree.readText path = .error fault ↔ tree.find path = .error fault ∨
      (tree.find path = .ok (tree.locate path, .directory) ∧ fault = .isADirectory) ∨
      ∃ raw, tree.find path = .ok (tree.locate path, .file (.bytes raw)) ∧ fault = .notText := by
  rw [readText]
  cases hFind : tree.find path with
  | error reason => simp [bind, Except.bind]
  | ok found =>
    obtain ⟨location, entry⟩ := found
    obtain rfl := eq_locate_of_find hFind
    rcases entry with - | ⟨text | raw⟩ <;> simp [bind, Except.bind, eq_comm]

theorem readText_eq_notFound_iff :
    tree.readText path = .error .notFound ↔ tree.find path = .error .notFound := by
  simp [readText_eq_error_iff]

/-- A text is not read as such exactly where a file holds bytes that are none. -/
theorem readText_eq_notText_iff : tree.readText path = .error .notText ↔
    ∃ raw, tree.find path = .ok (tree.locate path, .file (.bytes raw)) := by
  rw [readText_eq_error_iff]
  constructor
  · rintro (hFind | ⟨-, hFault⟩ | ⟨raw, hFind, -⟩)
    · exact absurd (mem_of_find_eq_error hFind) (by decide)
    · cases hFault
    · exact ⟨raw, hFind⟩
  · rintro ⟨raw, hFind⟩
    exact .inr (.inr ⟨raw, hFind, rfl⟩)

/-! ## What stays unreadable -/

/-- A text that is not read stays so in a tree that has grown, unless nothing was found, or bytes
that are no text. -/
theorem Grows.readText_eq_error {after : Tree} {files directories : Location → Prop}
    (h : tree.Grows files directories after) {fault : TreeFault}
    (hText : tree.readText path = .error fault) (hFound : fault ≠ .notFound)
    (hBytes : fault ≠ .notText) : after.readText path = .error fault := by
  rcases readText_eq_error_iff.mp hText with hFind | ⟨hFind, rfl⟩ | ⟨raw, -, rfl⟩
  · exact readText_eq_error_iff.mpr (.inl (h.find_eq_error hFind hFound))
  · refine readText_eq_error_iff.mpr (.inr (.inl ⟨?_, rfl⟩))
    rw [h.locate]
    exact h.find hFind (.inl rfl)
  · exact absurd rfl hBytes

/-! ## Writing over -/

/-- A path to a directory that is there leads to it. -/
theorem Anchors.isDirectory {root : Location} (h : tree.Anchors path root)
    (hPath : checkPath path = .ok ()) : tree.isDirectory path = true := by
  have hWalk : tree.walk (tree.start path) path.pieces = .ok root := by
    rcases path.pieces_eq_trunk with hPieces | hPieces
    · rw [hPieces]
      exact h.walk
    · rw [hPieces, walk_append_eq_ok_iff]
      exact ⟨root, h.walk, walk_of_idle h.directory (by simp [Path.Idle])⟩
  have hFind : tree.find path = .ok (root, .directory) :=
    find_eq_ok_iff.mpr ⟨hPath, hWalk, h.directory⟩
  rw [Tree.isDirectory, hFind]

/-- A file that is there is written over, whatever it holds; its directory is there already. -/
theorem WellFormed.exists_write_over (hTree : tree.WellFormed) {content : Content}
    (h : tree.find path = .ok (tree.locate path, .file content)) (other : Content) :
    ∃ parent written, path.parent? = some parent ∧
      tree.makeDirectories parent = (tree, .ok ()) ∧ tree.write path other = .ok written := by
  obtain ⟨hPath, hWalk, hFile⟩ := find_eq_ok_iff.mp h
  obtain ⟨front, last, hPieces, hIdle, hBack⟩ := hTree.exists_last_of_find h
  have hLast : path.pieces.getLast? = some last := by rw [hPieces, List.getLast?_concat]
  cases hParent : path.parent? with
  | none =>
    exact absurd (Path.idle_of_parent?_eq_none hParent last (List.mem_of_getLast? hLast)) hIdle
  | some parent =>
    obtain ⟨root, hAnchors⟩ := hTree.exists_anchors_of_parent? hParent hWalk
    have hEnds := Path.endsIn_of_parent? hParent hLast hIdle
    have hOpen : tree.makeDirectories parent = (tree, .ok ()) := by
      by_cases hText : parent.text = ""
      · exact makeDirectories_of_text_eq_empty hText
      · refine makeDirectories_of_isDirectory (hAnchors.isDirectory ?_)
        refine checkPath_eq_ok_iff.mpr ⟨fun hNul => ?_, hText⟩
        rcases Path.mem_text_of_parent? hParent hNul with hOwn | hSlash
        · exact (checkPath_eq_ok_iff.mp hPath).1 hOwn
        · exact absurd hSlash (by decide)
    -- What has the name in the directory is the file that was found.
    have hSlot : tree.entry? (root ++ [last]) ≠ some .directory := by
      have hArrive := arrive_eq_ok_iff.mpr ⟨hWalk, hFile⟩
      rw [hAnchors.arrive_eq hEnds, arrive_eq_ok_iff, step_of_isName (isName_of_endsIn hEnds hBack)]
        at hArrive
      obtain ⟨hHere, hEntry⟩ := hArrive
      rw [Except.ok.inj hHere, hEntry]
      simp
    exact ⟨parent, _, rfl, hOpen, hAnchors.write_eq hEnds hPath hBack hSlot other⟩

end ResourceTables.Tree
