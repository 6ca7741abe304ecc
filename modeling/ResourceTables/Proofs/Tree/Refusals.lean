import ResourceTables.Proofs.Tree.Directories

/-!
# What growth does not change about a change

Where something is wanting on the way, a tree that grows can come to have it. All else stays: a walk
that fails for another reason fails for the same reason in a tree that has grown, and so does the
making of a directory. Along a way down also a missing directory makes no difference, because it is
made then: whether a directory can be opened for a file is the same before and after growth that
puts no file on the way.

## Main definitions

* `Tree.refusal`: why a directory is not made where something stands, or where a way fails.
* `Tree.Opens`: a directory that is there, or is made when it is needed.
-/

namespace ResourceTables.Tree

variable {tree after : Tree} {files directories : Location → Prop}

/-- Why a directory is not made at the end of a way: something stands there, or the way fails. -/
def refusal : Except TreeFault (Location × Entry) → TreeFault
  | .ok _ => .alreadyThere
  | .error fault => fault

theorem refusal_ne_notFound {result : Except TreeFault (Location × Entry)}
    (h : result ≠ .error .notFound) : refusal result ≠ .notFound := by
  cases result with
  | error fault => exact fun hFault => h (congrArg _ hFault)
  | ok found => simp [refusal]

namespace Grows

/-- A walk that does not fail for want of something goes the same way. -/
theorem walk_eq (h : Grows files directories tree after) {location : Location}
    {pieces : List String} (hWalk : tree.walk location pieces ≠ .error .notFound) :
    after.walk location pieces = tree.walk location pieces := by
  induction pieces generalizing location with
  | nil => rfl
  | cons piece rest ih =>
    rw [Tree.walk] at hWalk
    rw [Tree.walk, Tree.walk]
    rcases hEntry : tree.entry? location with - | - | content
    · rw [hEntry] at hWalk
      exact absurd rfl hWalk
    · rw [hEntry] at hWalk
      rw [h.entry?_of_directory hEntry]
      exact ih hWalk
    · obtain ⟨other, hOther⟩ := h.exists_file hEntry
      rw [hOther]

/-- What is not reached for another reason than that nothing is there is not reached for this
reason. -/
theorem arrive_eq_error (h : Grows files directories tree after) {location : Location}
    {pieces : List String} {fault : TreeFault} (hArrive : tree.arrive location pieces = .error fault)
    (hFault : fault ≠ .notFound) : after.arrive location pieces = .error fault := by
  have hWalk : tree.walk location pieces = .error fault := by
    rw [arrive] at hArrive
    cases hReach : tree.walk location pieces with
    | error reason =>
      rw [hReach] at hArrive
      rw [Except.error.inj hArrive]
    | ok target =>
      rw [hReach] at hArrive
      dsimp only [bind, Except.bind] at hArrive
      split at hArrive
      · exact absurd (Except.error.inj hArrive).symm hFault
      · cases hArrive
  rw [arrive, h.walk_eq (by rw [hWalk]; simpa using hFault), hWalk]
  rfl

/-- What is reached is reached, whatever stands there by now. -/
theorem exists_arrive (h : Grows files directories tree after) {location target : Location}
    {pieces : List String} {entry : Entry}
    (hArrive : tree.arrive location pieces = .ok (target, entry)) :
    ∃ other, after.arrive location pieces = .ok (target, other) := by
  obtain ⟨hWalk, hEntry⟩ := arrive_eq_ok_iff.mp hArrive
  obtain ⟨other, hOther⟩ :=
    Option.ne_none_iff_exists'.mp (h.entry?_ne_none (by rw [hEntry]; simp))
  exact ⟨other, arrive_eq_ok_iff.mpr ⟨h.walk hWalk, hOther⟩⟩

theorem refusal_eq (h : Grows files directories tree after) {location : Location}
    {pieces : List String} (hArrive : tree.arrive location pieces ≠ .error .notFound) :
    after.arrive location pieces ≠ .error .notFound ∧
      refusal (after.arrive location pieces) = refusal (tree.arrive location pieces) := by
  cases hReach : tree.arrive location pieces with
  | error fault =>
    rw [hReach, ne_eq, Except.error.injEq] at hArrive
    rw [h.arrive_eq_error hReach hArrive]
    exact ⟨by simpa using hArrive, rfl⟩
  | ok found =>
    obtain ⟨other, hOther⟩ := h.exists_arrive hReach
    rw [hOther]
    exact ⟨by simp, rfl⟩

/-- What fails to be found for another reason than that nothing is there fails for this reason. -/
theorem find_eq_error (h : Grows files directories tree after) {path : Path} {fault : TreeFault}
    (hFind : tree.find path = .error fault) (hFault : fault ≠ .notFound) :
    after.find path = .error fault := by
  rw [find_eq] at hFind ⊢
  cases hPath : checkPath path with
  | error reason =>
    rw [hPath] at hFind
    exact hFind
  | ok =>
    rw [hPath] at hFind
    rw [h.start]
    exact h.arrive_eq_error hFind hFault

/-- A path leads to a directory or not, as before, unless nothing was found. -/
theorem isDirectory_eq (h : Grows files directories tree after) {path : Path}
    (hFind : tree.find path ≠ .error .notFound) :
    after.isDirectory path = tree.isDirectory path := by
  unfold Tree.isDirectory
  cases hThere : tree.find path with
  | error fault =>
    rw [hThere, ne_eq, Except.error.injEq] at hFind
    rw [h.find_eq_error hThere hFind]
  | ok found =>
    obtain ⟨location, - | content⟩ := found
    · rw [h.find hThere (.inl rfl)]
    · obtain ⟨hPath, hWalk, hEntry⟩ := find_eq_ok_iff.mp hThere
      obtain ⟨other, hOther⟩ := h.exists_file hEntry
      have hFound : after.find path = .ok (location, .file other) :=
        find_eq_ok_iff.mpr ⟨hPath, by rw [h.start]; exact h.walk hWalk, hOther⟩
      rw [hFound]

end Grows

/-! ## Making directories -/

/-- Nothing is reached below where nothing is reached. -/
theorem arrive_append_of_notFound {location : Location} {front : List String}
    (h : tree.arrive location front = .error .notFound) (rest : List String) :
    tree.arrive location (front ++ rest) = .error .notFound := by
  cases hWalk : tree.walk location front with
  | error fault =>
    rw [arrive, hWalk] at h
    rw [arrive_append_of_error hWalk, Except.error.inj h]
  | ok target =>
    rw [arrive_append hWalk]
    refine arrive_of_entry?_eq_none ?_ rest
    by_contra hThere
    obtain ⟨entry, hEntry⟩ := Option.ne_none_iff_exists'.mp hThere
    cases (arrive_eq_ok_iff.mpr ⟨hWalk, hEntry⟩).symm.trans h

/-- Whether a directory is made is decided at the end of the way that its path leads, without what
is idle at its end: it is refused unless nothing is there. -/
theorem exists_makeDirectory_eq {path : Path} (hPath : checkPath path = .ok ()) :
    ∃ pieces, ∀ tree : Tree,
      (tree.arrive (tree.start path) pieces = .error .notFound →
        tree.find path = .error .notFound) ∧
      (tree.arrive (tree.start path) pieces ≠ .error .notFound →
        tree.makeDirectory path = .error (refusal (tree.arrive (tree.start path) pieces))) := by
  -- Without a name for the directory, all pieces are walked to tell why it is not made.
  cases hName : newName? (path.pieces.reverse.dropWhile (· = "")).reverse with
  | none =>
    refine ⟨path.pieces, fun tree => ⟨fun hArrive => ?_, fun _ => ?_⟩⟩
    · rw [find_eq, hPath]
      exact hArrive
    · rw [makeDirectory, find_eq, hPath, hName]
      simp only [bind, Except.bind]
      cases tree.arrive (tree.start path) path.pieces <;> rfl
  | some name =>
    obtain ⟨front, blank, hPieces, hFront, -, hIsName⟩ := exists_pieces_of_newName? hName
    refine ⟨front ++ [name], fun tree => ⟨fun hArrive => ?_, ?_⟩⟩
    · rw [find_eq, hPath, hPieces, ← List.singleton_append, ← List.append_assoc]
      exact arrive_append_of_notFound hArrive blank
    · rw [makeDirectory, hPath, hName]
      simp only [bind, Except.bind]
      rw [hFront]
      cases hWalk : tree.walk (tree.start path) front with
      | error fault =>
        rw [arrive_append_of_error hWalk]
        exact fun _ => rfl
      | ok parent =>
        rw [arrive_append hWalk, arrive_cons, step_of_isName hIsName, arrive_nil]
        -- The end of the way is decided by its parent, and below a directory by what has the name.
        dsimp only
        rcases tree.entry? parent with - | - | content
        · exact fun h => absurd rfl h
        · rcases tree.entry? (parent ++ [name]) with - | entry
          · exact fun h => absurd rfl h
          · exact fun _ => rfl
        · exact fun _ => rfl

theorem makeDirectories_of_text_eq_empty {path : Path} (h : path.text = "") :
    tree.makeDirectories path = (tree, .ok ()) := by
  rw [makeDirectories, Path.ancestors_eq, makeChain, if_pos (by simpa using h)]

/-- Where a directory cannot be made although nothing on the way is wanting, all depends on whether
it is there already. -/
theorem makeDirectories_of_error {path : Path} (hText : path.text ≠ "") {fault : TreeFault}
    (h : tree.makeDirectory path = .error fault) (hFault : fault ≠ .notFound) :
    tree.makeDirectories path =
      (tree, if tree.isDirectory path then .ok () else .error fault) := by
  rw [makeDirectories, Path.ancestors_eq, makeChain, if_neg (by simpa using hText), h]
  cases fault <;> first | rfl | exact absurd rfl hFault

/-- Where something is found, or fails to be for another reason than that nothing is there, making a
directory is refused, for the same reason in a tree that has grown. -/
theorem Grows.exists_makeDirectory_error (h : Grows files directories tree after) {path : Path}
    (hFind : tree.find path ≠ .error .notFound) :
    ∃ fault, fault ≠ .notFound ∧ tree.makeDirectory path = .error fault ∧
      after.makeDirectory path = .error fault := by
  cases hPath : checkPath path with
  | error fault =>
    refine ⟨fault, ?_, by rw [makeDirectory, hPath]; rfl, by rw [makeDirectory, hPath]; rfl⟩
    rintro rfl
    exact hFind (by rw [find_eq, hPath]; rfl)
  | ok =>
    obtain ⟨pieces, hMake⟩ := exists_makeDirectory_eq hPath
    have hReach := mt (hMake tree).1 hFind
    obtain ⟨hReachAfter, hSame⟩ := h.refusal_eq hReach
    rw [← h.start path] at hReachAfter
    refine ⟨_, refusal_ne_notFound hReach, (hMake tree).2 hReach, ?_⟩
    rw [(hMake after).2 hReachAfter, h.start, hSame]

/-! ## Directories that can be opened -/

/-- A directory that is there, or is made when it is needed; the empty path stands for the home
directory. -/
def Opens (tree : Tree) (path : Path) : Prop :=
  path.text = "" ∨ tree.find path = .error .notFound ∨ tree.isDirectory path = true

theorem text_ne_empty_of_find {path : Path} (h : tree.find path ≠ .error .notFound) :
    path.text ≠ "" := by
  intro hText
  obtain rfl : path = ⟨""⟩ := by rw [← hText]
  exact h rfl

theorem find_ne_notFound_of_isDirectory {path : Path} (h : tree.isDirectory path = true) :
    tree.find path ≠ .error .notFound := by
  rw [isDirectory_eq_true_iff.mp h]
  simp

theorem makeDirectories_of_isDirectory {path : Path} (h : tree.isDirectory path = true) :
    tree.makeDirectories path = (tree, .ok ()) := by
  have hFind := find_ne_notFound_of_isDirectory h
  have hSame : tree.Grows (fun _ => False) (fun _ => False) tree := .refl
  obtain ⟨fault, hFault, hMake, -⟩ := hSame.exists_makeDirectory_error hFind
  rw [makeDirectories_of_error (text_ne_empty_of_find hFind) hMake hFault, if_pos h]

/-- A directory that cannot be opened is refused, for the same reason in a tree that has grown. -/
theorem Grows.makeDirectories_of_not_opens (h : Grows files directories tree after) {path : Path}
    (hOpens : ¬tree.Opens path) :
    ∃ fault, tree.makeDirectories path = (tree, .error fault) ∧
      after.makeDirectories path = (after, .error fault) := by
  obtain ⟨hText, hFind, hDirectory⟩ : path.text ≠ "" ∧ tree.find path ≠ .error .notFound ∧
      ¬tree.isDirectory path = true := by
    rwa [Opens, not_or, not_or] at hOpens
  obtain ⟨fault, hFault, hBefore, hAfter⟩ := h.exists_makeDirectory_error hFind
  refine ⟨fault, ?_, ?_⟩
  · rw [makeDirectories_of_error hText hBefore hFault, if_neg hDirectory]
  · rw [makeDirectories_of_error hText hAfter hFault, h.isDirectory_eq hFind, if_neg hDirectory]

section Descending

variable {root : Location} {path parent : Path}

/-- A directory that is missing on a way down is missing or there in a tree that has grown, unless a
file is put on the way. -/
theorem DescendsFrom.missing_or_isDirectory (hPath : tree.DescendsFrom root path)
    (hTree : tree.WellFormed) (hMissing : tree.Missing path)
    (hGrown : tree.Grows files directories after)
    (hFiles : ∀ place, place <+: tree.locate path → ¬files place) :
    after.find path = .error .notFound ∨ after.isDirectory path = true := by
  obtain ⟨made, hMade, hThere⟩ := hTree.makeDirectories_of_descendsFrom hMissing hPath
  have hMadeGrown := tree.grows_makeDirectories path
  rw [hMade] at hMadeGrown
  have hMadeTree := hMadeGrown.wellFormed hTree
  obtain ⟨front, rest, hPieces, hWalk, -, hDown⟩ := hPath
  have hLocate : tree.locate path = rest.foldl step root := by
    rw [locate, hPieces, List.foldl_append, eq_of_walk hWalk]
  have hReach : made.arrive root rest = .ok (tree.locate path, .directory) := by
    have hFound := isDirectory_eq_true_iff.mp hThere
    rw [find_eq_ok_iff, ← arrive_eq_ok_iff, hMadeGrown.start, hMadeGrown.locate, hPieces,
      arrive_append (hMadeGrown.walk hWalk)] at hFound
    exact hFound.2
  -- In the tree with the directory made, all on the way are directories, so no file was there.
  have hAlong : ∀ place, place <+: tree.locate path →
      after.entry? place = none ∨ after.entry? place = some .directory := by
    intro place hPlace
    have hOpen : made.entry? place = some .directory := by
      have hEnd := (arrive_eq_ok_iff.mp hReach).2
      by_cases hHere : place = tree.locate path
      · rw [hHere, hEnd]
      · exact hMadeTree.directory_of_prefix (by rw [hEnd]; simp) hPlace hHere
    rcases hGrown.entry?_eq_or (hFiles place hPlace) with hSame | ⟨-, hDirectory, -⟩
    · rw [hSame]
      rcases hMadeGrown.entry?_eq_or_made place with hMadeSame | ⟨hNone, -⟩
      · exact .inr (hMadeSame ▸ hOpen)
      · exact .inl hNone
    · exact .inr hDirectory
  have hFind : after.find path = after.arrive root rest := by
    rw [find_eq, hMissing.checkPath, hPieces, hGrown.start]
    exact arrive_append (hGrown.walk hWalk) rest
  rcases hAlong _ (List.prefix_refl _) with hNone | hDirectory
  · refine .inl (hFind.trans (arrive_eq_notFound hDown (fun place _ hPlace => ?_) ?_))
    · exact hAlong place (hLocate ▸ hPlace)
    · exact hLocate ▸ hNone
  · right
    rw [isDirectory, hFind, (hGrown.wellFormed hTree).arrive_of_arrive hDown hReach hDirectory]

theorem locate_of_endsIn {last : String} (h : path.EndsIn parent last) (tree : Tree) :
    tree.locate path = step (tree.locate parent) last := by
  obtain ⟨between, hPieces, hBetween⟩ := h.pieces
  rw [locate_eq_trunk tree parent, locate, hPieces, List.foldl_append, List.foldl_append,
    foldl_step_of_idle hBetween, start_congr h.isAbsolute]
  rfl

/-- The directory of a path on a way down can be opened in a tree that has grown as well, unless a
file is put on the way. -/
theorem DescendsFrom.opens (hPath : tree.DescendsFrom root path) (hTree : tree.WellFormed)
    (hParent : path.parent? = some parent) (hGrown : tree.Grows files directories after)
    (hFiles : ∀ place, place <+: tree.locate parent → ¬files place) (hOpens : tree.Opens parent) :
    after.Opens parent := by
  rcases hOpens with hText | hFind | hDirectory
  · exact .inl hText
  · by_cases hText : parent.text = ""
    · exact .inl hText
    · have hMissing := hTree.missing_of_parent? hParent hText hFind
      have hUp := hPath.of_parent? hParent hMissing
      exact .inr (hUp.missing_or_isDirectory hTree hMissing hGrown hFiles)
  · exact .inr (.inr (hGrown.isDirectory hDirectory))

/-- A directory on a way down that can be opened is there when it has been made, with nothing new in
it. -/
theorem DescendsFrom.exists_opened (hPath : tree.DescendsFrom root path) (hTree : tree.WellFormed)
    (hParent : path.parent? = some parent) (hOpens : tree.Opens parent) :
    ∃ made, tree.makeDirectories parent = (made, .ok ()) ∧
      made.Anchors parent (tree.locate parent) ∧
      ∀ name, made.entry? (tree.locate parent ++ [name]) =
        tree.entry? (tree.locate parent ++ [name]) := by
  by_cases hText : parent.text = ""
  · obtain rfl : parent = ⟨""⟩ := by rw [← hText]
    exact ⟨tree, makeDirectories_of_text_eq_empty rfl, hTree.anchors_origin ⟨""⟩, fun _ => rfl⟩
  · rcases hOpens.resolve_left hText with hFind | hDirectory
    · have hMissing := hTree.missing_of_parent? hParent hText hFind
      have hUp := hPath.of_parent? hParent hMissing
      obtain ⟨made, hMade, hAnchors, hNew, hEmpty⟩ := hTree.exists_made_empty hMissing hUp
      refine ⟨made, hMade, hAnchors, fun name => ?_⟩
      rw [hEmpty, hTree.entry?_eq_none_of_prefix hNew (List.prefix_append _ _)]
    · exact ⟨tree, makeDirectories_of_isDirectory hDirectory, anchors_of_isDirectory hDirectory,
        fun _ => rfl⟩

/-- In a directory that is there a file is put unless a directory has its name. -/
theorem Anchors.write_eq_ite {place : Location} {last : String} (h : tree.Anchors parent place)
    (hEnds : path.EndsIn parent last) (hCheck : checkPath path = .ok ()) (hBack : last ≠ "..")
    (content : Content) :
    tree.write path content =
      if tree.entry? (place ++ [last]) = some .directory then .error .isADirectory
      else .ok (tree.put (place ++ [last]) (.file content)) := by
  split
  · next hSlot =>
    rw [write, hCheck, newName?_of_endsIn hEnds hBack]
    simp only [bind, Except.bind, findSlot, h.walk_dropLast hEnds, h.directory, hSlot]
  · next hSlot => exact h.write_eq hEnds hCheck hBack hSlot content

end Descending

end ResourceTables.Tree
