import ResourceTables.Proofs.Tree.Changes
import ResourceTables.Proofs.Tree.Descent

/-!
# Making a directory with those above it

Making a directory together with those above it changes the tree exactly if nothing is found where
its path leads. If something is found, the first attempt is made or refused on the spot; if nothing
is found, then the directory itself or one above it can be made, and what has been made stays.

## Main results

* `Tree.makeDirectories_eq_self`: the tree stays if the path leads to something.
* `Tree.WellFormed.exists_made`: a directory is made if the path leads to nothing.
* `Tree.WellFormed.makeDirectories_of_descendsFrom`: nothing is refused on a way down.
-/

namespace ResourceTables.Tree

variable {tree : Tree}

/-! ## Where nothing is found -/

theorem arrive_append_of_error {location : Location} {front : List String} {fault : TreeFault}
    (h : tree.walk location front = .error fault) (rest : List String) :
    tree.arrive location (front ++ rest) = .error fault := by
  rw [arrive, walk_append, h]
  rfl

theorem arrive_of_entry?_eq_none {location : Location} (h : tree.entry? location = none)
    (pieces : List String) : tree.arrive location pieces = .error .notFound := by
  cases pieces with
  | nil => rw [arrive_nil, h]
  | cons piece rest => rw [arrive_cons, h]

theorem walk_of_idle {location : Location} (h : tree.entry? location = some .directory)
    {pieces : List String} (hIdle : ∀ piece ∈ pieces, Path.Idle piece) :
    tree.walk location pieces = .ok location := by
  induction pieces with
  | nil => rfl
  | cons piece rest ih =>
    rw [List.forall_mem_cons] at hIdle
    rw [walk_cons_eq_ok_iff, step_of_idle hIdle.1]
    exact ⟨h, ih hIdle.2⟩

theorem arrive_ne_notFound {location : Location} {entry : Entry}
    (h : tree.entry? location = some entry) {pieces : List String}
    (hIdle : ∀ piece ∈ pieces, Path.Idle piece) :
    tree.arrive location pieces ≠ .error .notFound := by
  cases entry with
  | directory =>
    rw [arrive_eq_ok_iff.mpr ⟨walk_of_idle h hIdle, h⟩]
    simp
  | file content =>
    cases pieces with
    | nil => simp [h]
    | cons piece rest => simp [arrive_cons, h]

theorem WellFormed.directory_dropLast (h : tree.WellFormed) {location : Location}
    (hDirectory : tree.entry? location = some .directory) :
    tree.entry? location.dropLast = some .directory := by
  induction location using List.reverseRecOn with
  | nil => exact hDirectory
  | append_singleton location name _ =>
    rw [List.dropLast_concat]
    exact h.parent (by rw [hDirectory]; simp)

/-- The last piece of a path that leads to a file is a name: no other leads from a directory to a
file. -/
theorem WellFormed.exists_last_of_find (hTree : tree.WellFormed) {path : Path} {content : Content}
    (h : tree.find path = .ok (tree.locate path, .file content)) :
    ∃ front last, path.pieces = front ++ [last] ∧ ¬Path.Idle last ∧ last ≠ ".." := by
  obtain ⟨-, hWalk, hFile⟩ := find_eq_ok_iff.mp h
  obtain ⟨front, last, hPieces⟩ : ∃ front last, path.pieces = front ++ [last] :=
    ⟨_, _, (List.dropLast_concat_getLast path.pieces_ne_nil).symm⟩
  rw [hPieces, walk_append_eq_ok_iff] at hWalk
  obtain ⟨middle, -, hLast⟩ := hWalk
  obtain ⟨hMiddle, hStep⟩ := walk_cons_eq_ok_iff.mp hLast
  refine ⟨front, last, hPieces, fun hIdle => ?_, fun hBack => ?_⟩
  · rw [step_of_idle hIdle] at hStep
    cases hStep
    cases hMiddle.symm.trans hFile
  · rw [hBack] at hStep
    have hUp : tree.locate path = middle.dropLast := (Except.ok.inj hStep).symm
    rw [hUp, hTree.directory_dropLast hMiddle] at hFile
    cases hFile

/-- A path that leads to a file ends with a name. -/
theorem WellFormed.exists_fileName (hTree : tree.WellFormed) {path : Path} {text : String}
    (h : tree.readText path = .ok text) : ∃ name, path.fileName? = some name := by
  obtain ⟨front, last, hPieces, hIdle, hBack⟩ :=
    hTree.exists_last_of_find (readText_eq_ok_iff.mp h)
  exact ⟨last, Path.fileName?_of_getLast? (by rw [hPieces, List.getLast?_concat]) hIdle hBack⟩

theorem checkPath_eq_ok_iff {path : Path} :
    checkPath path = .ok () ↔ '\x00' ∉ path.text.toList ∧ path.text ≠ "" := by
  simp only [checkPath, List.contains_iff_mem, String.isEmpty_iff]
  split
  · next hNul => simp [hNul]
  · next hNul =>
    split
    · next hEmpty => simp [hEmpty]
    · next hEmpty => simp [hNul, hEmpty]

/-- Nothing is found at a path that is not empty exactly if it can be walked and what it leads to is
wanting. -/
theorem find_eq_notFound_iff {path : Path} (hText : path.text ≠ "") :
    tree.find path = .error .notFound ↔ '\x00' ∉ path.text.toList ∧
      tree.arrive (tree.start path) path.pieces = .error .notFound := by
  rw [find_eq]
  by_cases hNul : '\x00' ∈ path.text.toList
  · have hCheck : checkPath path = .error .nulInPath := by
      rw [checkPath, if_pos (by simpa using hNul)]
    simp [hCheck, hNul, bind, Except.bind]
  · rw [checkPath_eq_ok_iff.mpr ⟨hNul, hText⟩]
    simp [hNul, bind, Except.bind]

/-! ## One directory -/

/-- The pieces that name a new directory, with the name apart. -/
theorem exists_pieces_of_newName? {path : Path} {name : String}
    (h : newName? (path.pieces.reverse.dropWhile (· = "")).reverse = some name) :
    ∃ front blank, path.pieces = front ++ name :: blank ∧
      (path.pieces.reverse.dropWhile (· = "")).reverse.dropLast = front ∧
      (∀ piece ∈ blank, Path.Idle piece) ∧ IsName name := by
  obtain ⟨blank, hPieces, hBlank⟩ := exists_dropBlank path
  obtain ⟨front, hFront, hEmpty, hDot, hBack⟩ := newName?_eq_some_iff.mp h
  rw [hFront, List.append_assoc, List.singleton_append] at hPieces
  refine ⟨front, blank, hPieces, by rw [hFront, List.dropLast_concat], ?_, ?_⟩
  · exact fun piece hPiece => .inl (hBlank piece hPiece)
  · exact isName_of_mem_pieces (by rw [hPieces]; simp) hEmpty hDot hBack

/-- Making a directory is refused for want of something on the way, or goes well, exactly where
nothing is found. -/
theorem makeDirectory_ok_or_notFound_iff {path : Path} :
    ((∃ made, tree.makeDirectory path = .ok made) ∨
        tree.makeDirectory path = .error .notFound) ↔ tree.find path = .error .notFound := by
  rw [makeDirectory, find_eq]
  cases hPath : checkPath path with
  | error fault => simp [bind, Except.bind]
  | ok =>
    cases hName : newName? (path.pieces.reverse.dropWhile (· = "")).reverse with
    | none =>
      simp only [bind, Except.bind]
      cases tree.arrive (tree.start path) path.pieces <;> simp
    | some name =>
      obtain ⟨front, blank, hPieces, hFront, hBlank, hIsName⟩ := exists_pieces_of_newName? hName
      simp only [bind, Except.bind]
      rw [hFront, hPieces]
      cases hWalk : tree.walk (tree.start path) front with
      | error fault =>
        rw [arrive_append_of_error hWalk]
        simp
      | ok parent =>
        rw [arrive_append hWalk, arrive_cons, step_of_isName hIsName]
        dsimp only
        rcases tree.entry? parent with - | - | content
        · simp
        · -- In a directory that is there, only the slot itself decides.
          cases hSlot : tree.entry? (parent ++ [name]) with
          | none => simp [arrive_of_entry?_eq_none hSlot]
          | some entry => simp [arrive_ne_notFound hSlot hBlank]
        · simp

theorem entry?_of_makeDirectory {path : Path} {made : Tree}
    (h : tree.makeDirectory path = .ok made) :
    ∃ location, tree.entry? location = none ∧ made.entry? location ≠ none := by
  obtain ⟨parent, name, -, hNew, rfl⟩ := slot_of_makeDirectory h
  exact ⟨parent ++ [name], hNew, by rw [entry?_put_self (by simp)]; simp⟩

/-! ## Directories above -/

/-- Where something is found, or the path is empty, the tree stays. -/
theorem makeDirectories_eq_self {path : Path}
    (h : path.text = "" ∨ tree.find path ≠ .error .notFound) :
    (tree.makeDirectories path).1 = tree := by
  rw [makeDirectories, Path.ancestors_eq, makeChain]
  split
  · rfl
  · next hText =>
    rw [String.isEmpty_iff] at hText
    have hFound := h.resolve_left hText
    rw [ne_eq, ← makeDirectory_ok_or_notFound_iff, not_or, not_exists] at hFound
    split
    · next made hMade => exact absurd hMade (hFound.1 made)
    · next hMissing => exact absurd hMissing hFound.2
    · rfl

/-- Nothing is found at a path that ends with a piece which leads somewhere. -/
structure Missing (tree : Tree) (path : Path) : Prop where
  last : ∃ last, path.pieces.getLast? = some last ∧ ¬Path.Idle last
  find : tree.find path = .error .notFound

theorem Missing.text_ne_empty {path : Path} (h : tree.Missing path) : path.text ≠ "" := by
  obtain ⟨last, hLast, hIdle⟩ := h.last
  intro hEmpty
  rw [Path.getLast?_pieces_eq_empty_iff path |>.mpr (.inl hEmpty)] at hLast
  exact hIdle (.inl (Option.some.inj hLast).symm)

theorem Missing.checkPath {path : Path} (h : tree.Missing path) : checkPath path = .ok () :=
  checkPath_eq_ok_iff.mpr
    ⟨((find_eq_notFound_iff h.text_ne_empty).mp h.find).1, h.text_ne_empty⟩

/-- A parent of a path is missing if nothing is found there: idle pieces only would lead to where
the path starts. -/
theorem WellFormed.missing_of_parent? (hTree : tree.WellFormed) {path parent : Path}
    (hParent : path.parent? = some parent) (hText : parent.text ≠ "")
    (hFind : tree.find parent = .error .notFound) : tree.Missing parent where
  last := by
    rcases Path.getLast?_pieces_of_parent? hParent with hIdle | hLast
    · have hArrive := ((find_eq_notFound_iff hText).mp hFind).2
      exact absurd hArrive (arrive_ne_notFound (hTree.directory_start parent) hIdle)
    · exact hLast
  find := hFind

section Ends

variable {path parent : Path} {last : String} {place : Location}

theorem isName_of_endsIn (h : path.EndsIn parent last) (hBack : last ≠ "..") : IsName last := by
  obtain ⟨between, hPieces, -⟩ := h.pieces
  have hIdle := h.notIdle
  rw [Path.Idle, not_or] at hIdle
  exact isName_of_mem_pieces (by rw [hPieces]; simp) hIdle.1 hIdle.2 hBack

theorem newName?_of_endsIn (h : path.EndsIn parent last) (hBack : last ≠ "..") :
    newName? path.pieces = some last := by
  have hIsName := isName_of_endsIn h hBack
  obtain ⟨between, hPieces, -⟩ := h.pieces
  exact newName?_eq_some_iff.mpr ⟨_, hPieces, hIsName.nonempty, hIsName.notDot, hBack⟩

/-- A path can be walked if neither the text of its parent nor its last piece has a NUL. -/
theorem checkPath_of_endsIn (h : path.EndsIn parent last) (hParent : '\x00' ∉ parent.text.toList)
    (hLast : '\x00' ∉ last.toList) : checkPath path = .ok () := by
  obtain ⟨between, hPieces, -⟩ := h.pieces
  refine checkPath_eq_ok_iff.mpr ⟨fun hMem => ?_, fun hEmpty => ?_⟩
  · exact (h.mem_text hMem (by decide) (by decide)).elim hParent hLast
  · have hNone := (Path.getLast?_pieces_eq_empty_iff path).mpr (.inl hEmpty)
    rw [hPieces, List.getLast?_concat] at hNone
    exact h.notIdle (.inl (Option.some.inj hNone))

theorem Anchors.walk_dropLast (h : tree.Anchors parent place) (hEnds : path.EndsIn parent last) :
    tree.walk (tree.start path) path.pieces.dropLast = .ok place := by
  obtain ⟨between, hPieces, hBetween⟩ := hEnds.pieces
  rw [hPieces, List.dropLast_concat, ← start_congr hEnds.isAbsolute, walk_append_eq_ok_iff]
  exact ⟨place, h.walk, walk_of_idle h.directory hBetween⟩

theorem Anchors.arrive_eq (h : tree.Anchors parent place) (hEnds : path.EndsIn parent last) :
    tree.arrive (tree.start path) path.pieces = tree.arrive (step place last) [] := by
  have hWalk := h.walk_dropLast hEnds
  obtain ⟨between, hPieces, -⟩ := hEnds.pieces
  rw [hPieces, List.dropLast_concat] at hWalk
  rw [hPieces, arrive_append hWalk, arrive_cons, h.directory]

/-- In a directory that is there a directory is made if its name is free. -/
theorem Anchors.makeDirectory_eq (h : tree.Anchors parent place) (hEnds : path.EndsIn parent last)
    (hPath : checkPath path = .ok ()) (hBack : last ≠ "..")
    (hNew : tree.entry? (place ++ [last]) = none) :
    tree.makeDirectory path = .ok (tree.put (place ++ [last]) .directory) := by
  have hStripped : (path.pieces.reverse.dropWhile (· = "")).reverse = path.pieces := by
    obtain ⟨between, hPieces, -⟩ := hEnds.pieces
    simp [hPieces, (isName_of_endsIn hEnds hBack).nonempty]
  refine makeDirectory_eq_ok_iff.mpr ⟨hPath, last, place, ?_, ?_, h.directory, hNew, rfl⟩
  · rw [hStripped, newName?_of_endsIn hEnds hBack]
  · rw [hStripped, h.walk_dropLast hEnds]

/-- In a directory that is there a file is put if no directory has its name. -/
theorem Anchors.write_eq (h : tree.Anchors parent place) (hEnds : path.EndsIn parent last)
    (hPath : checkPath path = .ok ()) (hBack : last ≠ "..")
    (hSlot : tree.entry? (place ++ [last]) ≠ some .directory) (content : Content) :
    tree.write path content = .ok (tree.put (place ++ [last]) (.file content)) :=
  write_eq_ok_iff.mpr ⟨hPath, last, place, newName?_of_endsIn hEnds hBack, h.walk_dropLast hEnds,
    h.directory, hSlot, rfl⟩

/-- In a directory that is there a directory is made where nothing is found. -/
theorem WellFormed.exists_makeDirectory (hTree : tree.WellFormed) (h : tree.Anchors parent place)
    (hEnds : path.EndsIn parent last) (hMissing : tree.Missing path) :
    ∃ made, tree.makeDirectory path = .ok made := by
  have hArrive := ((find_eq_notFound_iff hMissing.text_ne_empty).mp hMissing.find).2
  rw [h.arrive_eq hEnds] at hArrive
  have hNew : tree.entry? (step place last) = none := by
    by_contra hThere
    obtain ⟨entry, hEntry⟩ := Option.ne_none_iff_exists'.mp hThere
    exact arrive_ne_notFound hEntry (fun _ h => absurd h List.not_mem_nil) hArrive
  by_cases hBack : last = ".."
  · -- A step back from a directory leads to one.
    have hUp : step place last = place.dropLast := by rw [hBack]; rfl
    rw [hUp, hTree.directory_dropLast h.directory] at hNew
    cases hNew
  · rw [step_of_isName (isName_of_endsIn hEnds hBack)] at hNew
    exact ⟨_, h.makeDirectory_eq hEnds hMissing.checkPath hBack hNew⟩

/-- If a directory cannot be made for want of something on the way, then its parent is missing,
too. -/
theorem WellFormed.missing_parent (hTree : tree.WellFormed)
    (hParent : path.parent? = some parent) (hEnds : path.EndsIn parent last)
    (hMissing : tree.Missing path) (hMake : tree.makeDirectory path = .error .notFound) :
    tree.Missing parent := by
  obtain ⟨hNul, hArrive⟩ := (find_eq_notFound_iff hMissing.text_ne_empty).mp hMissing.find
  have hStart : tree.start parent = tree.start path := start_congr hEnds.isAbsolute
  obtain ⟨between, hPieces, -⟩ := hEnds.pieces
  have hAbove : tree.arrive (tree.start parent) parent.pieces = .error .notFound := by
    rw [← hStart, hPieces, List.append_assoc] at hArrive
    obtain ⟨rest, hRest⟩ : ∃ rest, parent.pieces = parent.trunk ++ rest := by
      rcases parent.pieces_eq_trunk with hTrunk | hTrunk
      · exact ⟨[], by rw [List.append_nil, ← hTrunk]⟩
      · exact ⟨_, hTrunk⟩
    rw [hRest]
    -- Were a directory at the end of the trunk, the last piece could be made in it.
    cases hWalk : tree.walk (tree.start parent) parent.trunk with
    | error fault =>
      rw [arrive_append_of_error hWalk] at hArrive ⊢
      exact hArrive
    | ok place =>
      rw [arrive_append hWalk] at hArrive ⊢
      rcases hEntry : tree.entry? place with - | - | content
      · exact arrive_of_entry?_eq_none hEntry rest
      · obtain ⟨made, hMade⟩ := hTree.exists_makeDirectory ⟨hWalk, hEntry⟩ hEnds hMissing
        cases hMade.symm.trans hMake
      · cases between <;> simp [arrive_cons, hEntry] at hArrive
  have hText : parent.text ≠ "" := by
    intro hEmpty
    obtain rfl : parent = ⟨""⟩ := by rw [← hEmpty]
    exact arrive_ne_notFound (hTree.directory_start ⟨""⟩) (by decide) hAbove
  refine hTree.missing_of_parent? hParent hText
    ((find_eq_notFound_iff hText).mpr ⟨fun hMem => ?_, hAbove⟩)
  rcases Path.mem_text_of_parent? hParent hMem with hOwn | hSlash
  · exact hNul hOwn
  · exact absurd hSlash (by decide)

end Ends

/-- What holds of a missing path whose directory can be made, and passes from a missing parent to a
missing path, holds of every missing path: going up, one comes to a directory that can be made. -/
theorem WellFormed.missing_induction (hTree : tree.WellFormed) {motive : Path → Prop}
    (makes : ∀ {path made}, tree.Missing path → tree.makeDirectory path = .ok made → motive path)
    (climbs : ∀ {path parent last}, tree.Missing path → path.parent? = some parent →
      path.EndsIn parent last → tree.makeDirectory path = .error .notFound →
        tree.Missing parent → motive parent → motive path)
    {path : Path} (h : tree.Missing path) : motive path := by
  -- A parent has a step less, and a path without steps has nothing that could be missing.
  induction hSteps : path.steps.length using Nat.strongRecOn generalizing path with
  | ind count ih =>
    rcases makeDirectory_ok_or_notFound_iff.mpr h.find with ⟨made, hMade⟩ | hMake
    · exact makes h hMade
    · obtain ⟨last, hEnd, hIdle⟩ := h.last
      cases hParent : path.parent? with
      | none =>
        exact absurd (Path.idle_of_parent?_eq_none hParent last (List.mem_of_getLast? hEnd)) hIdle
      | some parent =>
        have hEnds := Path.endsIn_of_parent? hParent hEnd hIdle
        have hMissing := hTree.missing_parent hParent hEnds h hMake
        have hFewer : parent.steps.length < count := by
          obtain ⟨step, hStep⟩ := Path.steps_of_parent? hParent
          rw [← hSteps, hStep, List.length_append, List.length_singleton]
          exact Nat.lt_succ_self _
        exact climbs h hParent hEnds hMake hMissing (ih _ hFewer hMissing rfl)

theorem makeDirectories_of_ok {path : Path} {made : Tree} (hText : path.text ≠ "")
    (h : tree.makeDirectory path = .ok made) : tree.makeDirectories path = (made, .ok ()) := by
  rw [makeDirectories, Path.ancestors_eq, makeChain, if_neg (by simpa using hText), h]

/-- If something on the way is wanting, the parent is made first. -/
theorem makeDirectories_of_notFound {path parent : Path} (hText : path.text ≠ "")
    (hParent : path.parent? = some parent) (h : tree.makeDirectory path = .error .notFound) :
    tree.makeDirectories path =
      match tree.makeDirectories parent with
      | (made, .error fault) => (made, .error fault)
      | (made, .ok ()) =>
        match made.makeDirectory path with
        | .ok done => (done, .ok ())
        | .error fault => (made, if made.isDirectory path then .ok () else .error fault) := by
  rw [makeDirectories, Path.ancestors_eq, hParent, makeChain, if_neg (by simpa using hText), h]
  rfl

/-- Where nothing is found, a directory is made: that of the path, or one above. -/
theorem WellFormed.exists_made (hTree : tree.WellFormed) {path : Path} (h : tree.Missing path) :
    ∃ location, tree.entry? location = none ∧
      entry? (tree.makeDirectories path).1 location ≠ none := by
  refine hTree.missing_induction (motive := fun path => ∃ location, tree.entry? location = none ∧
    entry? (tree.makeDirectories path).1 location ≠ none) ?makes ?climbs h
  case makes =>
    intro path made hMissing hMade
    rw [makeDirectories_of_ok hMissing.text_ne_empty hMade]
    exact entry?_of_makeDirectory hMade
  case climbs =>
    rintro path parent - hMissing hParent - hMake - ⟨location, hNone, hMade⟩
    refine ⟨location, hNone, ?_⟩
    rw [makeDirectories_of_notFound hMissing.text_ne_empty hParent hMake]
    generalize tree.makeDirectories parent = result at hMade ⊢
    obtain ⟨made, result⟩ := result
    cases result with
    | error fault => exact hMade
    | ok =>
      dsimp only
      split
      · next done hDone => exact (grows_makeDirectory hDone).entry?_ne_none hMade
      · exact hMade

/-! ## Directories on a way down -/

section Descending

variable {root : Location} {path parent : Path}

/-- A missing parent of a path that descends descends, too. -/
theorem DescendsFrom.of_parent? (hPath : tree.DescendsFrom root path)
    (hParent : path.parent? = some parent) (hMissing : tree.Missing parent) :
    tree.DescendsFrom root parent := by
  rcases Path.exists_pieces_of_parent? hParent with rfl | ⟨hAbsolute, piece, more, hMore⟩
  · obtain ⟨last, hLast, hIdle⟩ := hMissing.last
    have hAll : ∀ piece ∈ path.origin.pieces, Path.Idle piece := by
      rw [Path.origin]
      split <;> decide
    exact absurd (hAll last (List.mem_of_getLast? hLast)) hIdle
  · obtain ⟨front, rest, hPieces, hWalk, hRoot, hDown⟩ := hPath
    rw [hPieces] at hMore
    rcases List.append_eq_append_iff.mp hMore with ⟨further, hUp, hRest⟩ | ⟨further, hFront, -⟩
    · refine ⟨front, further, hUp, by rw [start_congr hAbsolute]; exact hWalk, hRoot, fun h => ?_⟩
      exact hDown (hRest ▸ List.mem_append_left _ h)
    · -- The way to the directory that the path descends from passes directories only.
      rw [hFront, ← start_congr hAbsolute] at hWalk
      obtain ⟨hUpper, hDirectory⟩ := directory_of_walk_append hWalk hRoot
      have hArrive := ((find_eq_notFound_iff hMissing.text_ne_empty).mp hMissing.find).2
      rw [arrive_eq_ok_iff.mpr ⟨hUpper, hDirectory⟩] at hArrive
      cases hArrive

/-- Where nothing is found on a way down, nothing stands at its end, if a directory can be made
there. -/
theorem DescendsFrom.entry?_eq_none (hPath : tree.DescendsFrom root path)
    (hTree : tree.WellFormed) {directories : Location → Prop} {made : Tree}
    (hGrown : tree.Grows (fun _ => False) directories made)
    (hMade : made.isDirectory path = true) (hFind : tree.find path = .error .notFound) :
    tree.entry? (tree.locate path) = none := by
  by_contra hThere
  obtain ⟨front, rest, hPieces, hWalk, -, hDown⟩ := hPath
  obtain ⟨hCheck, hArrive⟩ := by
    have hFound := isDirectory_eq_true_iff.mp hMade
    rwa [find_eq_ok_iff, ← arrive_eq_ok_iff, hGrown.start, hGrown.locate, hPieces,
      arrive_append (hGrown.walk hWalk)] at hFound
  have hEntry : tree.entry? (tree.locate path) = some .directory := by
    rcases hGrown.entry?_eq_or_made (tree.locate path) with hSame | ⟨hNone, -⟩
    · rw [← hSame]
      exact (arrive_eq_ok_iff.mp hArrive).2
    · exact absurd hNone hThere
  have hFound : tree.find path = .ok (tree.locate path, .directory) := by
    rw [find_eq_ok_iff, ← arrive_eq_ok_iff, hPieces, arrive_append hWalk]
    exact ⟨hCheck, hTree.arrive_of_arrive hDown hArrive hEntry⟩
  rw [hFound] at hFind
  cases hFind

theorem isDirectory_of_makeDirectory {made : Tree} (h : tree.makeDirectory path = .ok made) :
    made.isDirectory path = true := by
  have hGrown := grows_makeDirectory h
  obtain ⟨hPath, name, place, hName, hWalk, hPlace, -, hMade⟩ := makeDirectory_eq_ok_iff.mp h
  obtain ⟨front, blank, hPieces, hFront, hBlank, hIsName⟩ := exists_pieces_of_newName? hName
  rw [hFront] at hWalk
  have hSlot : made.entry? (place ++ [name]) = some .directory := by
    rw [hMade, entry?_put_self (by simp)]
  have hReach : made.walk (made.start path) path.pieces = .ok (place ++ [name]) := by
    rw [hGrown.start, hPieces, walk_append_eq_ok_iff]
    refine ⟨place, hGrown.walk hWalk, ?_⟩
    rw [walk_cons_eq_ok_iff, step_of_isName hIsName]
    exact ⟨hGrown.entry?_of_directory hPlace, walk_of_idle hSlot hBlank⟩
  have hFound : made.find path = .ok (place ++ [name], .directory) :=
    find_eq_ok_iff.mpr ⟨hPath, hReach, hSlot⟩
  rw [isDirectory, hFound]

/-- Below a directory that is new, a directory that cannot be made is there: the path steps back
from what has been made. -/
theorem WellFormed.isDirectory_of_not_made (hTree : tree.WellFormed)
    {directories : Location → Prop} {made : Tree}
    (hGrown : tree.Grows (fun _ => False) directories made) {place : Location} {last : String}
    (hAnchors : made.Anchors parent place) (hNew : tree.entry? place = none)
    (hEnds : path.EndsIn parent last) (hMissing : tree.Missing path) {fault : TreeFault}
    (hMake : made.makeDirectory path = .error fault) : made.isDirectory path = true := by
  have hMade := hGrown.wellFormed hTree
  -- Were the place of the directory free, it could be made.
  have hFree : made.entry? (step place last) ≠ none := by
    intro hNone
    have hFind : made.find path = .error .notFound := by
      rw [find_eq, hMissing.checkPath, hAnchors.arrive_eq hEnds]
      exact arrive_of_entry?_eq_none hNone []
    obtain ⟨done, hDone⟩ := hMade.exists_makeDirectory hAnchors hEnds ⟨hMissing.last, hFind⟩
    cases hDone.symm.trans hMake
  have hDirectory : made.entry? (step place last) = some .directory := by
    by_cases hBack : last = ".."
    · rw [hBack]
      exact hMade.directory_dropLast hAnchors.directory
    · rw [step_of_isName (isName_of_endsIn hEnds hBack)] at hFree ⊢
      rcases hGrown.entry?_eq_or_made (place ++ [last]) with hSame | ⟨-, hDirectory, -⟩
      · rw [hSame, hTree.entry?_eq_none_of_prefix hNew (List.prefix_append _ _)] at hFree
        exact absurd rfl hFree
      · exact hDirectory
  rw [isDirectory, find_eq, hMissing.checkPath, hAnchors.arrive_eq hEnds]
  simp only [arrive_nil, hDirectory]
  rfl

/-- Along a way down a directory is made together with those above it, whatever is missing. -/
theorem WellFormed.makeDirectories_of_descendsFrom (hTree : tree.WellFormed)
    (hMissing : tree.Missing path) (hPath : tree.DescendsFrom root path) :
    ∃ made, tree.makeDirectories path = (made, .ok ()) ∧ made.isDirectory path = true := by
  revert hPath
  refine hTree.missing_induction (motive := fun path => tree.DescendsFrom root path →
    ∃ made, tree.makeDirectories path = (made, .ok ()) ∧ made.isDirectory path = true)
    ?makes ?climbs hMissing
  case makes =>
    intro path made hMissing hMade _
    exact ⟨made, makeDirectories_of_ok hMissing.text_ne_empty hMade,
      isDirectory_of_makeDirectory hMade⟩
  case climbs =>
    -- The parent is there by now; the last piece is made in it, or steps back from it.
    intro path parent last hMissing hParent hEnds hMake hAbove ih hPath
    have hDescends := hPath.of_parent? hParent hAbove
    obtain ⟨made, hMade, hThere⟩ := ih hDescends
    have hGrown := tree.grows_makeDirectories parent
    rw [hMade] at hGrown
    rw [makeDirectories_of_notFound hMissing.text_ne_empty hParent hMake, hMade]
    dsimp only
    cases hOwn : made.makeDirectory path with
    | ok done => exact ⟨done, rfl, isDirectory_of_makeDirectory hOwn⟩
    | error fault =>
      have hNew := hDescends.entry?_eq_none hTree hGrown hThere hAbove.find
      have hAnchors := anchors_of_isDirectory hThere
      rw [hGrown.locate] at hAnchors
      have hDirectory := hTree.isDirectory_of_not_made hGrown hAnchors hNew hEnds hMissing hOwn
      exact ⟨made, by simp only [hDirectory, if_true], hDirectory⟩

/-- Along a way down a directory that is missing is there when it has been made, with nothing in
it. -/
theorem WellFormed.exists_made_empty (hTree : tree.WellFormed) (hMissing : tree.Missing path)
    (hPath : tree.DescendsFrom root path) :
    ∃ made, tree.makeDirectories path = (made, .ok ()) ∧ made.Anchors path (tree.locate path) ∧
      tree.entry? (tree.locate path) = none ∧
      ∀ name, made.entry? (tree.locate path ++ [name]) = none := by
  obtain ⟨made, hMade, hThere⟩ := hTree.makeDirectories_of_descendsFrom hMissing hPath
  have hGrown := tree.grows_makeDirectories path
  rw [hMade] at hGrown
  have hNew := hPath.entry?_eq_none hTree hGrown hThere hMissing.find
  have hAnchors := anchors_of_isDirectory hThere
  rw [hGrown.locate] at hAnchors
  refine ⟨made, hMade, hAnchors, hNew, fun name => ?_⟩
  -- A new directory is an ancestor of the path, so it is not below it.
  rcases hGrown.entry?_eq_or_made (tree.locate path ++ [name]) with
    hSame | ⟨hFree, -, upper, hUpper, hLocate⟩
  · rw [hSame, hTree.entry?_eq_none_of_prefix hNew (List.prefix_append _ _)]
  · rw [hLocate] at hFree
    have hPrefix := hPath.prefix_of_mem_ancestors hTree hUpper hFree
    rw [← hLocate] at hPrefix
    have hLength := hPrefix.length_le
    rw [List.length_append, List.length_singleton] at hLength
    omega

/-- Along a way down a file can be put where nothing is found at its directory. -/
theorem WellFormed.exists_write (hTree : tree.WellFormed) (hMissing : tree.Missing parent)
    (hParent : path.parent? = some parent) {last : String} (hEnds : path.EndsIn parent last)
    (hBack : last ≠ "..") (hPath : checkPath path = .ok ())
    (hDescends : tree.DescendsFrom root path) (content : Content) :
    ∃ made written, tree.makeDirectories parent = (made, .ok ()) ∧
      made.write path content = .ok written := by
  have hUp := hDescends.of_parent? hParent hMissing
  obtain ⟨made, hMade, hAnchors, -, hEmpty⟩ := hTree.exists_made_empty hMissing hUp
  have hFree : made.entry? (tree.locate parent ++ [last]) ≠ some .directory := by
    rw [hEmpty]
    simp
  exact ⟨made, _, hMade, hAnchors.write_eq hEnds hPath hBack hFree content⟩

end Descending

end ResourceTables.Tree
