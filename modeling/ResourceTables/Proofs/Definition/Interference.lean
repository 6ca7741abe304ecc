import ResourceTables.Proofs.Definition.Readings
import ResourceTables.Proofs.Tree.Children
import ResourceTables.Proofs.Tree.Descent

/-!
# Readings of a tree that grows

A look at a tree shows the same when the tree has grown, if its path leads to the same and no file
is put where it would show: at the path itself, or right below it if the names in a directory are
looked at. A look that succeeds needs no more than that.

## Main definitions

* `Reading.Shows`: the locations where a file shows in a reading.
-/

namespace ResourceTables

namespace Tree

variable {tree other : Tree} {path : Path}

theorem readText_congr (h : other.find path = tree.find path) :
    other.readText path = tree.readText path := by
  rw [readText, readText, h]

theorem isDirectory_congr (h : other.find path = tree.find path) :
    other.isDirectory path = tree.isDirectory path := by
  rw [isDirectory, isDirectory, h]

end Tree

namespace Reading

variable {files directories : Location → Prop} {tree after : Tree}

/-- The locations where a file shows in a reading: that of its path, or those right below it if it
is a reading of the names in a directory. -/
def Shows (tree : Tree) (location : Location) : Reading → Prop
  | .directory base name => ∃ child, location = tree.locate (base.join name) ++ [child]
  | .file base name => location = tree.locate (base.join name)
  | .table base name => location = tree.locate (base.join ⟨name⟩)

instance (tree : Tree) (location : Location) :
    (reading : Reading) → Decidable (reading.Shows tree location)
  | .directory base name =>
    decidable_of_iff (location ≠ [] ∧ location.dropLast = tree.locate (base.join name)) <| by
      constructor
      · rintro ⟨hNe, hDirectory⟩
        exact ⟨location.getLast hNe, by rw [← hDirectory, List.dropLast_concat_getLast]⟩
      · rintro ⟨child, rfl⟩
        simp
  | .file base name => inferInstanceAs (Decidable (location = tree.locate (base.join name)))
  | .table base name => inferInstanceAs (Decidable (location = tree.locate (base.join ⟨name⟩)))

/-- A directory shows the same files in a tree that has grown, if no file is put in it. -/
theorem tableFiles_children_congr (hGrown : tree.Grows files directories after) {path : Path}
    (hFind : after.find path = tree.find path)
    (hFiles : ∀ child, ¬files (tree.locate path ++ [child])) :
    tableFiles (after.children path) = tableFiles (tree.children path) := by
  cases hDirectory : tree.isDirectory path with
  | false =>
    have hAfter : after.isDirectory path = false := by
      rw [Tree.isDirectory_congr hFind, hDirectory]
    rw [Tree.children_of_isDirectory_eq_false hDirectory,
      Tree.children_of_isDirectory_eq_false hAfter]
  | true =>
    have hThere := Tree.isDirectory_eq_true_iff.mp hDirectory
    rw [Tree.children_of_find hThere, Tree.children_of_find (hFind.trans hThere)]
    exact hGrown.filterMap_sortedChildren hFiles fun _ => rfl

/-- A look shows the same in a tree that has grown, if its path leads to the same and no file is put
where it would show. -/
theorem sameIn_of_find_eq (hGrown : tree.Grows files directories after) {reading : Reading}
    (hFind : after.find reading.path = tree.find reading.path)
    (hFiles : ∀ location, reading.Shows tree location → ¬files location) :
    reading.SameIn tree after := by
  cases reading with
  | file base name => exact Tree.readText_congr hFind
  | table base name => exact Tree.readText_congr hFind
  | directory base name =>
    refine ⟨Tree.isDirectory_congr hFind, tableFiles_children_congr hGrown hFind fun child => ?_⟩
    exact hFiles _ ⟨child, rfl⟩

/-- A look that succeeds shows the same in a tree that has grown, if no file is put where it would
show. -/
theorem Succeeds.sameIn {reading : Reading} (h : reading.Succeeds tree)
    (hGrown : tree.Grows files directories after)
    (hFiles : ∀ location, reading.Shows tree location → ¬files location) :
    reading.SameIn tree after := by
  have hText : ∀ {path : Path}, (∃ text, tree.readText path = .ok text) →
      ¬files (tree.locate path) → after.find path = tree.find path := by
    rintro path ⟨text, hText⟩ hFile
    have hThere := Tree.readText_eq_ok_iff.mp hText
    rw [hThere, hGrown.find hThere (.inr hFile)]
  refine sameIn_of_find_eq hGrown ?_ hFiles
  cases reading with
  | file base name => exact hText h (hFiles _ rfl)
  | table base name => exact hText h (hFiles _ rfl)
  | directory base name =>
    have hThere := Tree.isDirectory_eq_true_iff.mp h
    exact (hGrown.find hThere (.inl rfl)).trans hThere.symm

/-- A look along a way down shows the same in a tree that has grown by files below a place and by
directories below or above it, if the look is neither below nor above. -/
theorem sameIn_of_apart {root place : Location} {reading : Reading}
    (hPath : tree.DescendsFrom root reading.path) (hTree : tree.WellFormed)
    (hGrown : tree.Grows files directories after)
    (hFiles : ∀ location, files location → place <+: location)
    (hDirectories : ∀ location, tree.entry? location = none → directories location →
      place <+: location ∨ location <+: place)
    (hBelow : ¬place <+: tree.locate reading.path) (hAbove : ¬tree.locate reading.path <+: place) :
    reading.SameIn tree after := by
  refine sameIn_of_find_eq hGrown ?_ ?_
  · refine hPath.find_congr hTree hGrown (fun upper hUpper hFile => ?_) fun hNone hMade => ?_
    · exact hBelow ((hFiles upper hFile).trans hUpper)
    · exact (hDirectories _ hNone hMade).elim hBelow hAbove
  · intro location hShows hFile
    have hPlace := hFiles location hFile
    cases reading with
    | file base name => exact hBelow (hShows ▸ hPlace)
    | table base name => exact hBelow (hShows ▸ hPlace)
    | directory base name =>
      obtain ⟨child, rfl⟩ := hShows
      rcases List.prefix_concat_iff.mp hPlace with hSame | hUpper
      · exact hAbove (hSame ▸ List.prefix_append _ _)
      · exact hBelow hUpper

end Reading

/-! ## Readings along a way down -/

theorem isName_of_mem_tableFiles {tree : Tree} (hTree : tree.WellFormed) {directory : Path}
    {fileName : String} (h : fileName ∈ tableFiles (tree.children directory)) :
    tree.isDirectory directory = true ∧ Tree.IsName fileName := by
  cases hDirectory : tree.isDirectory directory with
  | false =>
    rw [Tree.children_of_isDirectory_eq_false hDirectory] at h
    cases h
  | true =>
    refine ⟨rfl, ?_⟩
    rw [Tree.children_of_find (Tree.isDirectory_eq_true_iff.mp hDirectory)] at h
    obtain ⟨⟨name, entry⟩, hChild, hName⟩ := List.mem_filterMap.mp h
    have hThere := Tree.entry?_ne_none_of_mem_sortedChildren hChild
    dsimp only at hName
    split at hName
    · split at hName
      · cases hName
      · cases hName
        exact hTree.name hThere
    · cases hName

/-- What is looked at to compile a definition is on a way down, if the base directory is there and
no path steps back that is written in the manifest or in the definition. -/
theorem exists_descendsFrom_of_mem_readings {compiler : Compiler} {tree : Tree} {path : Path}
    {mode : Mode} {root : Location} (hTree : tree.WellFormed)
    (hBase : tree.Anchors compiler.configuration.baseDirectory root) {reading : Reading}
    (h : reading ∈ compiler.readings tree path mode)
    (hName : ∀ name ∈ reading.name?, name.Descending) :
    ∃ place, tree.DescendsFrom place reading.path := by
  rcases exists_of_mem_definitionReadings h with rfl | ⟨⟨text, hText⟩, kind, field, value, hSource⟩
  · exact ⟨root, hBase.descendsFrom (hName path rfl)⟩
  · -- The definition file is there, and so is its directory.
    have hDirectory : ∃ place, tree.Anchors
        (directoryOf (compiler.configuration.baseDirectory.join path)) place := by
      obtain ⟨-, hWalk, -⟩ := Tree.find_eq_ok_iff.mp (Tree.readText_eq_ok_iff.mp hText)
      rw [directoryOf]
      cases hParent : (compiler.configuration.baseDirectory.join path).parent? with
      | none => exact ⟨_, hTree.anchors_origin ⟨""⟩⟩
      | some parent => exact hTree.exists_anchors_of_parent? hParent hWalk
    obtain ⟨place, hPlace⟩ := hDirectory
    rcases exists_of_mem_sourceReadings hSource with
      ⟨name, rfl | rfl⟩ | ⟨directory, fileName, hFile, rfl⟩
    · exact ⟨place, hPlace.descendsFrom (hName name rfl)⟩
    · exact ⟨place, hPlace.descendsFrom (hName name rfl)⟩
    · obtain ⟨hThere, hIsName⟩ := isName_of_mem_tableFiles hTree hFile
      exact ⟨_, (Tree.anchors_of_isDirectory hThere).descendsFrom
        (Path.descending_of_notMem hIsName.noSlash hIsName.notStepBack)⟩

end ResourceTables
