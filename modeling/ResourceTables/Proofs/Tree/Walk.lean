import Mathlib.Data.List.Induction
import ResourceTables.Proofs.Path
import ResourceTables.Tree

/-!
# Walks in the file tree

Where a walk ends is read off the pieces of its path, so a path denotes a location whether or not
something stands there. The walk itself succeeds if a directory stands wherever it passes. In a
well-formed tree it is enough for this that something stands at its end.

## Main definitions

* `Tree.locate`: the location that a path denotes.
* `Tree.WellFormed`: every entry has a name and stands in a directory.
-/

namespace ResourceTables.Tree

variable {tree : Tree}

/-- The location that a path denotes, whether or not something stands there. -/
def locate (tree : Tree) (path : Path) : Location :=
  path.pieces.foldl step (tree.start path)

/-- A text that can name an entry of a directory. -/
structure IsName (name : String) : Prop where
  nonempty : name ≠ ""
  notDot : name ≠ "."
  notStepBack : name ≠ ".."
  noSlash : '/' ∉ name.toList

/-- The home directory is there, and every entry has a name and stands in a directory. -/
structure WellFormed (tree : Tree) : Prop where
  home : tree.entry? tree.home = some .directory
  name : ∀ {location name}, tree.entry? (location ++ [name]) ≠ none → IsName name
  parent : ∀ {location name}, tree.entry? (location ++ [name]) ≠ none →
    tree.entry? location = some .directory

/-- A sequence of two looks at a tree succeeds if both do, the second on the result of the first. -/
theorem bind_eq_ok {α β : Type} {x : Except TreeFault α} {f : α → Except TreeFault β} {b : β} :
    x >>= f = .ok b ↔ ∃ a, x = .ok a ∧ f a = .ok b := by
  cases x <;> simp [bind, Except.bind]

/-! ## Steps -/

@[simp] theorem step_empty (location : Location) : step location "" = location := rfl

@[simp] theorem step_dot (location : Location) : step location "." = location := rfl

theorem step_of_idle {piece : String} (h : Path.Idle piece) (location : Location) :
    step location piece = location := by
  exact if_pos h

theorem foldl_step_of_idle {pieces : List String} (h : ∀ piece ∈ pieces, Path.Idle piece)
    (location : Location) : pieces.foldl step location = location := by
  induction pieces with
  | nil => rfl
  | cons piece rest ih =>
    obtain ⟨hPiece, hRest⟩ := List.forall_mem_cons.mp h
    rw [List.foldl_cons, step_of_idle hPiece, ih hRest]

theorem step_of_isName {name : String} (h : IsName name) (location : Location) :
    step location name = location ++ [name] := by
  rw [step, if_neg (by simp [h.nonempty, h.notDot]), if_neg h.notStepBack]

/-- A piece that does not step back leads down, or nowhere. -/
theorem prefix_step {piece : String} (h : piece ≠ "..") (location : Location) :
    location <+: step location piece := by
  rw [step, if_neg h]
  split
  · exact List.prefix_refl _
  · exact List.prefix_append _ _

theorem prefix_foldl_step {pieces : List String} (h : ".." ∉ pieces) (location : Location) :
    location <+: pieces.foldl step location := by
  induction pieces generalizing location with
  | nil => exact List.prefix_refl _
  | cons piece rest ih =>
    rw [List.mem_cons, not_or] at h
    exact (prefix_step (Ne.symm h.1) location).trans (ih h.2 _)

/-! ## Entries -/

@[simp] theorem entry?_root (tree : Tree) : tree.entry? [] = some .directory := rfl

theorem entry?_eq_lookup {location : Location} (h : location ≠ []) :
    tree.entry? location = tree.entries.lookup location := by
  unfold entry?
  rw [if_neg h]

theorem entry?_ne_none_of_mem {location : Location} {entry : Entry}
    (h : (location, entry) ∈ tree.entries) : tree.entry? location ≠ none := by
  intro hNone
  unfold entry? at hNone
  split at hNone
  · cases hNone
  · have hLookup := List.lookup_eq_none_iff.mp hNone _ h
    simp at hLookup

instance : DecidablePred IsName := fun name =>
  decidable_of_iff (name ≠ "" ∧ name ≠ "." ∧ name ≠ ".." ∧ '/' ∉ name.toList)
    ⟨fun ⟨h₁, h₂, h₃, h₄⟩ => ⟨h₁, h₂, h₃, h₄⟩, fun ⟨h₁, h₂, h₃, h₄⟩ => ⟨h₁, h₂, h₃, h₄⟩⟩

/-- A tree is well-formed if each of its entries is, and the home directory is there. -/
theorem wellFormed_iff : tree.WellFormed ↔ tree.entry? tree.home = some .directory ∧
    ∀ place ∈ tree.entries, ∀ name ∈ place.1.getLast?,
      IsName name ∧ tree.entry? place.1.dropLast = some .directory := by
  constructor
  · intro h
    refine ⟨h.home, ?_⟩
    rintro ⟨location, entry⟩ hMem name hName
    obtain ⟨front, hFront⟩ := List.getLast?_eq_some_iff.mp hName
    have hThere := entry?_ne_none_of_mem hMem
    dsimp only at hFront
    rw [hFront] at hThere
    simp only [hFront, List.dropLast_concat]
    exact ⟨h.name hThere, h.parent hThere⟩
  · rintro ⟨hHome, hEntries⟩
    have hEntry : ∀ {location name}, tree.entry? (location ++ [name]) ≠ none →
        IsName name ∧ tree.entry? location = some .directory := by
      intro location name hThere
      rw [entry?_eq_lookup (by simp)] at hThere
      obtain ⟨entry, hLookup⟩ := Option.ne_none_iff_exists'.mp hThere
      obtain ⟨before, after, hSplit, -⟩ := List.lookup_eq_some_iff.mp hLookup
      have hPlace := hEntries (location ++ [name], entry) (by rw [hSplit]; simp) name (by simp)
      rwa [List.dropLast_concat] at hPlace
    exact ⟨hHome, fun h => (hEntry h).1, fun h => (hEntry h).2⟩

instance : DecidablePred WellFormed := fun _ => decidable_of_iff' _ wellFormed_iff

namespace WellFormed

/-- What is above something is a directory. -/
theorem directory_of_prefix (h : tree.WellFormed) {upper location : Location}
    (hEntry : tree.entry? location ≠ none) (hPrefix : upper <+: location)
    (hNe : upper ≠ location) : tree.entry? upper = some .directory := by
  induction location using List.reverseRecOn with
  | nil => exact absurd (List.prefix_nil.mp hPrefix) hNe
  | append_singleton location name ih =>
    have hParent := h.parent hEntry
    rcases List.prefix_concat_iff.mp hPrefix with hSame | hUpper
    · exact absurd hSame hNe
    · by_cases hEq : upper = location
      · rw [hEq]
        exact hParent
      · exact ih (by rw [hParent]; simp) hUpper hEq

/-- Nothing is below what is not there. -/
theorem entry?_eq_none_of_prefix (h : tree.WellFormed) {upper location : Location}
    (hUpper : tree.entry? upper = none) (hPrefix : upper <+: location) :
    tree.entry? location = none := by
  by_cases hEq : upper = location
  · rw [← hEq]
    exact hUpper
  · by_cases hEntry : tree.entry? location = none
    · exact hEntry
    · rw [h.directory_of_prefix hEntry hPrefix hEq] at hUpper
      cases hUpper

end WellFormed

/-! ## Walks -/

theorem walk_cons_eq_ok_iff {location target : Location} {piece : String} {rest : List String} :
    tree.walk location (piece :: rest) = .ok target ↔
      tree.entry? location = some .directory ∧
        tree.walk (step location piece) rest = .ok target := by
  rw [walk]
  split <;> simp_all

theorem walk_append (tree : Tree) (location : Location) (front rest : List String) :
    tree.walk location (front ++ rest) =
      tree.walk location front >>= fun middle => tree.walk middle rest := by
  induction front generalizing location with
  | nil => rfl
  | cons piece front ih =>
    rw [List.cons_append, walk, walk]
    split
    · rfl
    · rfl
    · exact ih _

theorem walk_append_eq_ok_iff {location target : Location} {front rest : List String} :
    tree.walk location (front ++ rest) = .ok target ↔
      ∃ middle, tree.walk location front = .ok middle ∧ tree.walk middle rest = .ok target := by
  rw [walk_append, bind_eq_ok]

theorem eq_of_walk {location target : Location} {pieces : List String}
    (h : tree.walk location pieces = .ok target) : target = pieces.foldl step location := by
  induction pieces generalizing location with
  | nil => exact (Except.ok.inj h).symm
  | cons piece rest ih => exact ih (walk_cons_eq_ok_iff.mp h).2

/-! ## What stands where a walk ends -/

/-- What stands where pieces lead from a location. -/
def arrive (tree : Tree) (location : Location) (pieces : List String) :
    Except TreeFault (Location × Entry) := do
  let target ← tree.walk location pieces
  match tree.entry? target with
  | none => .error .notFound
  | some entry => .ok (target, entry)

theorem find_eq (tree : Tree) (path : Path) :
    tree.find path = checkPath path >>= fun _ => tree.arrive (tree.start path) path.pieces := rfl

@[simp] theorem arrive_nil (tree : Tree) (location : Location) :
    tree.arrive location [] =
      match tree.entry? location with
      | none => .error .notFound
      | some entry => .ok (location, entry) := rfl

theorem arrive_cons (tree : Tree) (location : Location) (piece : String) (rest : List String) :
    tree.arrive location (piece :: rest) =
      match tree.entry? location with
      | none => .error .notFound
      | some (.file _) => .error .notADirectory
      | some .directory => tree.arrive (step location piece) rest := by
  rw [arrive, walk]
  rcases tree.entry? location with - | - | content <;> rfl

theorem arrive_eq_ok_iff {location target : Location} {pieces : List String} {entry : Entry} :
    tree.arrive location pieces = .ok (target, entry) ↔
      tree.walk location pieces = .ok target ∧ tree.entry? target = some entry := by
  rw [arrive, bind_eq_ok]
  constructor
  · rintro ⟨reached, hWalk, h⟩
    split at h
    · cases h
    · next hEntry =>
      cases h
      exact ⟨hWalk, hEntry⟩
  · rintro ⟨hWalk, hEntry⟩
    exact ⟨target, hWalk, by rw [hEntry]⟩

theorem find_eq_ok_iff {path : Path} {location : Location} {entry : Entry} :
    tree.find path = .ok (location, entry) ↔
      checkPath path = .ok () ∧ tree.walk (tree.start path) path.pieces = .ok location ∧
        tree.entry? location = some entry := by
  rw [find_eq, bind_eq_ok, ← arrive_eq_ok_iff]
  constructor
  · rintro ⟨⟨⟩, hPath, hArrive⟩
    exact ⟨hPath, hArrive⟩
  · rintro ⟨hPath, hArrive⟩
    exact ⟨(), hPath, hArrive⟩

/-- What a path leads to stands at the location that the path denotes. -/
theorem eq_locate_of_find {path : Path} {location : Location} {entry : Entry}
    (h : tree.find path = .ok (location, entry)) : location = tree.locate path :=
  eq_of_walk (find_eq_ok_iff.mp h).2.1

theorem readText_eq_ok_iff {path : Path} {text : String} :
    tree.readText path = .ok text ↔
      tree.find path = .ok (tree.locate path, .file (.text text)) := by
  rw [readText, bind_eq_ok]
  constructor
  · rintro ⟨⟨location, entry⟩, hFind, h⟩
    rcases entry with - | ⟨other | bytes⟩
    · cases h
    · cases h
      rw [hFind, eq_locate_of_find hFind]
    · cases h
  · intro h
    exact ⟨_, h, rfl⟩

theorem isDirectory_eq_true_iff {path : Path} :
    tree.isDirectory path = true ↔ tree.find path = .ok (tree.locate path, .directory) := by
  rw [isDirectory]
  constructor
  · intro h
    split at h
    · next location hFind => rw [hFind, eq_locate_of_find hFind]
    · cases h
  · intro h
    rw [h]

/-- Where nothing is, and no file on the way, nothing is found. -/
theorem arrive_eq_notFound {location : Location} {pieces : List String} (hDown : ".." ∉ pieces)
    (hAlong : ∀ place, location <+: place → place <+: pieces.foldl step location →
      tree.entry? place = none ∨ tree.entry? place = some .directory)
    (hTarget : tree.entry? (pieces.foldl step location) = none) :
    tree.arrive location pieces = .error .notFound := by
  induction pieces generalizing location with
  | nil =>
    rw [List.foldl_nil] at hTarget
    rw [arrive_nil, hTarget]
  | cons piece rest ih =>
    rw [List.mem_cons, not_or] at hDown
    have hStep : location <+: step location piece := prefix_step (Ne.symm hDown.1) location
    have hReach : step location piece <+: rest.foldl step (step location piece) :=
      prefix_foldl_step hDown.2 _
    rw [arrive_cons]
    rcases hAlong location (List.prefix_refl _) (hStep.trans hReach) with hNone | hDirectory
    · rw [hNone]
    · rw [hDirectory]
      exact ih hDown.2 (fun place hPlace => hAlong place (hStep.trans hPlace)) hTarget

/-- Two trees show the same at the end of a way down if it is the same that stands there, and on the
way the other tree has at most some more directories. -/
theorem WellFormed.arrive_congr (hTree : tree.WellFormed) {other : Tree} {location : Location}
    {pieces : List String} (hDown : ".." ∉ pieces)
    (hAlong : ∀ place, location <+: place → place <+: pieces.foldl step location →
      other.entry? place = tree.entry? place ∨
        tree.entry? place = none ∧ other.entry? place = some .directory)
    (hTarget : other.entry? (pieces.foldl step location) =
      tree.entry? (pieces.foldl step location)) :
    other.arrive location pieces = tree.arrive location pieces := by
  induction pieces generalizing location with
  | nil =>
    rw [List.foldl_nil] at hTarget
    rw [arrive_nil, arrive_nil, hTarget]
  | cons piece rest ih =>
    have hParts := hDown
    rw [List.mem_cons, not_or] at hParts
    have hStep : location <+: step location piece := prefix_step (Ne.symm hParts.1) location
    have hReach : step location piece <+: rest.foldl step (step location piece) :=
      prefix_foldl_step hParts.2 _
    -- The step goes on alike where the same stands here in both trees.
    rcases hAlong location (List.prefix_refl _) (hStep.trans hReach) with hSame | ⟨hNone, -⟩
    · rw [arrive_cons, arrive_cons, hSame]
      split
      · rfl
      · rfl
      · exact ih hParts.2 (fun place hPlace => hAlong place (hStep.trans hPlace)) hTarget
    · -- Nothing is below a location where nothing is, so the other tree has directories at most.
      have hBelow : ∀ place, location <+: place → tree.entry? place = none :=
        fun place hPlace => hTree.entry?_eq_none_of_prefix hNone hPlace
      have hOther : other.arrive location (piece :: rest) = .error .notFound := by
        refine arrive_eq_notFound hDown (fun place hPlace hPrefix => ?_) ?_
        · rcases hAlong place hPlace hPrefix with hEq | ⟨-, hDirectory⟩
          · exact .inl (hEq.trans (hBelow place hPlace))
          · exact .inr hDirectory
        · exact hTarget.trans (hBelow _ (hStep.trans hReach))
      rw [hOther, arrive_cons, hNone]

end ResourceTables.Tree
