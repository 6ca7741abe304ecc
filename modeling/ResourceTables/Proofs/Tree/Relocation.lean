import ResourceTables.Proofs.Tree.Directories

/-!
# Trees that hold the same in two places

What a path leads to from a directory depends only on what the directory holds, as long as the path
never steps out of it. So two directories that hold the same, in two trees or at two places of one
tree, show the same to the same path; and of what they hold only the places on the way matter.

## Main definitions

* `Tree.Leads`: pieces that lead from one place to another inside a directory.
* `Tree.Mirrors`: another directory that holds the same at the places that are kept.
* `Tree.Hosts`: a path that others are joined to and looked up at.
* `Tree.Relocated`: two paths to the same place in two directories that hold the same.

## Main results

* `Mirrors.arrive_eq`: the same pieces show the same in both directories.
* `Mirrors.readText_eq`, `Mirrors.find_eq_or`: so do paths that are joined to such directories.
* `Hosts.parent?`: the directory of what is found hosts paths, too.
* `Relocated.parent?`: the directories of a file and of its copy are the same place.
-/

namespace ResourceTables.Tree

/-- Pieces lead from one place in a directory to another. All places on the way are kept, and none
is outside of the directory: a step back takes off a name. -/
inductive Leads (kept : Location → Prop) : Location → List String → Location → Prop where
  | here {place : Location} (hKept : kept place) : Leads kept place [] place
  | idle {place target : Location} {piece : String} {rest : List String} (hKept : kept place)
      (hPiece : Path.Idle piece) (hRest : Leads kept place rest target) :
      Leads kept place (piece :: rest) target
  | back {place target : Location} {name : String} {rest : List String}
      (hKept : kept (place ++ [name])) (hRest : Leads kept place rest target) :
      Leads kept (place ++ [name]) (".." :: rest) target
  | down {place target : Location} {piece : String} {rest : List String} (hKept : kept place)
      (hPiece : ¬Path.Idle piece) (hBack : piece ≠ "..")
      (hRest : Leads kept (place ++ [piece]) rest target) :
      Leads kept place (piece :: rest) target

/-- The directory at another location, perhaps of another tree, holds the same as the one at a
location of this tree, at all places that are kept. -/
def Mirrors (kept : Location → Prop) (tree : Tree) (root : Location) (other : Tree)
    (otherRoot : Location) : Prop :=
  ∀ place, kept place → other.entry? (otherRoot ++ place) = tree.entry? (root ++ place)

/-- A path that others can be joined to and looked up at: it anchors them in a directory, and its
text can be part of theirs. -/
structure Hosts (tree : Tree) (base : Path) (root : Location) : Prop
    extends Anchors tree base root where
  noNul : '\x00' ∉ base.text.toList

variable {kept : Location → Prop} {tree other : Tree} {root otherRoot place target : Location}

/-! ## Ways inside a directory -/

theorem step_back_append (root place : Location) (name : String) :
    step (root ++ (place ++ [name])) ".." = root ++ place := by
  rw [← List.append_assoc]
  exact List.dropLast_concat

theorem step_down_append {piece : String} (hPiece : ¬Path.Idle piece) (hBack : piece ≠ "..")
    (root place : Location) : step (root ++ place) piece = root ++ (place ++ [piece]) := by
  rw [← List.append_assoc]
  exact (if_neg hPiece).trans (if_neg hBack)

namespace Leads

variable {pieces : List String}

theorem kept_start (h : Leads kept place pieces target) : kept place := by
  cases h <;> assumption

theorem kept_target (h : Leads kept place pieces target) : kept target := by
  induction h with
  | here hKept => exact hKept
  | idle _ _ _ ih => exact ih
  | back _ _ ih => exact ih
  | down _ _ _ _ ih => exact ih

/-- Wherever the directory is, the pieces lead to the same place in it. -/
theorem foldl_step (h : Leads kept place pieces target) (root : Location) :
    pieces.foldl step (root ++ place) = root ++ target := by
  induction h with
  | here _ => rfl
  | idle _ hPiece _ ih => rw [List.foldl_cons, step_of_idle hPiece, ih]
  | back _ _ ih => rw [List.foldl_cons, step_back_append, ih]
  | down _ hPiece hBack _ ih => rw [List.foldl_cons, step_down_append hPiece hBack, ih]

/-- A way in two parts goes by the place where the first ends. -/
theorem of_append {front rest : List String} (h : Leads kept place (front ++ rest) target) :
    ∃ middle, Leads kept place front middle ∧ Leads kept middle rest target := by
  induction front generalizing place with
  | nil => exact ⟨place, .here h.kept_start, h⟩
  | cons piece front ih =>
    cases h with
    | idle hKept hPiece hRest =>
      obtain ⟨middle, hFront, hAfter⟩ := ih hRest
      exact ⟨middle, .idle hKept hPiece hFront, hAfter⟩
    | back hKept hRest =>
      obtain ⟨middle, hFront, hAfter⟩ := ih hRest
      exact ⟨middle, .back hKept hFront, hAfter⟩
    | down hKept hPiece hBack hRest =>
      obtain ⟨middle, hFront, hAfter⟩ := ih hRest
      exact ⟨middle, .down hKept hPiece hBack hFront, hAfter⟩

/-- A name leads one place down. -/
theorem of_isName {name : String} (hName : IsName name) (hKept : kept place)
    (hChild : kept (place ++ [name])) :
    Leads kept place (⟨name⟩ : Path).pieces (place ++ [name]) := by
  rw [Path.pieces_of_notMem hName.noSlash]
  exact .down hKept (not_or.mpr ⟨hName.nonempty, hName.notDot⟩) hName.notStepBack (.here hChild)

end Leads

/-- The same pieces show the same in both directories. -/
theorem Mirrors.arrive_eq (h : Mirrors kept tree root other otherRoot) {pieces : List String}
    (hLeads : Leads kept place pieces target) :
    ∃ seen : Except TreeFault Entry,
      tree.arrive (root ++ place) pieces = (fun entry => (root ++ target, entry)) <$> seen ∧
      other.arrive (otherRoot ++ place) pieces =
        (fun entry => (otherRoot ++ target, entry)) <$> seen := by
  induction hLeads with
  | here hKept =>
    rw [arrive_nil, arrive_nil, h _ hKept]
    split
    · exact ⟨.error .notFound, rfl, rfl⟩
    · next entry _ => exact ⟨.ok entry, rfl, rfl⟩
  -- A longer way ends at its first place, or both ways go on alike from the next.
  | idle hKept hPiece _ ih =>
    rw [arrive_cons, arrive_cons, h _ hKept, step_of_idle hPiece, step_of_idle hPiece]
    split
    · exact ⟨.error .notFound, rfl, rfl⟩
    · exact ⟨.error .notADirectory, rfl, rfl⟩
    · exact ih
  | back hKept _ ih =>
    rw [arrive_cons, arrive_cons, h _ hKept, step_back_append, step_back_append]
    split
    · exact ⟨.error .notFound, rfl, rfl⟩
    · exact ⟨.error .notADirectory, rfl, rfl⟩
    · exact ih
  | down hKept hPiece hBack _ ih =>
    rw [arrive_cons, arrive_cons, h _ hKept, step_down_append hPiece hBack,
      step_down_append hPiece hBack]
    split
    · exact ⟨.error .notFound, rfl, rfl⟩
    · exact ⟨.error .notADirectory, rfl, rfl⟩
    · exact ih

/-! ## Paths that others are joined to -/

section Hosts

variable {base name : Path}

theorem hosts_of_find {path : Path} {location : Location}
    (h : tree.find path = .ok (location, .directory)) : tree.Hosts path location := by
  obtain ⟨hPath, hWalk, hDirectory⟩ := find_eq_ok_iff.mp h
  exact ⟨anchors_of_walk hWalk hDirectory, (checkPath_eq_ok_iff.mp hPath).1⟩

/-- A directory hosts paths, and so does the empty path, which stands for the home directory. -/
theorem WellFormed.hosts (h : tree.WellFormed)
    (hBase : tree.isDirectory base = true ∨ base.text = "") :
    tree.Hosts base (tree.locate base) := by
  rcases hBase with hDirectory | hBase
  · exact hosts_of_find (isDirectory_eq_true_iff.mp hDirectory)
  · obtain ⟨text⟩ := base
    obtain rfl : text = "" := hBase
    exact ⟨⟨rfl, h.home⟩, by decide⟩

namespace Hosts

theorem locate_eq (h : tree.Hosts base root) : tree.locate base = root := by
  rw [locate_eq_trunk, eq_of_walk h.walk]

/-- What a relative path leads to is looked up from the directory that it is joined to, unless it
cannot be a path, or nothing is joined to nothing. -/
theorem find_join (h : tree.Hosts base root) (hName : name.isAbsolute = false) :
    tree.find (base.join name) =
      if '\x00' ∈ name.text.toList then .error .nulInPath
      else if base.text = "" ∧ name.text = "" then .error .notFound
      else tree.arrive root name.pieces := by
  have hNul : '\x00' ∈ (base.join name).text.toList ↔ '\x00' ∈ name.text.toList := by
    rw [Path.mem_text_join_iff hName base (by decide)]
    exact or_iff_right h.noNul
  rw [find_eq, checkPath, start_congr (Path.isAbsolute_join hName base), Path.pieces_join hName,
    arrive_append h.walk]
  simp only [List.contains_iff_mem, hNul, String.isEmpty_iff, Path.text_join_eq_empty_iff hName]
  split
  · rfl
  · split <;> rfl

/-- The empty path shows no text. -/
theorem toOption_readText_of_empty (h : tree.Hosts base root) (hName : name.text = "") :
    (tree.readText (base.join name)).toOption = none := by
  obtain ⟨text⟩ := name
  obtain rfl : text = "" := hName
  rw [readText, h.find_join rfl]
  by_cases hBase : base.text = ""
  · simp [hBase, bind, Except.bind, Except.toOption]
  · have hHere : tree.arrive root (Path.pieces ⟨""⟩) = .ok (root, .directory) :=
      arrive_eq_ok_iff.mpr ⟨walk_cons_eq_ok_iff.mpr ⟨h.directory, rfl⟩, h.directory⟩
    simp [hBase, hHere, bind, Except.bind, Except.toOption]

/-- The directory of what is found hosts paths, too: it is where the path leads without its last
piece. -/
theorem parent? (h : tree.Hosts base root) (hName : name.isAbsolute = false)
    {front : List String} {last : String} (hPieces : name.pieces = front ++ [last])
    (hIdle : ¬Path.Idle last) {parent : Path} (hParent : (base.join name).parent? = some parent)
    {found : Location × Entry} (hFind : tree.find (base.join name) = .ok found) :
    tree.Hosts parent (front.foldl step root) := by
  obtain ⟨hPath, hWalk, -⟩ := find_eq_ok_iff.mp hFind
  have hJoin : (base.join name).pieces = base.trunk ++ front ++ [last] := by
    rw [Path.pieces_join hName, hPieces, List.append_assoc]
  obtain ⟨hAbsolute, ⟨between, hParts, hBetween⟩, -⟩ :=
    Path.endsIn_of_parent? hParent (by rw [hJoin, List.getLast?_concat]) hIdle
  have hFront : parent.trunk ++ between = base.trunk ++ front :=
    (List.append_inj' (hParts.symm.trans hJoin) rfl).1
  rw [hParts, walk_append_eq_ok_iff, ← start_congr hAbsolute] at hWalk
  obtain ⟨middle, hMiddle, hLast⟩ := hWalk
  have hDirectory := (walk_cons_eq_ok_iff.mp hLast).1
  -- Pieces that lead nowhere are all that is between the parent and the last piece.
  have hTarget : middle = front.foldl step root := by
    rw [eq_of_walk hMiddle, hFront, List.foldl_append, eq_of_walk h.walk,
      start_congr (hAbsolute.trans (Path.isAbsolute_join hName base))]
  obtain ⟨reached, hTrunk, hRest⟩ := walk_append_eq_ok_iff.mp hMiddle
  have hReached : reached = middle := by
    rw [eq_of_walk hRest, foldl_step_of_idle hBetween]
  refine ⟨⟨?_, hTarget ▸ hDirectory⟩, fun hNul => ?_⟩
  · rw [hTrunk, hReached, hTarget]
  · rcases Path.mem_text_of_parent? hParent hNul with hMem | hSlash
    · exact (checkPath_eq_ok_iff.mp hPath).1 hMem
    · cases hSlash

end Hosts

end Hosts

/-! ## Paths in both directories -/

namespace Mirrors

variable {base otherBase name : Path}

/-- A path shows the same text in both directories, or none in both. -/
theorem readText_eq (h : Mirrors kept tree root other otherRoot)
    (hBase : tree.Hosts base (root ++ place)) (hOther : other.Hosts otherBase (otherRoot ++ place))
    (hName : name.isAbsolute = false) (hLeads : Leads kept place name.pieces target) :
    (other.readText (otherBase.join name)).toOption =
      (tree.readText (base.join name)).toOption := by
  by_cases hEmpty : name.text = ""
  · rw [hBase.toOption_readText_of_empty hEmpty, hOther.toOption_readText_of_empty hEmpty]
  · obtain ⟨seen, hSeen, hOtherSeen⟩ := h.arrive_eq hLeads
    rw [readText, readText, hBase.find_join hName, hOther.find_join hName, hSeen, hOtherSeen]
    by_cases hNul : '\x00' ∈ name.text.toList
    · rw [if_pos hNul, if_pos hNul]
    · simp only [if_neg hNul, hEmpty, and_false, if_false]
      rcases seen with fault | - | content | bytes <;> rfl

/-- A path leads to a directory in both directories, or in neither. An empty path asks for more: it
is nothing where it is joined to nothing. -/
theorem find_eq_or (h : Mirrors kept tree root other otherRoot)
    (hBase : tree.Hosts base (root ++ place)) (hOther : other.Hosts otherBase (otherRoot ++ place))
    (hName : name.isAbsolute = false) (hLeads : Leads kept place name.pieces target)
    (hEmpty : name.text = "" → (base.text = "" ↔ otherBase.text = "")) :
    tree.find (base.join name) = .ok (root ++ target, .directory) ∧
        other.find (otherBase.join name) = .ok (otherRoot ++ target, .directory) ∨
      tree.isDirectory (base.join name) = false ∧
        other.isDirectory (otherBase.join name) = false := by
  have hSame : (base.text = "" ∧ name.text = "") ↔ (otherBase.text = "" ∧ name.text = "") :=
    and_congr_left hEmpty
  obtain ⟨seen, hSeen, hOtherSeen⟩ := h.arrive_eq hLeads
  rw [isDirectory, isDirectory, hBase.find_join hName, hOther.find_join hName, hSeen, hOtherSeen]
  simp only [← hSame]
  split
  · exact .inr ⟨rfl, rfl⟩
  · split
    · exact .inr ⟨rfl, rfl⟩
    · rcases seen with fault | - | content
      · exact .inr ⟨rfl, rfl⟩
      · exact .inl ⟨rfl, rfl⟩
      · exact .inr ⟨rfl, rfl⟩

end Mirrors

/-! ## The same place in both directories -/

/-- A relative path that is looked up from a place inside a directory leads to a place inside, over
places that are kept. -/
structure LeadsInside (tree : Tree) (root : Location) (kept : Location → Prop) (base name : Path)
    (target : Location) : Prop where
  relative : name.isAbsolute = false
  leads : ∃ place, tree.locate base = root ++ place ∧ Leads kept place name.pieces target

/-- Two paths lead to the same place in two directories that hold the same. No location of a tree
has two entries. -/
structure Relocated (kept : Location → Prop) (tree : Tree) (root : Location) (other : Tree)
    (otherRoot : Location) (base otherBase : Path) (place : Location) : Prop where
  wellFormed : tree.WellFormed
  distinct : (tree.entries.map (·.1)).Nodup
  otherDistinct : (other.entries.map (·.1)).Nodup
  mirrors : Mirrors kept tree root other otherRoot
  hosts : tree.Hosts base (root ++ place)
  otherHosts : other.Hosts otherBase (otherRoot ++ place)

/-- A name leads one place down. -/
theorem leadsInside_of_isName {base : Path} {name : String} (hName : IsName name)
    (hBase : tree.locate base = root ++ place) (hKept : kept place)
    (hChild : kept (place ++ [name])) :
    tree.LeadsInside root kept base ⟨name⟩ (place ++ [name]) where
  relative := (Path.descending_of_notMem hName.noSlash hName.notStepBack).relative
  leads := ⟨place, hBase, .of_isName hName hKept hChild⟩

namespace Relocated

variable {base otherBase name : Path}

/-- What is looked up inside is looked up from the same place. -/
theorem leads (h : Relocated kept tree root other otherRoot base otherBase place)
    (hName : LeadsInside tree root kept base name target) :
    Leads kept place name.pieces target := by
  obtain ⟨start, hLocate, hLeads⟩ := hName.leads
  rw [h.hosts.locate_eq, List.append_cancel_left_eq] at hLocate
  exact hLocate ▸ hLeads

/-- A path that stays inside shows the same text, or none twice. -/
theorem readText_eq (h : Relocated kept tree root other otherRoot base otherBase place)
    (hName : LeadsInside tree root kept base name target) :
    (other.readText (otherBase.join name)).toOption =
      (tree.readText (base.join name)).toOption :=
  h.mirrors.readText_eq h.hosts h.otherHosts hName.relative (h.leads hName)

/-- The directories of a file and of its copy are the same place, too. -/
theorem parent? (h : Relocated kept tree root other otherRoot base otherBase place)
    (hName : LeadsInside tree root kept base name target) {front : List String} {last : String}
    (hPieces : name.pieces = front ++ [last]) (hIdle : ¬Path.Idle last) {text : String}
    (hText : tree.readText (base.join name) = .ok text)
    (hOther : other.readText (otherBase.join name) = .ok text) {parent otherParent : Path}
    (hParent : (base.join name).parent? = some parent)
    (hOtherParent : (otherBase.join name).parent? = some otherParent) :
    ∃ middle, Relocated kept tree root other otherRoot parent otherParent middle := by
  have hLeads := h.leads hName
  rw [hPieces] at hLeads
  obtain ⟨middle, hFront, -⟩ := hLeads.of_append
  have hHosts := h.hosts.parent? hName.relative hPieces hIdle hParent (readText_eq_ok_iff.mp hText)
  have hOtherHosts := h.otherHosts.parent? hName.relative hPieces hIdle hOtherParent
    (readText_eq_ok_iff.mp hOther)
  rw [hFront.foldl_step] at hHosts hOtherHosts
  exact ⟨middle, { h with hosts := hHosts, otherHosts := hOtherHosts }⟩

end Relocated

end ResourceTables.Tree
