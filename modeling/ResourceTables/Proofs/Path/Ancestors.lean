import ResourceTables.Proofs.Path

/-!
# Ancestors of paths

The ancestors of a path are the path and the ancestors of its parent, and the pieces of a path are
those of its parent, one more step, and pieces around it that lead nowhere. So what is done along
the ancestors of a path can be followed by induction on the number of its steps.

## Main definitions

* `Path.chooseSteps`: the steps among pieces.
-/

namespace ResourceTables.Path

open Text

/-- The steps among pieces: those that lead somewhere, and a dot at the front. -/
def chooseSteps : List (String × Nat) → List (String × Nat)
  | [] => []
  | front :: rest =>
    [front].filter (fun step => step.1 != "") ++
      rest.filter (fun step => step.1 != "" && step.1 != ".")

theorem steps_eq (path : Path) : path.steps = chooseSteps (withEnds 0 path.pieces) := rfl

/-! ## Ends of pieces -/

@[simp] theorem map_fst_withEnds (start : Nat) (pieces : List String) :
    (withEnds start pieces).map (·.1) = pieces := by
  induction pieces generalizing start with
  | nil => rfl
  | cons piece rest ih => simp [withEnds, ih]

theorem exists_withEnds_append (start : Nat) (front rest : List String) :
    ∃ next, withEnds start (front ++ rest) = withEnds start front ++ withEnds next rest := by
  induction front generalizing start with
  | nil => exact ⟨start, rfl⟩
  | cons piece front ih =>
    obtain ⟨next, hNext⟩ := ih (start + piece.length + 1)
    exact ⟨next, by simp [withEnds, hNext]⟩

theorem le_of_mem_withEnds {start : Nat} {pieces : List String} {step : String × Nat}
    (h : step ∈ withEnds start pieces) : start ≤ step.2 := by
  induction pieces generalizing start with
  | nil => cases h
  | cons piece rest ih =>
    rcases List.mem_cons.mp h with rfl | hRest
    · exact Nat.le_add_right _ _
    · have := ih hRest
      omega

theorem pairwise_withEnds (start : Nat) (pieces : List String) :
    (withEnds start pieces).Pairwise fun step later => step.2 ≤ later.2 := by
  induction pieces generalizing start with
  | nil => exact .nil
  | cons piece rest ih =>
    refine .cons (fun later hLater => ?_) (ih _)
    have := le_of_mem_withEnds hLater
    omega

/-- A text cut off at the end of a piece has the pieces up to this one. -/
theorem splitOnChar_take {text : List Char} {start finish : Nat} {name : String}
    {before after : List (String × Nat)}
    (h : withEnds start ((splitOnChar '/' text).map String.ofList) =
      before ++ (name, finish) :: after) :
    (splitOnChar '/' (text.take (finish - start))).map String.ofList =
      before.map (·.1) ++ [name] := by
  induction before generalizing text start with
  | nil =>
    obtain ⟨piece, pieces, hSplit⟩ := List.exists_cons_of_ne_nil (splitOnChar_ne_nil '/' text)
    simp only [hSplit, List.map_cons, withEnds, List.nil_append, List.cons.injEq, Prod.mk.injEq,
      String.length_ofList] at h
    obtain ⟨⟨rfl, rfl⟩, -⟩ := h
    obtain ⟨hPiece, hText⟩ := eq_of_splitOnChar_cons hSplit
    have hTake : text.take (start + piece.length - start) = piece := by
      rw [Nat.add_sub_cancel_left]
      rcases hText with ⟨-, rfl⟩ | ⟨rest, rfl, -⟩ <;> simp
    rw [hTake, splitOnChar_of_notMem hPiece]
    rfl
  | cons first before ih =>
    obtain ⟨piece, pieces, hSplit⟩ := List.exists_cons_of_ne_nil (splitOnChar_ne_nil '/' text)
    simp only [hSplit, List.map_cons, withEnds, List.cons_append, List.cons.injEq,
      String.length_ofList] at h
    obtain ⟨rfl, hRest⟩ := h
    obtain ⟨-, ⟨rfl, rfl⟩ | ⟨rest, rfl, hPieces⟩⟩ := eq_of_splitOnChar_cons hSplit
    · simp [withEnds] at hRest
    · rw [← hPieces] at hRest
      have hFinish : (name, finish) ∈ withEnds (start + piece.length + 1)
          ((splitOnChar '/' rest).map String.ofList) := by rw [hRest]; simp
      have hLe := le_of_mem_withEnds hFinish
      -- The first piece is taken whole with its slash, and the rest up to the same end.
      have hTake : (piece ++ '/' :: rest).take (finish - start) =
          piece ++ '/' :: rest.take (finish - (start + piece.length + 1)) := by
        have hCount :
            finish - start = piece.length + (finish - (start + piece.length + 1) + 1) := by
          omega
        rw [hCount, List.take_length_add_append, List.take_succ_cons]
      have hPiece : '/' ∉ piece := (eq_of_splitOnChar_cons hSplit).1
      rw [hTake, splitOnChar_append_cons, splitOnChar_of_notMem hPiece, List.map_append, ih hRest]
      rfl

/-- A path up to the end of a piece has the pieces up to this one. -/
theorem pieces_upTo {path : Path} {name : String} {finish : Nat}
    {before after : List (String × Nat)}
    (h : withEnds 0 path.pieces = before ++ (name, finish) :: after) :
    (path.upTo finish).pieces = before.map (·.1) ++ [name] := by
  have hTake := splitOnChar_take h
  rw [Nat.sub_zero] at hTake
  rw [upTo, pieces, String.toList_ofList, hTake]

/-- A path is absolute if its first piece is empty and not its only one. -/
theorem isAbsolute_iff_pieces (path : Path) :
    path.isAbsolute = true ↔ ∃ second rest, path.pieces = "" :: second :: rest := by
  rw [isAbsolute, beq_iff_eq, pieces]
  cases hText : path.text.toList with
  | nil => simp [splitOnChar]
  | cons c rest =>
    obtain ⟨piece, pieces, hSplit⟩ := List.exists_cons_of_ne_nil (splitOnChar_ne_nil '/' rest)
    rw [splitOnChar, hSplit, List.head?_cons, Option.some.injEq]
    by_cases hSlash : c = '/'
    · simp [hSlash]
    · simp [hSlash, consHead, ← String.toList_inj]

/-! ## Steps -/

/-- A step is chosen at a place in front of which and behind which the other steps are chosen. -/
theorem exists_of_filter_eq {α : Type} {p : α → Bool} {items before after : List α} {item : α}
    (h : items.filter p = before ++ item :: after) :
    ∃ front rest, items = front ++ item :: rest ∧ front.filter p = before ∧
      rest.filter p = after ∧ p item = true := by
  obtain ⟨front, back, rfl, hFront, hBack⟩ := List.filter_eq_append_iff.mp h
  obtain ⟨skipped, rest, rfl, hSkipped, hItem, hRest⟩ := List.filter_eq_cons_iff.mp hBack
  refine ⟨front ++ skipped, rest, by simp, ?_, hRest, hItem⟩
  rw [List.filter_append, hFront, List.filter_eq_nil_iff.mpr hSkipped, List.append_nil]

theorem chooseSteps_cons_of_eq {first : String × Nat} (h : first.1 = "")
    (places : List (String × Nat)) :
    chooseSteps (first :: places) = places.filter fun step => step.1 != "" && step.1 != "." := by
  simp [chooseSteps, h]

theorem chooseSteps_cons_of_ne {first : String × Nat} (h : first.1 ≠ "")
    (places : List (String × Nat)) :
    chooseSteps (first :: places) =
      first :: places.filter fun step => step.1 != "" && step.1 != "." := by
  simp [chooseSteps, h]

theorem chooseSteps_sublist (places : List (String × Nat)) :
    (chooseSteps places).Sublist places := by
  cases places with
  | nil => exact .slnil
  | cons first places => exact List.Sublist.append List.filter_sublist List.filter_sublist

theorem exists_of_chooseSteps_eq {places before after : List (String × Nat)} {step : String × Nat}
    (h : chooseSteps places = before ++ step :: after) :
    ∃ front rest, places = front ++ step :: rest ∧ chooseSteps front = before ∧
      rest.filter (fun step => step.1 != "" && step.1 != ".") = after ∧ step.1 ≠ "" ∧
      (step.1 = "." → front = []) := by
  cases places with
  | nil => simp [chooseSteps] at h
  | cons first places =>
    by_cases hFirst : first.1 = ""
    · rw [chooseSteps_cons_of_eq hFirst] at h
      obtain ⟨front, rest, rfl, hFront, hRest, hStep⟩ := exists_of_filter_eq h
      simp only [Bool.and_eq_true, bne_iff_ne] at hStep
      refine ⟨first :: front, rest, rfl, ?_, hRest, hStep.1, fun hDot => absurd hDot hStep.2⟩
      rw [chooseSteps_cons_of_eq hFirst, hFront]
    · rw [chooseSteps_cons_of_ne hFirst] at h
      cases before with
      | nil =>
        rw [List.nil_append, List.cons.injEq] at h
        obtain ⟨rfl, hRest⟩ := h
        exact ⟨[], places, rfl, rfl, hRest, hFirst, fun _ => rfl⟩
      | cons second before =>
        rw [List.cons_append, List.cons.injEq] at h
        obtain ⟨rfl, hPlaces⟩ := h
        obtain ⟨front, rest, rfl, hFront, hRest, hStep⟩ := exists_of_filter_eq hPlaces
        simp only [Bool.and_eq_true, bne_iff_ne] at hStep
        refine ⟨first :: front, rest, rfl, ?_, hRest, hStep.1, fun hDot => absurd hDot hStep.2⟩
        rw [chooseSteps_cons_of_ne hFirst, hFront]

theorem chooseSteps_concat {front : List (String × Nat)} {step : String × Nat}
    (hName : step.1 ≠ "") (hDot : step.1 = "." → front = []) :
    chooseSteps (front ++ [step]) = chooseSteps front ++ [step] := by
  cases front with
  | nil => simp [chooseSteps, hName]
  | cons first front =>
    have hStep : step.1 ≠ "." := fun h => absurd (hDot h) (by simp)
    simp [chooseSteps, hName, hStep]

/-- A path up to the end of one of its steps has the steps up to this one. -/
theorem steps_upTo {path : Path} {before after : List (String × Nat)} {step : String × Nat}
    (h : path.steps = before ++ step :: after) : (path.upTo step.2).steps = before ++ [step] := by
  obtain ⟨front, rest, hPlaces, hFront, -, hName, hDot⟩ := exists_of_chooseSteps_eq h
  have hPieces := pieces_upTo hPlaces
  -- The steps are chosen among the first of the places that the path has its steps from.
  have hCut : withEnds 0 (path.upTo step.2).pieces = front ++ [step] := by
    have hAll : path.pieces = (path.upTo step.2).pieces ++ rest.map (·.1) := by
      rw [hPieces, ← map_fst_withEnds 0 path.pieces, hPlaces]
      simp
    obtain ⟨next, hNext⟩ := exists_withEnds_append 0 (path.upTo step.2).pieces (rest.map (·.1))
    rw [← hAll, hPlaces, List.append_cons] at hNext
    have hLength : (withEnds 0 (path.upTo step.2).pieces).length = (front ++ [step]).length := by
      rw [← List.length_map (fun step : String × Nat => step.1), map_fst_withEnds, hPieces]
      simp
    exact (List.append_inj_left hNext hLength.symm).symm
  rw [steps_eq, hCut, chooseSteps_concat hName hDot, hFront]

theorem steps_origin (path : Path) : path.origin.steps = [] := by
  rw [origin]
  split <;> decide

/-- A path up to the end of one of its steps has the pieces up to this one, which is not empty. -/
theorem exists_pieces_upTo {path : Path} {before after : List (String × Nat)} {step : String × Nat}
    (h : path.steps = before ++ step :: after) :
    ∃ front rest, (path.upTo step.2).pieces = front ++ [step.1] ∧
      path.pieces = front ++ step.1 :: rest ∧ step.1 ≠ "" := by
  obtain ⟨front, rest, hPlaces, -, -, hName, -⟩ := exists_of_chooseSteps_eq h
  refine ⟨front.map (·.1), rest.map (·.1), pieces_upTo hPlaces, ?_, hName⟩
  rw [← map_fst_withEnds 0 path.pieces, hPlaces]
  simp

theorem isAbsolute_upTo {path : Path} {before after : List (String × Nat)} {step : String × Nat}
    (h : path.steps = before ++ step :: after) :
    (path.upTo step.2).isAbsolute = path.isAbsolute := by
  obtain ⟨front, rest, hUpTo, hPath, hName⟩ := exists_pieces_upTo h
  rw [Bool.eq_iff_iff, isAbsolute_iff_pieces, isAbsolute_iff_pieces, hUpTo, hPath]
  rcases front with - | ⟨first, - | ⟨second, front⟩⟩ <;> simp [hName]

theorem origin_upTo {path : Path} {before after : List (String × Nat)} {step : String × Nat}
    (h : path.steps = before ++ step :: after) : (path.upTo step.2).origin = path.origin := by
  rw [origin, origin, isAbsolute_upTo h]

/-- What precedes the end of an earlier step is the same in a path that ends with a later one. -/
theorem upTo_upTo {path : Path} {length finish : Nat} (h : length ≤ finish) :
    (path.upTo finish).upTo length = path.upTo length := by
  simp [upTo, List.take_take, Nat.min_eq_left h]

/-! ## Parents -/

theorem parent?_eq_none_iff (path : Path) : path.parent? = none ↔ path.steps = [] := by
  rw [parent?]
  split
  · next h => simpa using h
  · next h => simpa using fun hSteps => absurd h (by simp [hSteps])
  · next h => simpa using fun hSteps => absurd h (by simp [hSteps])

/-- The parent of a path with a single step is what is left without steps, and the parent of any
other reaches up to the end of the last step but one. -/
theorem eq_origin_or_eq_upTo_of_parent? {path parent : Path} (h : path.parent? = some parent) :
    (∃ last, path.steps = [last] ∧ parent = path.origin) ∨
      ∃ earlier step last, path.steps = earlier ++ step :: [last] ∧
        parent = path.upTo step.2 := by
  rw [parent?] at h
  split at h
  · cases h
  · next last hSteps =>
    exact .inl ⟨last, List.reverse_eq_cons_iff.mp hSteps, (Option.some.inj h).symm⟩
  · next last step earlier hSteps =>
    refine .inr ⟨earlier.reverse, step, last, ?_, (Option.some.inj h).symm⟩
    simpa using List.reverse_eq_cons_iff.mp hSteps

/-- The parent of a path has its steps but for the last. -/
theorem steps_of_parent? {path parent : Path} (h : path.parent? = some parent) :
    ∃ last, path.steps = parent.steps ++ [last] := by
  rcases eq_origin_or_eq_upTo_of_parent? h with
    ⟨last, hSteps, rfl⟩ | ⟨earlier, step, last, hSteps, rfl⟩
  · exact ⟨last, by rw [hSteps, steps_origin, List.nil_append]⟩
  · exact ⟨last, by rw [steps_upTo hSteps, hSteps]; simp⟩

/-- The ancestors of a path are the path and those of its parent. -/
theorem ancestors_eq (path : Path) :
    path.ancestors = path :: (path.parent?.map ancestors).getD [] := by
  rw [parent?]
  split
  · next h => rw [ancestors, h]; rfl
  · next last h =>
    rw [ancestors, h, Option.map_some, Option.getD_some, ancestors, steps_origin]
    rfl
  · next last step earlier h =>
    have hPath : path.steps = earlier.reverse ++ step :: [last] := by
      simpa using congrArg List.reverse h
    have hEarlier : ∀ other ∈ earlier, (path.upTo step.2).upTo other.2 = path.upTo other.2 := by
      intro other hOther
      have hPairwise := (pairwise_withEnds 0 path.pieces).sublist
        (chooseSteps_sublist (withEnds 0 path.pieces))
      rw [← steps_eq, hPath] at hPairwise
      exact upTo_upTo ((List.pairwise_append.mp hPairwise).2.2 other (by simpa using hOther) step
        List.mem_cons_self)
    have hSteps : (path.upTo step.2).steps.reverse = step :: earlier := by
      rw [steps_upTo hPath]
      simp
    rw [ancestors, h, Option.map_some, Option.getD_some, ancestors, hSteps]
    simp only [List.map_cons, List.cons_append, origin_upTo hPath]
    rw [List.map_congr_left hEarlier]

/-- An ancestor of a path has the first of its pieces, if it is not what is left without steps. -/
theorem prefix_of_mem_ancestors {path upper : Path} (h : upper ∈ path.ancestors) :
    upper = path.origin ∨
      upper.pieces <+: path.pieces ∧ upper.isAbsolute = path.isAbsolute := by
  rw [ancestors] at h
  split at h
  · rw [List.mem_singleton.mp h]
    exact .inr ⟨List.prefix_refl _, rfl⟩
  · next last earlier hSteps =>
    rw [List.mem_append, List.mem_cons, List.mem_map, List.mem_singleton] at h
    rcases h with (rfl | ⟨step, hStep, rfl⟩) | rfl
    · exact .inr ⟨List.prefix_refl _, rfl⟩
    · have hPath : path.steps = earlier.reverse ++ [last] := by
        simpa using congrArg List.reverse hSteps
      obtain ⟨before, after, hEarlier⟩ := List.append_of_mem (List.mem_reverse.mpr hStep)
      rw [hEarlier, List.append_assoc, List.cons_append] at hPath
      obtain ⟨front, rest, hUpTo, hPieces, -⟩ := exists_pieces_upTo hPath
      refine .inr ⟨⟨rest, ?_⟩, isAbsolute_upTo hPath⟩
      rw [hUpTo, hPieces, List.append_assoc, List.singleton_append]
    · exact .inl rfl

theorem ancestors_subset_of_parent? {path parent : Path} (h : path.parent? = some parent) :
    ∀ upper ∈ parent.ancestors, upper ∈ path.ancestors := by
  intro upper hUpper
  rw [ancestors_eq path, h]
  exact List.mem_cons_of_mem _ hUpper

theorem mem_ancestors_self (path : Path) : path ∈ path.ancestors := by
  rw [ancestors_eq]
  exact List.mem_cons_self

/-- The parent of a path has fewer pieces, if it is not what is left without steps. -/
theorem exists_pieces_of_parent? {path parent : Path} (h : path.parent? = some parent) :
    parent = path.origin ∨ parent.isAbsolute = path.isAbsolute ∧
      ∃ piece rest, path.pieces = parent.pieces ++ piece :: rest := by
  rcases prefix_of_mem_ancestors (ancestors_subset_of_parent? h parent parent.mem_ancestors_self)
    with hOrigin | ⟨⟨rest, hPieces⟩, hAbsolute⟩
  · exact .inl hOrigin
  · refine .inr ⟨hAbsolute, ?_⟩
    cases rest with
    | nil =>
      obtain ⟨last, hSteps⟩ := steps_of_parent? h
      rw [List.append_nil] at hPieces
      rw [steps_eq, steps_eq, hPieces] at hSteps
      simp at hSteps
    | cons piece rest => exact ⟨piece, rest, hPieces.symm⟩

theorem isAbsolute_origin (path : Path) : path.origin.isAbsolute = path.isAbsolute := by
  rw [origin]
  split
  · next h =>
    rw [h]
    rfl
  · next h =>
    rw [Bool.not_eq_true] at h
    rw [h]
    rfl

theorem isAbsolute_of_parent? {path parent : Path} (h : path.parent? = some parent) :
    parent.isAbsolute = path.isAbsolute := by
  rcases exists_pieces_of_parent? h with rfl | ⟨hAbsolute, -⟩
  · exact path.isAbsolute_origin
  · exact hAbsolute

/-- A parent has no characters of its own, but perhaps a slash. -/
theorem mem_text_of_parent? {path parent : Path} (h : path.parent? = some parent) {c : Char}
    (hc : c ∈ parent.text.toList) : c ∈ path.text.toList ∨ c = '/' := by
  rcases eq_origin_or_eq_upTo_of_parent? h with ⟨-, -, rfl⟩ | ⟨-, step, -, -, rfl⟩
  · rw [origin] at hc
    split at hc
    · exact .inr (List.mem_singleton.mp hc)
    · cases hc
  · rw [upTo, String.toList_ofList] at hc
    exact .inl (List.mem_of_mem_take hc)

/-! ## What a parent leaves out -/

theorem idle_of_filter_eq_nil {places : List (String × Nat)}
    (h : places.filter (fun step => step.1 != "" && step.1 != ".") = []) :
    ∀ piece ∈ places.map (·.1), Idle piece := by
  rw [List.forall_mem_map]
  intro place hPlace
  have hDropped := List.filter_eq_nil_iff.mp h place hPlace
  simp only [Bool.and_eq_true, bne_iff_ne, not_and_or, not_not] at hDropped
  exact hDropped

theorem idle_of_chooseSteps_eq_nil {places : List (String × Nat)} (h : chooseSteps places = []) :
    ∀ piece ∈ places.map (·.1), Idle piece := by
  cases places with
  | nil => exact fun piece hPiece => absurd hPiece List.not_mem_nil
  | cons first places =>
    by_cases hFirst : first.1 = ""
    · rw [chooseSteps_cons_of_eq hFirst] at h
      rw [List.map_cons, List.forall_mem_cons]
      exact ⟨.inl hFirst, idle_of_filter_eq_nil h⟩
    · rw [chooseSteps_cons_of_ne hFirst] at h
      cases h

theorem idle_of_parent?_eq_none {path : Path} (h : path.parent? = none) :
    ∀ piece ∈ path.pieces, Idle piece := by
  rw [parent?_eq_none_iff, steps_eq] at h
  have hIdle := idle_of_chooseSteps_eq_nil h
  rwa [map_fst_withEnds] at hIdle

/-- A path of one step starts with the pieces of what is left without it. -/
theorem exists_trunk_origin {path : Path} {front : List (String × Nat)} {name : String}
    {rest : List String} (hPieces : path.pieces = front.map (·.1) ++ name :: rest)
    (hName : name ≠ "") (hFront : chooseSteps front = []) :
    ∃ between, front.map (·.1) = path.origin.trunk ++ between ∧ ∀ piece ∈ between, Idle piece := by
  have hIdle := idle_of_chooseSteps_eq_nil hFront
  cases front with
  | nil =>
    have hRelative : path.isAbsolute = false := by
      rw [Bool.eq_false_iff, ne_eq, isAbsolute_iff_pieces, hPieces]
      simp [hName]
    refine ⟨[], ?_, fun piece hPiece => absurd hPiece List.not_mem_nil⟩
    rw [origin, hRelative]
    rfl
  | cons first front =>
    by_cases hFirst : first.1 = ""
    · have hAbsolute : path.isAbsolute = true := by
        rw [isAbsolute_iff_pieces, hPieces, List.map_cons, hFirst]
        cases front with
        | nil => exact ⟨name, rest, rfl⟩
        | cons second front => exact ⟨second.1, front.map (·.1) ++ name :: rest, rfl⟩
      rw [List.map_cons, List.forall_mem_cons] at hIdle
      refine ⟨front.map (·.1), ?_, hIdle.2⟩
      rw [origin, if_pos hAbsolute, List.map_cons, hFirst]
      rfl
    · rw [chooseSteps_cons_of_ne hFirst] at hFront
      cases hFront

theorem trunk_of_getLast?_ne {path : Path} {front : List String} {name : String}
    (hPieces : path.pieces = front ++ [name]) (hName : name ≠ "") : path.trunk = path.pieces := by
  rw [trunk, if_neg]
  simp [hPieces, hName]

/-- A path has the pieces of its parent and one more step, with idle pieces around it; a dot is a
step only at the very front. -/
theorem exists_pieces_around {path parent : Path} (h : path.parent? = some parent) :
    ∃ between name after, path.pieces = parent.trunk ++ between ++ name :: after ∧
      (∀ piece ∈ between, Idle piece) ∧ (∀ piece ∈ after, Idle piece) ∧ name ≠ "" ∧
      (name = "." → parent.trunk ++ between = []) := by
  -- The last step cuts the pieces in two, and all behind it is idle.
  have hPlaces : ∀ {before last},
      path.steps = before ++ [last] → ∃ front rest : List (String × Nat),
        path.pieces = front.map (·.1) ++ last.1 :: rest.map (·.1) ∧
          withEnds 0 path.pieces = front ++ last :: rest ∧ chooseSteps front = before ∧
          (∀ piece ∈ rest.map (·.1), Idle piece) ∧ last.1 ≠ "" ∧ (last.1 = "." → front = []) := by
    intro before last hSteps
    obtain ⟨front, rest, hPlaces, hFront, hRest, hName, hDot⟩ :=
      exists_of_chooseSteps_eq (path.steps_eq.symm.trans hSteps)
    refine ⟨front, rest, ?_, hPlaces, hFront, idle_of_filter_eq_nil hRest, hName, hDot⟩
    rw [← map_fst_withEnds 0 path.pieces, hPlaces]
    simp
  rcases eq_origin_or_eq_upTo_of_parent? h with
    ⟨last, hSteps, rfl⟩ | ⟨earlier, step, last, hSteps, rfl⟩
  · obtain ⟨front, rest, hPieces, -, hFront, hAfter, hName, hDot⟩ :=
      hPlaces (hSteps.trans (List.nil_append [last]).symm)
    obtain ⟨between, hOrigin, hBetween⟩ := exists_trunk_origin hPieces hName hFront
    refine ⟨between, last.1, rest.map (·.1), hOrigin ▸ hPieces, hBetween, hAfter, hName, ?_⟩
    intro hLast
    rw [← hOrigin, hDot hLast]
    rfl
  · have hEarlier : path.steps = (earlier ++ [step]) ++ [last] := by
      rw [hSteps, List.append_assoc, List.singleton_append]
    obtain ⟨front, rest, hPieces, hAll, hFront, hAfter, hName, hDot⟩ := hPlaces hEarlier
    obtain ⟨front, between, rfl, -, hBetween, hStep, -⟩ := exists_of_chooseSteps_eq hFront
    rw [List.append_assoc, List.cons_append] at hAll
    have hUpTo := pieces_upTo hAll
    refine ⟨between.map (·.1), last.1, rest.map (·.1), ?_, idle_of_filter_eq_nil hBetween, hAfter,
      hName, fun hLast => absurd (hDot hLast) (by simp)⟩
    rw [trunk_of_getLast?_ne hUpTo hStep, hUpTo, hPieces]
    simp

/-- A path that ends with a piece which leads somewhere, after the pieces of its parent and idle
ones in between. -/
structure EndsIn (path parent : Path) (last : String) : Prop where
  isAbsolute : parent.isAbsolute = path.isAbsolute
  pieces : ∃ between, path.pieces = parent.trunk ++ between ++ [last] ∧
    ∀ piece ∈ between, Idle piece
  notIdle : ¬Idle last

/-- The characters of a path are those of its parent and of its last piece, but perhaps slashes and
dots. -/
theorem EndsIn.mem_text {path parent : Path} {last : String} (h : path.EndsIn parent last)
    {c : Char} (hc : c ∈ path.text.toList) (hSlash : c ≠ '/') (hDot : c ≠ '.') :
    c ∈ parent.text.toList ∨ c ∈ last.toList := by
  obtain ⟨piece, hPiece, hMem⟩ := (mem_text_iff_exists_mem_pieces hSlash).mp hc
  obtain ⟨between, hPieces, hBetween⟩ := h.pieces
  rw [hPieces, List.mem_append, List.mem_append, List.mem_singleton] at hPiece
  rcases hPiece with (hParent | hIdle) | rfl
  · exact .inl ((mem_text_iff_exists_mem_pieces hSlash).mpr
      ⟨piece, mem_pieces_of_mem_trunk hParent, hMem⟩)
  · rcases hBetween piece hIdle with rfl | rfl <;> simp [hDot] at hMem
  · exact .inr hMem

theorem endsIn_of_parent? {path parent : Path} (h : path.parent? = some parent) {last : String}
    (hLast : path.pieces.getLast? = some last) (hIdle : ¬Idle last) : path.EndsIn parent last where
  isAbsolute := isAbsolute_of_parent? h
  pieces := by
    obtain ⟨between, name, after, hPieces, hBetween, hAfter, -, -⟩ := exists_pieces_around h
    rw [hPieces, List.getLast?_append_of_ne_nil _ (List.cons_ne_nil _ _)] at hLast
    cases after with
    | nil =>
      obtain rfl := Option.some.inj hLast
      exact ⟨between, hPieces, hBetween⟩
    | cons next after =>
      rw [List.getLast?_cons_cons] at hLast
      exact absurd (hAfter last (List.mem_of_getLast? hLast)) hIdle
  notIdle := hIdle

/-- A parent ends with a step, or leads nowhere. -/
theorem getLast?_pieces_of_parent? {path parent : Path} (h : path.parent? = some parent) :
    (∀ piece ∈ parent.pieces, Idle piece) ∨
      ∃ last, parent.pieces.getLast? = some last ∧ ¬Idle last := by
  rcases eq_origin_or_eq_upTo_of_parent? h with ⟨-, -, rfl⟩ | ⟨earlier, step, last, hSteps, rfl⟩
  · refine .inl ?_
    rw [origin]
    split <;> decide
  · obtain ⟨front, rest, hPlaces, -, -, hName, hDot⟩ :=
      exists_of_chooseSteps_eq (path.steps_eq.symm.trans hSteps)
    have hUpTo := pieces_upTo hPlaces
    by_cases hStep : step.1 = "."
    · rw [hDot hStep] at hUpTo
      refine .inl ?_
      rw [hUpTo]
      simp [Idle, hStep]
    · exact .inr ⟨step.1, by rw [hUpTo, List.getLast?_concat], by simp [Idle, hName, hStep]⟩

/-! ## File names -/

theorem fileName?_mem_pieces {path : Path} {name : String} (h : path.fileName? = some name) :
    name ∈ path.pieces := by
  rw [fileName?] at h
  split at h
  · next step finish hLast =>
    split at h
    · cases h
    · obtain rfl := Option.some.inj h
      rw [← map_fst_withEnds 0 path.pieces]
      exact List.mem_map_of_mem ((chooseSteps_sublist _).subset (List.mem_of_getLast? hLast))
  · cases h

/-- A path whose last piece is a name ends with this name. -/
theorem fileName?_of_getLast? {path : Path} {last : String}
    (hLast : path.pieces.getLast? = some last) (hIdle : ¬Idle last) (hBack : last ≠ "..") :
    path.fileName? = some last := by
  obtain ⟨front, hFront⟩ := List.getLast?_eq_some_iff.mp hLast
  obtain ⟨next, hNext⟩ := exists_withEnds_append 0 front [last]
  rw [Idle, not_or] at hIdle
  have hSteps : path.steps = chooseSteps (withEnds 0 front) ++ [(last, next + last.length)] := by
    rw [steps_eq, hFront, hNext, withEnds, withEnds]
    exact chooseSteps_concat hIdle.1 fun hDot => absurd hDot hIdle.2
  rw [fileName?, hSteps, List.getLast?_concat]
  exact if_neg (not_or.mpr ⟨hIdle.2, hBack⟩)

/-- A relative path starts with a piece that is not empty, and so does its trunk. -/
theorem exists_trunk_eq_cons {path : Path} (hPath : path.isAbsolute = false)
    (hText : path.text ≠ "") : ∃ first rest, path.trunk = first :: rest ∧ first ≠ "" := by
  obtain ⟨piece, pieces, hPieces, hPiece⟩ : ∃ piece pieces,
      path.pieces = piece :: pieces ∧ piece ≠ "" := by
    rw [isAbsolute, beq_eq_false_iff_ne] at hPath
    rw [pieces]
    cases hChars : path.text.toList with
    | nil => exact absurd (String.toList_eq_nil_iff.mp hChars) hText
    | cons c rest =>
      rw [hChars, List.head?_cons, ne_eq, Option.some.injEq] at hPath
      obtain ⟨piece, pieces, hSplit⟩ := List.exists_cons_of_ne_nil (splitOnChar_ne_nil '/' rest)
      rw [splitOnChar, hSplit, if_neg hPath]
      exact ⟨_, _, rfl, by simp [← String.toList_inj]⟩
  rcases path.pieces_eq_trunk with hTrunk | hTrunk
  · exact ⟨piece, pieces, hTrunk.symm.trans hPieces, hPiece⟩
  · rw [hPieces] at hTrunk
    cases hEq : path.trunk with
    | nil =>
      rw [hEq] at hTrunk
      exact absurd (List.cons.inj hTrunk).1 hPiece
    | cons first rest =>
      rw [hEq] at hTrunk
      exact ⟨first, rest, rfl, (List.cons.inj hTrunk).1 ▸ hPiece⟩

/-- A name that is joined to a path which is not empty has a parent which is not empty either. -/
theorem text_ne_empty_of_parent?_join {base path parent : Path} (hPath : path.isAbsolute = false)
    (hBase : base.text ≠ "") {last : String} (hLast : path.pieces.getLast? = some last)
    (hIdle : ¬Idle last) (h : (base.join path).parent? = some parent) : parent.text ≠ "" := by
  rcases eq_origin_or_eq_upTo_of_parent? h with
    ⟨only, hSteps, rfl⟩ | ⟨earlier, step, last, hSteps, rfl⟩
  · rw [origin]
    split
    · decide
    · next hRelative =>
      -- A relative path has a step of its own, so the name is not the only one.
      rw [isAbsolute_join hPath, Bool.not_eq_true] at hRelative
      obtain ⟨first, rest, hTrunk, hFirst⟩ := exists_trunk_eq_cons hRelative hBase
      rw [steps_eq, pieces_join hPath, hTrunk, List.cons_append, withEnds,
        chooseSteps_cons_of_ne hFirst, List.cons.injEq] at hSteps
      have hAllIdle := idle_of_filter_eq_nil hSteps.2
      rw [map_fst_withEnds] at hAllIdle
      exact absurd (hAllIdle last (List.mem_append_right _ (List.mem_of_getLast? hLast))) hIdle
  · obtain ⟨front, rest, hPieces, -, hName⟩ := exists_pieces_upTo hSteps
    intro hEmpty
    rw [pieces, hEmpty] at hPieces
    have hLastPiece := congrArg List.getLast? hPieces
    rw [List.getLast?_concat] at hLastPiece
    exact hName (Option.some.inj hLastPiece).symm

end ResourceTables.Path
