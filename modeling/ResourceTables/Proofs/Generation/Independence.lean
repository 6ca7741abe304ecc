import Mathlib.Data.List.Perm.Subperm
import ResourceTables.Proofs.Generation.Frame
import ResourceTables.Proofs.Generation.Traces
import ResourceTables.Proofs.Tree.Refusals

/-!
# Independence of the order of a run

In a run that stays in its output directory, and where no output is a file that another needs as a
directory, no turn notices the turns before it: its outcome is that of a run over its definition
alone, and so is what it changes. Two turns that change the same place both make a directory there.
So the tree at the end holds what any of the definitions would have left alone, in whatever order
they come, and definitions that fail can be left out.

## Main definitions

* `Compiler.Independent`: a confined run whose outputs do not lie below each other.
* `Compiler.Merged`: a tree with the changes of runs over single definitions.
* `Compiler.Agree`: two runs with the same outcomes that leave the same tree.
-/

namespace ResourceTables

variable {compiler : Compiler} {tree : Tree}

/-! ## Writing on a way down -/

section Writing

variable {root : Location} {unit : RenderedUnit} {name : String} {after : Tree}
  {files directories : Location → Prop}

/-- A path whose directory can be opened can be walked if its last piece has no NUL. -/
theorem checkPath_of_opens {path parent : Path} {last : String} (h : path.EndsIn parent last)
    (hNul : '\x00' ∉ last.toList) (hOpens : tree.Opens parent) : Tree.checkPath path = .ok () := by
  have hParent : '\x00' ∉ parent.text.toList := by
    by_cases hText : parent.text = ""
    · simp [hText]
    · rcases hOpens.resolve_left hText with hFind | hDirectory
      · exact ((Tree.find_eq_notFound_iff hText).mp hFind).1
      · obtain ⟨hCheck, -⟩ := Tree.find_eq_ok_iff.mp (Tree.isDirectory_eq_true_iff.mp hDirectory)
        exact (Tree.checkPath_eq_ok_iff.mp hCheck).1
  exact Tree.checkPath_of_endsIn h hParent hNul

/-- Writing a file on a way down has the same result in a tree that has grown, if no file is put at
its place or above it, and no directory is made at its place. -/
theorem writeUnit_congr (hTree : tree.WellFormed) (hPath : tree.DescendsFrom root unit.output)
    (hLast : unit.output.pieces.getLast? = some name) (hName : Tree.IsName name)
    (hNul : '\x00' ∉ name.toList) (hGrown : tree.Grows files directories after)
    (hFiles : ∀ place, place <+: tree.locate unit.output → ¬files place)
    (hMade : tree.entry? (tree.locate unit.output) = none →
      ¬directories (tree.locate unit.output)) :
    (writeUnit after unit).2 = (writeUnit tree unit).2 := by
  have hIdle : ¬Path.Idle name := not_or.mpr ⟨hName.nonempty, hName.notDot⟩
  have hText : after.readText unit.output = tree.readText unit.output :=
    Tree.readText_congr (hPath.find_congr hTree hGrown hFiles hMade)
  unfold writeUnit
  rw [hText]
  split
  · rfl
  · cases hParent : unit.output.parent? with
    | none =>
      exact absurd (Path.idle_of_parent?_eq_none hParent name (List.mem_of_getLast? hLast)) hIdle
    | some parent =>
      have hEnds := Path.endsIn_of_parent? hParent hLast hIdle
      have hPlace : tree.locate unit.output = tree.locate parent ++ [name] := by
        rw [Tree.locate_of_endsIn hEnds, Tree.step_of_isName hName]
      have hAbove : ∀ place, place <+: tree.locate parent → ¬files place := fun place hPlace' =>
        hFiles place (hPlace'.trans (hPlace ▸ List.prefix_append _ _))
      rw [prepareDirectory_of_parent? hParent, prepareDirectory_of_parent? hParent]
      -- If the directory can be opened, it is there in both trees once it is made, and only what
      -- stands at the place of the file decides; if not, it is refused in both alike.
      by_cases hOpens : tree.Opens parent
      · have hCheck := checkPath_of_opens hEnds hNul hOpens
        have hOpensAfter := hPath.opens hTree hParent hGrown hAbove hOpens
        obtain ⟨made, hMake, hAnchors, hSlot⟩ := hPath.exists_opened hTree hParent hOpens
        obtain ⟨madeAfter, hMakeAfter, hAnchorsAfter, hSlotAfter⟩ :=
          (hPath.of_grows hGrown).exists_opened (hGrown.wellFormed hTree) hParent hOpensAfter
        rw [hMake, hMakeAfter]
        dsimp only
        rw [hAnchors.write_eq_ite hEnds hCheck hName.notStepBack,
          hAnchorsAfter.write_eq_ite hEnds hCheck hName.notStepBack, hSlot, hSlotAfter,
          hGrown.locate, ← hPlace]
        rw [hGrown.entry?_eq (hFiles _ (List.prefix_refl _)) hMade]
        by_cases hDirectory : tree.entry? (tree.locate unit.output) = some .directory
        · rw [if_pos hDirectory, if_pos hDirectory]
        · rw [if_neg hDirectory, if_neg hDirectory]
      · obtain ⟨fault, hBefore, hAfter⟩ := hGrown.makeDirectories_of_not_opens hOpens
        rw [hBefore, hAfter]

end Writing

/-! ## Turns that are written -/

/-- What a turn that is written on a way down makes of the tree: its file is put, all above it are
directories, and all else is as it was. -/
theorem Turn.entry?_of_written {turn : Turn} {own : RenderedUnit} {root : Location}
    (hTree : turn.before.WellFormed) (hCompiled : turn.compiled compiler = .ok own)
    (hWritten : turn.outcome compiler = .written own.output)
    (hPath : turn.before.DescendsFrom root own.output) (location : Location) :
    Tree.entry? (turn.after compiler) location =
      if location = turn.before.locate own.output then some (.file (.text own.content))
      else if location <+: turn.before.locate own.output then some .directory
      else turn.before.entry? location := by
  have hGrown := turn.grows compiler
  have hFile : Tree.entry? (turn.after compiler) (turn.before.locate own.output) =
      some (.file (.text own.content)) := by
    obtain ⟨unit, hUnit, -, hText⟩ := Turn.exists_of_reported (.inl hWritten)
    cases hUnit.symm.trans hCompiled
    rw [← hGrown.locate]
    exact (Tree.find_eq_ok_iff.mp (Tree.readText_eq_ok_iff.mp hText)).2.2
  split
  · next hHere => rw [hHere, hFile]
  · next hHere =>
    split
    · next hAbove =>
      have hAfter := hGrown.wellFormed hTree
      exact hAfter.directory_of_prefix (by rw [hFile]; simp) hAbove hHere
    · next hAbove =>
      have hElse : ¬turn.Writes compiler location := by
        rintro ⟨output, hOutput, hLocation⟩
        cases hWritten.symm.trans hOutput
        exact hHere hLocation
      -- What is new but for the file is made above it.
      rcases hGrown.entry?_eq_or hElse with hSame | ⟨hNone, -, unit, hUnit, hMade⟩
      · exact hSame
      · cases hUnit.symm.trans hCompiled
        exact absurd (hPath.prefix_of_isAbove hTree hMade hNone) hAbove

/-! ## Independent definitions -/

/-- Definitions whose run stays in its output directory, and whose outputs are neither the same file
nor a file that stands where another needs a directory. -/
structure Compiler.Independent (compiler : Compiler) (tree : Tree) (units : List (Path × Mode)) :
    Prop where
  confined : compiler.Confined tree units
  unnested : units.Pairwise fun first second =>
    ∀ own, compiler.compileUnit tree first.1 first.2 = .ok own →
      ∀ other, compiler.compileUnit tree second.1 second.2 = .ok other →
        ¬tree.locate own.output <+: tree.locate other.output ∧
          ¬tree.locate other.output <+: tree.locate own.output

namespace Compiler.Independent

variable {units : List (Path × Mode)}

/-- Definitions that are chosen among independent ones, in any order, are independent. -/
theorem of_subperm (h : compiler.Independent tree units) {chosen : List (Path × Mode)}
    (hChosen : chosen.Subperm units) : compiler.Independent tree chosen := by
  have hSubset := hChosen.subset
  obtain ⟨sorted, hSorted, hSublist⟩ := hChosen
  constructor
  · exact
      { writer := h.confined.writer
        wellFormed := h.confined.wellFormed
        base := h.confined.base
        outputRoot := h.confined.outputRoot
        names := fun unit hUnit => h.confined.names unit (hSubset hUnit)
        directories := fun unit hUnit => h.confined.directories unit (hSubset hUnit)
        inputs := fun unit hUnit => h.confined.inputs unit (hSubset hUnit)
        outputs := by
          refine (hSorted.pairwise_iff ?_).mp (h.confined.outputs.sublist hSublist)
          exact fun hApart own hOwn other hOther => Ne.symm (hApart other hOther own hOwn) }
  · refine (hSorted.pairwise_iff ?_).mp (h.unnested.sublist hSublist)
    exact fun hApart own hOwn other hOther => And.symm (hApart other hOther own hOwn)

/-- The tree that a turn finds has grown away from the way to its output. -/
theorem exists_grows_before (h : compiler.Independent tree units) {turn : Turn}
    (hTurn : turn ∈ compiler.turns tree units) {own : RenderedUnit}
    (hOwn : compiler.compileUnit tree turn.definition turn.mode = .ok own) :
    ∃ files directories, tree.Grows files directories turn.before ∧
      (∀ place, place <+: tree.locate own.output → ¬files place) ∧
      (directories (tree.locate own.output) → tree.entry? (tree.locate own.output) ≠ none) := by
  obtain ⟨earlier, later, hTurns⟩ := List.append_of_mem hTurn
  obtain ⟨front, rest, hUnits, hEarlier, hBefore, -⟩ := exists_of_turns_eq hTurns
  have hGrown := grows_generateUnits compiler tree front
  rw [← hBefore, ← hEarlier] at hGrown
  -- The output of an earlier turn lies neither above nor below that of this turn.
  have hApart : ∀ other ∈ earlier, ∀ unit, other.compiled compiler = .ok unit →
      compiler.compileUnit tree other.definition other.mode = .ok unit ∧
        ¬tree.locate unit.output <+: tree.locate own.output ∧
        ¬tree.locate own.output <+: tree.locate unit.output := by
    intro other hOther unit hUnit
    have hMem : other ∈ compiler.turns tree units := by
      rw [hTurns]
      exact List.mem_append_left _ hOther
    have hCompiled := (h.confined.compiled_eq hMem).symm.trans hUnit
    have hPairs := h.unnested
    rw [← map_turns compiler tree units, hTurns, List.pairwise_map, List.pairwise_append] at hPairs
    exact ⟨hCompiled, hPairs.2.2 other hOther turn List.mem_cons_self unit hCompiled own hOwn⟩
  have hMem : ∀ other ∈ earlier, other ∈ compiler.turns tree units := by
    intro other hOther
    rw [hTurns]
    exact List.mem_append_left _ hOther
  refine ⟨_, _, hGrown, ?_, ?_⟩
  · rintro place hPlace ⟨other, hOther, output, hWritten, rfl⟩
    obtain ⟨unit, hUnit, rfl, -⟩ := Turn.exists_of_reported (.inl hWritten)
    rw [locate_before (hMem other hOther)] at hPlace
    exact (hApart other hOther unit hUnit).2.1 hPlace
  · rintro ⟨other, hOther, unit, hUnit, hAbove⟩ hNone
    obtain ⟨hCompiled, -, hBelow⟩ := hApart other hOther unit hUnit
    obtain ⟨⟨root, hRoot⟩, -⟩ := h.confined.exists_descendsFrom_output
      (Compiler.Confined.mem_units (hMem other hOther)) hCompiled
    exact hBelow (hRoot.prefix_of_isAbove h.confined.wellFormed
      (isAbove_before (hMem other hOther) hAbove) hNone)

end Compiler.Independent

/-! ## Turns alone -/

/-- The turn over a definition on the tree that a run starts with. -/
def Turn.alone (tree : Tree) (unit : Path × Mode) : Turn where
  before := tree
  definition := unit.1
  mode := unit.2

theorem outcome_congr {turn other : Turn} (hDefinition : turn.definition = other.definition)
    (hMode : turn.mode = other.mode) (hCompiled : turn.compiled compiler = other.compiled compiler)
    (hWrite : ∀ unit, other.compiled compiler = .ok unit →
      (writeUnit turn.before unit).2 = (writeUnit other.before unit).2) :
    turn.outcome compiler = other.outcome compiler := by
  unfold Turn.compiled at hCompiled hWrite
  unfold Turn.outcome generateUnit
  rw [hCompiled, hDefinition, hMode]
  cases hUnit : compiler.compileUnit other.before other.definition other.mode with
  | error fault => rfl
  | ok unit =>
    have hSame := hWrite unit hUnit
    dsimp only
    generalize writeUnit turn.before unit = first, writeUnit other.before unit = second at hSame
    obtain ⟨changed, result⟩ := first
    obtain ⟨same, again⟩ := second
    obtain rfl : result = again := hSame
    rcases result with fault | - | - <;> rfl

namespace Compiler.Independent

variable {units : List (Path × Mode)} {turn : Turn}

theorem alone_mem_turns (h : compiler.Independent tree units) {unit : Path × Mode}
    (hUnit : unit ∈ units) : compiler.Independent tree [unit] ∧
      Turn.alone tree unit ∈ compiler.turns tree [unit] :=
  ⟨h.of_subperm (List.singleton_subperm_iff.mpr hUnit), List.mem_singleton.mpr rfl⟩

/-- A turn has the outcome of a run over its definition alone. -/
theorem outcome_eq (h : compiler.Independent tree units) (hTurn : turn ∈ compiler.turns tree units) :
    turn.outcome compiler =
      (Turn.alone tree (turn.definition, turn.mode)).outcome compiler := by
  refine outcome_congr rfl rfl (h.confined.compiled_eq hTurn) fun own hOwn => ?_
  have hUnit := Compiler.Confined.mem_units hTurn
  obtain ⟨⟨root, hRoot⟩, -⟩ := h.confined.exists_descendsFrom_output hUnit hOwn
  obtain ⟨name, hLast, hName, hNul⟩ := h.confined.exists_name_output hUnit hOwn
  obtain ⟨files, directories, hGrown, hFiles, hMade⟩ := h.exists_grows_before hTurn hOwn
  exact writeUnit_congr h.confined.wellFormed hRoot hLast hName hNul hGrown hFiles
    fun hNone hPlace => hMade hPlace hNone

/-- A turn that is not written leaves the tree as it was. -/
theorem after_eq_before (h : compiler.Independent tree units)
    (hTurn : turn ∈ compiler.turns tree units)
    (hOutcome : ∀ output, turn.outcome compiler ≠ .written output) :
    turn.after compiler = turn.before := by
  cases hKind : turn.outcome compiler with
  | written output => exact absurd hKind (hOutcome output)
  | failed failure => exact h.confined.after_eq_before hTurn hKind
  | unchanged output =>
    have hCourse := turn.course compiler
    rw [hKind] at hCourse
    generalize turn.after compiler = after at hCourse
    cases hCourse
    rfl

/-- What a turn that is written makes of the tree. -/
theorem exists_entry?_of_written (h : compiler.Independent tree units)
    (hTurn : turn ∈ compiler.turns tree units) {output : Path}
    (hWritten : turn.outcome compiler = .written output) :
    ∃ own, compiler.compileUnit tree turn.definition turn.mode = .ok own ∧ ∀ location,
      Tree.entry? (turn.after compiler) location =
        if location = tree.locate own.output then some (.file (.text own.content))
        else if location <+: tree.locate own.output then some .directory
        else turn.before.entry? location := by
  obtain ⟨own, hCompiled, rfl, -⟩ := Turn.exists_of_reported (.inl hWritten)
  have hOwn := (h.confined.compiled_eq hTurn).symm.trans hCompiled
  obtain ⟨⟨root, hRoot⟩, -⟩ :=
    h.confined.exists_descendsFrom_output (Compiler.Confined.mem_units hTurn) hOwn
  have hGrown := h.confined.grows_before (fun _ hUnit => hUnit) .refl turn hTurn
  refine ⟨own, hOwn, fun location => ?_⟩
  rw [← locate_before hTurn]
  exact Turn.entry?_of_written (hGrown.wellFormed h.confined.wellFormed) hCompiled hWritten
    (hRoot.of_grows hGrown) location

/-- A turn changes what a run over its definition alone changes, to the same, and nothing else. -/
theorem entry?_after (h : compiler.Independent tree units)
    (hTurn : turn ∈ compiler.turns tree units) (location : Location) :
    let alone := (Turn.alone tree (turn.definition, turn.mode)).after compiler
    let kept := alone.entry? location = tree.entry? location
    (kept → Tree.entry? (turn.after compiler) location = turn.before.entry? location) ∧
      (¬kept → Tree.entry? (turn.after compiler) location = alone.entry? location) := by
  obtain ⟨hAlone, hMem⟩ := h.alone_mem_turns (Compiler.Confined.mem_units hTurn)
  have hOutcome := h.outcome_eq hTurn
  by_cases hWritten : ∃ output, turn.outcome compiler = .written output
  · obtain ⟨output, hWritten⟩ := hWritten
    obtain ⟨own, hOwn, hAfter⟩ := h.exists_entry?_of_written hTurn hWritten
    obtain ⟨again, hAgain, hAfterAlone⟩ :=
      hAlone.exists_entry?_of_written hMem (hOutcome.symm.trans hWritten)
    cases hOwn.symm.trans hAgain
    -- The turns before have put no file at the output or above it, and made no directory at it.
    obtain ⟨files, directories, hGrown, hFiles, hMade⟩ := h.exists_grows_before hTurn hOwn
    dsimp only
    rw [hAfter, hAfterAlone]
    split
    · next hHere =>
      rw [hHere, hGrown.entry?_eq (hFiles _ (List.prefix_refl _))
        fun hNone hPlace => hMade hPlace hNone]
      exact ⟨id, fun _ => rfl⟩
    · split
      · exact ⟨fun hSame => (hGrown.entry?_of_directory hSame.symm).symm, fun _ => rfl⟩
      · exact ⟨fun _ => rfl, fun hDiffers => absurd rfl hDiffers⟩
  · have hNot : ∀ output, turn.outcome compiler ≠ .written output :=
      fun output hOutput => hWritten ⟨output, hOutput⟩
    rw [h.after_eq_before hTurn hNot,
      hAlone.after_eq_before hMem fun output => hOutcome ▸ hNot output]
    exact ⟨fun _ => rfl, fun hDiffers => absurd rfl hDiffers⟩

end Compiler.Independent

/-! ## Runs that merge -/

/-- A tree with the changes of runs over single definitions on the same tree: it is as it was where
none of them changes it, and as any of them leaves it where that changes it. -/
structure Compiler.Merged (compiler : Compiler) (tree : Tree) (units : List (Path × Mode))
    (after : Tree) : Prop where
  home : after.home = tree.home
  same : ∀ location,
    (∀ unit ∈ units, Tree.entry? ((Turn.alone tree unit).after compiler) location =
      tree.entry? location) → after.entry? location = tree.entry? location
  changed : ∀ unit ∈ units, ∀ location,
    Tree.entry? ((Turn.alone tree unit).after compiler) location ≠ tree.entry? location →
      after.entry? location = Tree.entry? ((Turn.alone tree unit).after compiler) location

/-- Trees that merge the same changes hold the same. -/
theorem Compiler.Merged.entry?_eq {units others : List (Path × Mode)} {after other : Tree}
    (h : compiler.Merged tree units after) (hOther : compiler.Merged tree others other)
    (hSubset : ∀ unit ∈ others, unit ∈ units)
    (hIdle : ∀ unit ∈ units, unit ∈ others ∨ (Turn.alone tree unit).after compiler = tree)
    (location : Location) : other.entry? location = after.entry? location := by
  by_cases hSame : ∀ unit ∈ units, Tree.entry? ((Turn.alone tree unit).after compiler) location =
      tree.entry? location
  · rw [h.same location hSame,
      hOther.same location fun unit hUnit => hSame unit (hSubset unit hUnit)]
  · push Not at hSame
    obtain ⟨unit, hUnit, hDiffers⟩ := hSame
    rcases hIdle unit hUnit with hMem | hNothing
    · rw [h.changed unit hUnit location hDiffers, hOther.changed unit hMem location hDiffers]
    · rw [hNothing] at hDiffers
      exact absurd rfl hDiffers

namespace Compiler.Independent

variable {units : List (Path × Mode)}

/-- What a run over a single definition changes is its output, or a directory above it. -/
theorem exists_of_changed (h : compiler.Independent tree units) {unit : Path × Mode}
    (hUnit : unit ∈ units) {location : Location}
    (hDiffers :
      Tree.entry? ((Turn.alone tree unit).after compiler) location ≠ tree.entry? location) :
    ∃ own, compiler.compileUnit tree unit.1 unit.2 = .ok own ∧
      location <+: tree.locate own.output ∧ (location ≠ tree.locate own.output →
        Tree.entry? ((Turn.alone tree unit).after compiler) location = some .directory) := by
  obtain ⟨hAlone, hMem⟩ := h.alone_mem_turns hUnit
  by_cases hWritten : ∃ output, (Turn.alone tree unit).outcome compiler = .written output
  · obtain ⟨output, hWritten⟩ := hWritten
    obtain ⟨own, hOwn, hAfter⟩ := hAlone.exists_entry?_of_written hMem hWritten
    have hPrefix : location <+: tree.locate own.output := by
      by_contra hApart
      have hElse : location ≠ tree.locate own.output := by
        rintro rfl
        exact hApart (List.prefix_refl _)
      rw [hAfter, if_neg hElse, if_neg hApart] at hDiffers
      exact hDiffers rfl
    refine ⟨own, hOwn, hPrefix, fun hElse => ?_⟩
    rw [hAfter, if_neg hElse, if_pos hPrefix]
  · rw [hAlone.after_eq_before hMem fun output hOutput => hWritten ⟨output, hOutput⟩] at hDiffers
    exact absurd rfl hDiffers

/-- What two definitions both change is a directory for both. -/
theorem entry?_of_both (h : compiler.Independent tree units) {first second : Path × Mode}
    (hUnits : [first, second].Subperm units) {location : Location}
    (hFirst : Tree.entry? ((Turn.alone tree first).after compiler) location ≠ tree.entry? location)
    (hSecond :
      Tree.entry? ((Turn.alone tree second).after compiler) location ≠ tree.entry? location) :
    Tree.entry? ((Turn.alone tree first).after compiler) location =
      Tree.entry? ((Turn.alone tree second).after compiler) location := by
  have hMem := hUnits.subset
  obtain ⟨own, hOwn, hAbove, hDirectory⟩ := h.exists_of_changed (hMem (by simp)) hFirst
  obtain ⟨other, hOther, hAboveOther, hDirectoryOther⟩ :=
    h.exists_of_changed (hMem (by simp)) hSecond
  obtain ⟨hNotBelow, hNotAbove⟩ := (List.pairwise_pair.mp (h.of_subperm hUnits).unnested) own hOwn
    other hOther
  rw [hDirectory fun hHere => hNotBelow (hHere ▸ hAboveOther),
    hDirectoryOther fun hHere => hNotAbove (hHere ▸ hAbove)]

/-- A run merges the changes of runs over its definitions alone. -/
theorem merged (h : compiler.Independent tree units) :
    compiler.Merged tree units (generateUnits compiler tree units).1 := by
  -- The induction goes backwards, so that each turn comes after a run that merges.
  induction units using List.reverseRecOn with
  | nil => exact ⟨rfl, fun _ _ => rfl, fun _ hUnit => absurd hUnit List.not_mem_nil⟩
  | append_singleton front unit ih =>
    have hFront := ih (h.of_subperm (List.sublist_append_left front [unit]).subperm)
    let turn : Turn := ⟨(generateUnits compiler tree front).1, unit.1, unit.2⟩
    have hTurn : turn ∈ compiler.turns tree (front ++ [unit]) := by
      rw [turns_append]
      exact List.mem_append_right _ (List.mem_singleton.mpr rfl)
    have hAfter : (generateUnits compiler tree (front ++ [unit])).1 = turn.after compiler := by
      rw [generateUnits_append]
      rfl
    have hStep := h.entry?_after hTurn
    rw [hAfter]
    refine ⟨?_, ?_, ?_⟩
    · rw [(turn.grows compiler).home]
      exact hFront.home
    · intro location hSame
      rw [List.forall_mem_append, List.forall_mem_singleton] at hSame
      rw [(hStep location).1 hSame.2]
      exact hFront.same location hSame.1
    · rw [List.forall_mem_append, List.forall_mem_singleton]
      refine ⟨fun earlier hEarlier location hDiffers => ?_, fun location => (hStep location).2⟩
      by_cases hOwn : Tree.entry? ((Turn.alone tree unit).after compiler) location =
          tree.entry? location
      · rw [(hStep location).1 hOwn]
        exact hFront.changed earlier hEarlier location hDiffers
      · rw [(hStep location).2 hOwn]
        have hBoth : [earlier, unit].Subperm (front ++ [unit]) :=
          ((List.singleton_sublist.mpr hEarlier).append (List.Sublist.refl [unit])).subperm
        exact (h.entry?_of_both hBoth hDiffers hOwn).symm

end Compiler.Independent

/-! ## Runs in another order -/

/-- Two runs on a tree that agree: what both compile has the same outcome in both, and both leave
the same tree. -/
structure Compiler.Agree (compiler : Compiler) (tree : Tree) (manifest other : Manifest) :
    Prop where
  outcomes : ∀ turn ∈ compiler.turns tree manifest.units,
    ∀ again ∈ compiler.turns tree other.units,
      again.definition = turn.definition → again.mode = turn.mode →
        again.outcome compiler = turn.outcome compiler
  home : (generate compiler tree other).1.home = (generate compiler tree manifest).1.home
  entries : ∀ location, Tree.entry? (generate compiler tree other).1 location =
    Tree.entry? (generate compiler tree manifest).1 location

/-- A run over some of the definitions of another run, in any order, agrees with it if the others
change nothing. -/
theorem Compiler.Independent.agree {manifest other : Manifest}
    (h : compiler.Independent tree manifest.units) (hUnits : other.units.Subperm manifest.units)
    (hIdle : ∀ unit ∈ manifest.units,
      unit ∈ other.units ∨ (Turn.alone tree unit).after compiler = tree) :
    compiler.Agree tree manifest other := by
  have hOther := h.of_subperm hUnits
  refine ⟨?_, ?_, ?_⟩
  · intro turn hTurn again hAgain hDefinition hMode
    rw [h.outcome_eq hTurn, hOther.outcome_eq hAgain, hDefinition, hMode]
  · rw [generate_eq, generate_eq, hOther.merged.home, h.merged.home]
  · intro location
    rw [generate_eq, generate_eq]
    exact h.merged.entry?_eq hOther.merged (fun _ hUnit => hUnits.subset hUnit) hIdle location

/-- The order of definitions does not matter if they are independent: a run over the same
definitions in another order, or without one that is not compiled, gives every definition the same
outcome and leaves the same tree. -/
theorem generate_independent_of_order {manifest : Manifest}
    (h : compiler.Independent tree manifest.units) :
    (∀ other : Manifest, other.constants.Perm manifest.constants →
        other.values.Perm manifest.values → compiler.Agree tree manifest other) ∧
      ∀ (other : Manifest) (unit : Path × Mode) (fault : Fault),
        compiler.compileUnit tree unit.1 unit.2 = .error fault →
          manifest.units.Perm (unit :: other.units) → compiler.Agree tree manifest other := by
  constructor
  · intro other hConstants hValues
    have hUnits : other.units.Perm manifest.units := (hConstants.map _).append (hValues.map _)
    exact h.agree hUnits.subperm fun unit hUnit => .inl (hUnits.mem_iff.mpr hUnit)
  · intro other unit fault hRefused hUnits
    have hIdle : (Turn.alone tree unit).after compiler = tree := by
      obtain ⟨hAlone, hMem⟩ := h.alone_mem_turns (hUnits.mem_iff.mpr List.mem_cons_self)
      have hCompiled : (Turn.alone tree unit).compiled compiler = .error fault := hRefused
      have hFailed := Turn.outcome_of_refused hCompiled
      exact hAlone.after_eq_before hMem fun output hOutput => by cases hFailed.symm.trans hOutput
    refine h.agree (List.Subperm.cons_self.trans hUnits.symm.subperm) fun other hOther => ?_
    rcases List.mem_cons.mp (hUnits.mem_iff.mp hOther) with rfl | hRest
    · exact .inr hIdle
    · exact .inl hRest

/-- The run over a definition of constants, one that is not there and one of tables. -/
def lackingManifest : Manifest :=
  { tablesManifest with values := [⟨"absent.json"⟩, ⟨"texts.json"⟩] }

/-- The definitions of tables may come in the other order, and the one that is not there may be left
out. -/
theorem generate_independent_of_order_lacking :
    appCompiler.Agree tablesTree lackingManifest
        { lackingManifest with values := [⟨"texts.json"⟩, ⟨"absent.json"⟩] } ∧
      appCompiler.Agree tablesTree lackingManifest tablesManifest := by
  have hIndependent : appCompiler.Independent tablesTree lackingManifest.units :=
    { confined :=
        { writer := rfl
          wellFormed := by decide +kernel
          base := .inr rfl
          outputRoot := by decide
          names := by decide +kernel
          directories := by decide +kernel
          inputs := by decide +kernel
          outputs := by decide +kernel }
      unnested := by decide +kernel }
  obtain ⟨hOrder, hRefused⟩ := generate_independent_of_order hIndependent
  refine ⟨hOrder _ (List.Perm.refl _) (List.Perm.swap _ _ _), ?_⟩
  refine hRefused tablesManifest (⟨"absent.json"⟩, .values) (.tree ⟨"absent.json"⟩ .notFound) ?_ ?_
  · decide +kernel
  · exact List.Perm.swap _ _ _

end ResourceTables
