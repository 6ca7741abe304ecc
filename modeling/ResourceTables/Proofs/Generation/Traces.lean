import ResourceTables.Proofs.Generation.Prediction
import ResourceTables.Proofs.Tree.Directories

/-!
# Traces of turns that fail

A turn that fails puts no file, and all that was there stays. But it may have made directories: they
are made before the step that fails. So a turn that fails leaves the tree as it was exactly if it
had no directory to make. Along a way down it would not have failed after that, so that in a run
which stays in its output directory no turn that fails leaves a trace.

## Main definitions

* `Turn.LacksDirectory`: nothing is found where the directory of the output should be.
-/

namespace ResourceTables

variable {compiler : Compiler} {tree : Tree}

namespace Turn

variable {turn : Turn}

/-- The definition of a turn is compiled to a file, and nothing is found where the directory of this
file should be. -/
def LacksDirectory (compiler : Compiler) (turn : Turn) : Prop :=
  ∃ unit parent, turn.compiled compiler = .ok unit ∧ unit.output.parent? = some parent ∧
    parent.text ≠ "" ∧ turn.before.find parent = .error .notFound

end Turn

/-- Preparing the directory of a file leaves the tree as it was exactly if the directory is not
missing. -/
theorem prepareDirectory_eq_self_iff (hTree : tree.WellFormed) (output : Path) :
    (prepareDirectory tree output).1 = tree ↔ ¬∃ parent, output.parent? = some parent ∧
      parent.text ≠ "" ∧ tree.find parent = .error .notFound := by
  constructor
  · rintro hSame ⟨parent, hParent, hText, hFind⟩
    have hMissing := hTree.missing_of_parent? hParent hText hFind
    obtain ⟨location, hNone, hThere⟩ := hTree.exists_made hMissing
    rw [prepareDirectory_of_parent? hParent] at hSame
    rw [hSame] at hThere
    exact hThere hNone
  · intro hPresent
    cases hParent : output.parent? with
    | none => rw [prepareDirectory, hParent]
    | some parent =>
      rw [prepareDirectory_of_parent? hParent]
      refine Tree.makeDirectories_eq_self (or_iff_not_imp_left.mpr fun hText hFind => ?_)
      exact hPresent ⟨parent, hParent, hText, hFind⟩

namespace Turn

variable {turn : Turn}

/-- A turn that fails has made no more of the tree than the directory of its output, if it came that
far. -/
theorem after_of_failed {failure : Failure} (h : turn.outcome compiler = .failed failure) :
    (∃ fault, turn.compiled compiler = .error fault) ∧ turn.after compiler = turn.before ∨
      ∃ unit, turn.compiled compiler = .ok unit ∧
        turn.after compiler = (prepareDirectory turn.before unit.output).1 := by
  have hCourse := turn.course compiler
  rw [h] at hCourse
  generalize turn.after compiler = after at hCourse
  cases hCourse with
  | refused hCompiled => exact .inl ⟨⟨_, hCompiled⟩, rfl⟩
  | unprepared hCompiled _ hPrepared => exact .inr ⟨_, hCompiled, by rw [hPrepared]⟩
  | unwritten hCompiled _ hPrepared _ => exact .inr ⟨_, hCompiled, by rw [hPrepared]⟩

theorem after_eq_before_iff (hTree : turn.before.WellFormed) {failure : Failure}
    (h : turn.outcome compiler = .failed failure) :
    turn.after compiler = turn.before ↔ ¬turn.LacksDirectory compiler := by
  rcases after_of_failed h with ⟨⟨fault, hCompiled⟩, hAfter⟩ | ⟨unit, hCompiled, hAfter⟩
  · refine iff_of_true hAfter ?_
    rintro ⟨unit, parent, hUnit, -⟩
    cases hCompiled.symm.trans hUnit
  · rw [hAfter, prepareDirectory_eq_self_iff hTree]
    refine not_congr ⟨fun ⟨parent, hParent⟩ => ⟨unit, parent, hCompiled, hParent⟩, ?_⟩
    rintro ⟨other, parent, hOther, hParent⟩
    cases hCompiled.symm.trans hOther
    exact ⟨parent, hParent⟩

/-- A turn whose file is on a way down cannot fail once it has made a directory. -/
theorem not_lacksDirectory_of_failed (hTree : turn.before.WellFormed) {failure : Failure}
    (hFailed : turn.outcome compiler = .failed failure) {unit : RenderedUnit}
    (hCompiled : turn.compiled compiler = .ok unit) {root : Location}
    (hDescends : turn.before.DescendsFrom root unit.output) {name : String}
    (hLast : unit.output.pieces.getLast? = some name) (hName : Tree.IsName name)
    (hNul : '\x00' ∉ name.toList) : ¬turn.LacksDirectory compiler := by
  rintro ⟨other, parent, hOther, hParent, hText, hFind⟩
  cases hCompiled.symm.trans hOther
  have hIdle : ¬Path.Idle name := not_or.mpr ⟨hName.nonempty, hName.notDot⟩
  have hEnds := Path.endsIn_of_parent? hParent hLast hIdle
  have hMissing := hTree.missing_of_parent? hParent hText hFind
  have hPath : Tree.checkPath unit.output = .ok () :=
    Tree.checkPath_of_endsIn hEnds (Tree.checkPath_eq_ok_iff.mp hMissing.checkPath).1 hNul
  obtain ⟨made, written, hMade, hWritten⟩ := hTree.exists_write hMissing hParent hEnds
    hName.notStepBack hPath hDescends (.text unit.content)
  have hPrepared : prepareDirectory turn.before unit.output = (made, .ok ()) := by
    rw [prepareDirectory_of_parent? hParent, hMade]
  have hCourse := turn.course compiler
  rw [hFailed] at hCourse
  generalize turn.after compiler = after at hCourse
  cases hCourse with
  | refused hRefused => cases hRefused.symm.trans hCompiled
  | unprepared hUnit _ hFault =>
    cases hUnit.symm.trans hCompiled
    cases hFault.symm.trans hPrepared
  | unwritten hUnit _ hDone hFault =>
    cases hUnit.symm.trans hCompiled
    cases hDone.symm.trans hPrepared
    cases hFault.symm.trans hWritten

end Turn

/-- A turn of a run that fails puts no file, and all that was there stays as it is. What is new is
directories above the output, and the tree is left as it was exactly if the directory of the output
was not missing. -/
theorem after_of_failed_turn {units : List (Path × Mode)} (hTree : tree.WellFormed) {turn : Turn}
    (hTurn : turn ∈ compiler.turns tree units) {failure : Failure}
    (hFailed : turn.outcome compiler = .failed failure) :
    (∀ location, turn.before.entry? location ≠ none →
        Tree.entry? (turn.after compiler) location = turn.before.entry? location) ∧
      (∀ location, turn.before.entry? location = none →
        Tree.entry? (turn.after compiler) location ≠ none →
          Tree.entry? (turn.after compiler) location = some .directory ∧
            turn.Above compiler location) ∧
      (turn.after compiler = turn.before ↔ ¬turn.LacksDirectory compiler) := by
  have hBefore : turn.before.WellFormed := by
    obtain ⟨earlier, later, hTurns⟩ := List.append_of_mem hTurn
    obtain ⟨front, rest, -, -, hBefore, -⟩ := exists_of_turns_eq hTurns
    rw [hBefore]
    exact (grows_generateUnits compiler tree front).wellFormed hTree
  have hNothing : ∀ location, ¬turn.Writes compiler location := by
    rintro location ⟨output, hWritten, -⟩
    rw [hFailed] at hWritten
    cases hWritten
  refine ⟨fun location hThere => ?_, fun location hNone hThere => ?_,
    Turn.after_eq_before_iff hBefore hFailed⟩
  · rcases (turn.grows compiler).entry?_eq_or (hNothing location) with hSame | ⟨hNone, -⟩
    · exact hSame
    · exact absurd hNone hThere
  · rcases (turn.grows compiler).entry?_eq_or (hNothing location) with hSame | ⟨-, hMade⟩
    · rw [hSame] at hThere
      exact absurd hNone hThere
    · exact hMade

/-! ## Runs that stay in their output directory -/

namespace Compiler.Confined

variable {units : List (Path × Mode)}

/-- A definition is compiled to a file whose name a directory can hold. -/
theorem exists_name_output (h : compiler.Confined tree units) {definition : Path} {mode : Mode}
    {own : RenderedUnit} (hUnit : (definition, mode) ∈ units)
    (hCompiled : compiler.compileUnit tree definition mode = .ok own) :
    ∃ name, own.output.pieces.getLast? = some name ∧ Tree.IsName name ∧ '\x00' ∉ name.toList := by
  obtain ⟨generated, hDescribed, hOwn⟩ := Checked.bind_eq_ok.mp hCompiled
  obtain ⟨loaded, -, hDescribe⟩ := Checked.bind_eq_ok.mp hDescribed
  cases hOwn
  have hName := isName_fileName hDescribe
  have hPath := descending_relativePath hDescribe (h.directories _ hUnit generated hDescribed)
  have hAlone := Path.descending_of_notMem hName.noSlash hName.notStepBack
  refine ⟨_, ?_, hName, notMem_fileName hDescribe (by decide) (by decide)⟩
  rw [renderUnit, h.writer, Path.pieces_join hPath.relative,
    List.getLast?_append_of_ne_nil _ (Path.pieces_ne_nil _), Writer.relativePath, List.foldl_append,
    List.foldl_cons, List.foldl_nil, Path.pieces_join hAlone.relative,
    List.getLast?_append_of_ne_nil _ (Path.pieces_ne_nil _), Path.pieces_of_notMem hName.noSlash]
  rfl

/-- A turn that fails leaves the tree as it was in a run that stays in its output directory. -/
theorem after_eq_before (h : compiler.Confined tree units) {turn : Turn}
    (hTurn : turn ∈ compiler.turns tree units) {failure : Failure}
    (hFailed : turn.outcome compiler = .failed failure) :
    turn.after compiler = turn.before := by
  rcases Turn.after_of_failed hFailed with ⟨-, hSame⟩ | ⟨own, hCompiled, -⟩
  · exact hSame
  · have hGrown := h.grows_before (fun _ hUnit => hUnit) .refl turn hTurn
    have hBefore := hGrown.wellFormed h.wellFormed
    have hOwn := (h.compiled_eq hTurn).symm.trans hCompiled
    obtain ⟨⟨root, hRoot⟩, -⟩ := h.exists_descendsFrom_output (mem_units hTurn) hOwn
    obtain ⟨name, hLast, hName, hNul⟩ := h.exists_name_output (mem_units hTurn) hOwn
    exact (Turn.after_eq_before_iff hBefore hFailed).mpr
      (Turn.not_lacksDirectory_of_failed hBefore hFailed hCompiled (hRoot.of_grows hGrown) hLast
        hName hNul)

end Compiler.Confined

/-! ## A file in the way -/

/-- A definition, and a file beside it. -/
def notesTree : Tree where
  entries :=
    [(["notes"], .file (.text "x")),
     (["texts.json"], .file (.text (inlineText "Texts" "v")))]

/-- A compiler with a given output directory. -/
def compilerTo (output : Path) : Compiler where
  configuration := ⟨output, "app", ⟨""⟩⟩
  naming := {}

/-- The turn over the definition. -/
def notesTurn : Turn where
  before := notesTree
  definition := ⟨"texts.json"⟩
  mode := .values

/-- Where the output directory is the file, the turn fails and leaves the tree as it was. -/
theorem after_of_failed_notes :
    (∃ failure, notesTurn.outcome (compilerTo ⟨"notes"⟩) = .failed failure) ∧
      notesTurn.after (compilerTo ⟨"notes"⟩) = notesTurn.before := by
  have hFailed : notesTurn.outcome (compilerTo ⟨"notes"⟩) =
      .failed ⟨⟨"texts.json"⟩, .values, .tree ⟨"notes"⟩ .alreadyThere⟩ := by
    decide +kernel
  have hPresent : ¬notesTurn.LacksDirectory (compilerTo ⟨"notes"⟩) := by
    rintro ⟨unit, parent, hCompiled, hParent, -, hFind⟩
    have hOutput : (notesTurn.compiled (compilerTo ⟨"notes"⟩)).toOption.map (·.output) =
        some ⟨"notes/texts.rs"⟩ := by
      decide +kernel
    have hFound : (notesTurn.before.find ⟨"notes"⟩).isOk = true := by decide
    have hDirectory : (⟨"notes/texts.rs"⟩ : Path).parent? = some ⟨"notes"⟩ := by decide
    rw [hCompiled] at hOutput
    rw [show unit.output = ⟨"notes/texts.rs"⟩ from Option.some.inj hOutput, hDirectory] at hParent
    rw [Option.some.inj hParent, hFind] at hFound
    cases hFound
  have hTurn : notesTurn ∈ (compilerTo ⟨"notes"⟩).turns notesTree [(⟨"texts.json"⟩, .values)] :=
    List.mem_singleton.mpr rfl
  exact ⟨⟨_, hFailed⟩,
    (after_of_failed_turn (by decide) hTurn hFailed).2.2.mpr hPresent⟩

/-- Where the path of the output directory goes through a directory that is missing and back to the
file, the turn fails, and the missing directory stays. -/
theorem after_of_failed_notes_ne :
    (∃ failure, notesTurn.outcome (compilerTo ⟨"new/../notes"⟩) = .failed failure) ∧
      notesTurn.before.entry? ["new"] = none ∧
      Tree.entry? (notesTurn.after (compilerTo ⟨"new/../notes"⟩)) ["new"] = some .directory ∧
      notesTurn.after (compilerTo ⟨"new/../notes"⟩) ≠ notesTurn.before := by
  have hFailed : notesTurn.outcome (compilerTo ⟨"new/../notes"⟩) =
      .failed ⟨⟨"texts.json"⟩, .values, .tree ⟨"new/../notes"⟩ .alreadyThere⟩ := by
    decide +kernel
  have hNone : notesTurn.before.entry? ["new"] = none := by decide
  have hMade : Tree.entry? (notesTurn.after (compilerTo ⟨"new/../notes"⟩)) ["new"] =
      some .directory := by
    decide +kernel
  refine ⟨⟨_, hFailed⟩, hNone, hMade, fun hSame => ?_⟩
  rw [hSame, hNone] at hMade
  cases hMade

end ResourceTables
