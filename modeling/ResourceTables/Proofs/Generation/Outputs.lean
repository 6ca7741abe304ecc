import ResourceTables.Proofs.GeneratedModule.Code
import ResourceTables.Proofs.Generation.Turns

/-!
# Outputs of a run

A turn that is reported has made sure that its file is there, and the turns after it only put files
where they write. So at the end of a run the file of the last turn that is written at a location
holds what it should. Nothing keeps two definitions of one class apart: they have one file, and the
turn that comes later replaces what the earlier one has put there.

## Main definitions

* `sharingTree`, `sharingManifest`: a run in which two definitions have one file.
-/

namespace ResourceTables

variable {compiler : Compiler} {tree : Tree}

/-- At the end of a run the file of a turn that is reported holds the content that it was compiled
to, unless a later turn has written at the same location. -/
theorem readText_generate_of_last {manifest : Manifest} {earlier later : List Turn} {turn : Turn}
    {output : Path} (hTurns : compiler.turns tree manifest.units = earlier ++ turn :: later)
    (hReported : turn.outcome compiler = .written output ∨
      turn.outcome compiler = .unchanged output)
    (hLast : ∀ other ∈ later, ¬other.Writes compiler (tree.locate output)) :
    ∃ unit, turn.compiled compiler = .ok unit ∧ unit.output = output ∧
      (generate compiler tree manifest).1.readText output = .ok unit.content := by
  obtain ⟨unit, hCompiled, hOutput, hText⟩ := Turn.exists_of_reported hReported
  obtain ⟨front, rest, -, -, hBefore, rfl, hFinal⟩ := exists_of_turns_eq hTurns
  have hLocate : (turn.after compiler).locate output = tree.locate output := by
    rw [(turn.grows compiler).locate, hBefore, (grows_generateUnits compiler tree front).locate]
  have hRest : ¬∃ other ∈ compiler.turns (turn.after compiler) rest,
      other.Writes compiler ((turn.after compiler).locate output) := by
    rw [hLocate]
    rintro ⟨other, hOther, hWrites⟩
    exact hLast other hOther hWrites
  refine ⟨unit, hCompiled, hOutput, ?_⟩
  rw [generate_eq, hFinal]
  exact (grows_generateUnits compiler (turn.after compiler) rest).readText hText hRest

/-! ## Two definitions of one class -/

/-- A definition of a class with one key and one version. -/
def inlineText (className value : String) : String :=
  "\x7b\"class\":\"" ++ className ++ "\",\"type\":\"in-place\",\"defaultVersion\":\"en\"," ++
    "\"versions\":\x7b\"en\":\x7b\"k\":\"" ++ value ++ "\"\x7d\x7d\x7d"

/-- Two definitions of one class, which are compiled to the same file, and one of another class. -/
def sharingTree : Tree where
  entries :=
    [(["a.json"], .file (.text (inlineText "Texts" "v"))),
     (["b.json"], .file (.text (inlineText "Texts" "w"))),
     (["c.json"], .file (.text (inlineText "Labels" "v")))]

/-- The run over the three definitions. -/
def sharingManifest : Manifest where
  path := ⟨"resgen.toml"⟩
  configuration := appCompiler.configuration
  naming := appCompiler.naming
  constants := []
  values := [⟨"a.json"⟩, ⟨"b.json"⟩, ⟨"c.json"⟩]

/-- The three turns of the run write, the first two of them the same file. -/
theorem exists_turns_sharing : ∃ first second third,
    appCompiler.turns sharingTree sharingManifest.units = [first, second, third] ∧
      first.outcome appCompiler = .written ⟨"gen/texts.rs"⟩ ∧
      second.outcome appCompiler = .written ⟨"gen/texts.rs"⟩ ∧
      third.outcome appCompiler = .written ⟨"gen/labels.rs"⟩ := by
  have hOutcomes : (appCompiler.turns sharingTree sharingManifest.units).map
      (·.outcome appCompiler) =
      [.written ⟨"gen/texts.rs"⟩, .written ⟨"gen/texts.rs"⟩, .written ⟨"gen/labels.rs"⟩] := by
    decide +kernel
  obtain ⟨first, turns, hTurns, hFirst, hRest⟩ := List.map_eq_cons_iff.mp hOutcomes
  obtain ⟨second, turns, rfl, hSecond, hRest⟩ := List.map_eq_cons_iff.mp hRest
  obtain ⟨third, turns, rfl, hThird, hRest⟩ := List.map_eq_cons_iff.mp hRest
  obtain rfl := List.map_eq_nil_iff.mp hRest
  exact ⟨first, second, third, hTurns, hFirst, hSecond, hThird⟩

/-- The file of the second definition is not replaced by that of the third. -/
theorem readText_generate_sharing : ∃ first second third unit,
    appCompiler.turns sharingTree sharingManifest.units = [first, second, third] ∧
      second.compiled appCompiler = .ok unit ∧ unit.output = ⟨"gen/texts.rs"⟩ ∧
      (generate appCompiler sharingTree sharingManifest).1.readText ⟨"gen/texts.rs"⟩ =
        .ok unit.content := by
  obtain ⟨first, second, third, hTurns, -, hSecond, hThird⟩ := exists_turns_sharing
  have hOther : ∀ other ∈ [third],
      ¬other.Writes appCompiler (sharingTree.locate ⟨"gen/texts.rs"⟩) := by
    rw [List.forall_mem_singleton]
    rintro ⟨output, hOutput, hLocation⟩
    cases hThird.symm.trans hOutput
    have hMem : third ∈ appCompiler.turns sharingTree sharingManifest.units := by
      rw [hTurns]
      simp
    rw [locate_before hMem] at hLocation
    exact absurd hLocation (by decide)
  have hParted : appCompiler.turns sharingTree sharingManifest.units =
      [first] ++ second :: [third] := hTurns
  obtain ⟨unit, hCompiled, hOutput, hText⟩ :=
    readText_generate_of_last hParted (.inl hSecond) hOther
  exact ⟨first, second, third, unit, hTurns, hCompiled, hOutput, hText⟩

/-- The first definition is reported as written to a file that the second one replaces in the same
run. -/
theorem readText_generate_ne_sharing : ∃ first later unit,
    appCompiler.turns sharingTree sharingManifest.units = first :: later ∧
      first.compiled appCompiler = .ok unit ∧
      first.outcome appCompiler = .written unit.output ∧
      (generate appCompiler sharingTree sharingManifest).1.readText unit.output ≠
        .ok unit.content := by
  obtain ⟨first, second, third, hTurns, hFirst, -, -⟩ := exists_turns_sharing
  obtain ⟨unit, hCompiled, hOutput, -⟩ := Turn.exists_of_reported (.inl hFirst)
  refine ⟨first, [second, third], unit, hTurns, hCompiled, hOutput ▸ hFirst, fun hText => ?_⟩
  have hDiffer : (appCompiler.compileUnit sharingTree ⟨"a.json"⟩ .values).toOption.map (·.content) ≠
      ((generate appCompiler sharingTree sharingManifest).1.readText
        ⟨"gen/texts.rs"⟩).toOption := by
    decide +kernel
  obtain rfl : ⟨sharingTree, ⟨"a.json"⟩, .values⟩ = first := (List.cons.inj hTurns).1
  rw [hOutput] at hText
  rw [Turn.compiled] at hCompiled
  rw [hCompiled, hText] at hDiffer
  exact hDiffer rfl

end ResourceTables
