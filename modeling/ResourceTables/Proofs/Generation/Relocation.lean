import ResourceTables.Proofs.Definition.Relocation
import ResourceTables.Proofs.GeneratedModule.SourceFile
import ResourceTables.Proofs.Generation.Convergence
import ResourceTables.Proofs.Generation.Frame

/-!
# Runs from another base directory

The base directory of a run can be moved, with all that is read below it, and the output directory
can be moved apart from it. A definition is then compiled to the same text, at the same path below
the output directory, or is refused with a fault that tells the same. What else there is in either
tree does not matter: other definitions of the run, and what stands in the output directory.

One definition does not move along. If it lies right in the base directory and names the directory
of its tables by the empty path, then it is refused where the base directory is written as the empty
path, and compiled where the same directory is written as a dot.

## Main definitions

* `RenderedUnit.Matches`: two generated files with one text at one path below the output directory.
* `Compiler.Moves`: another compiler and another tree that hold what a definition is compiled from.
* `Compiler.Spares`: a run that changes nothing at some places.

## Main results

* `compiled_alike_of_moves`: a definition is compiled alike in both.
-/

namespace ResourceTables

/-- Two generated files hold the same text, and are at the same path below their output
directories. -/
structure RenderedUnit.Matches (compiler other : Compiler) (unit copy : RenderedUnit) : Prop where
  definition : copy.definition = unit.definition
  content : copy.content = unit.content
  output : ∃ relative : Path, unit.output = compiler.configuration.outputDirectory.join relative ∧
    copy.output = other.configuration.outputDirectory.join relative

/-- Another compiler makes the same decisions but for the base directory and the output directory,
and below its base directory another tree holds the same at all places that are kept. What a
definition is compiled from does not leave the base directory and is kept. -/
structure Compiler.Moves (compiler other : Compiler) (tree otherTree : Tree)
    (kept : Location → Prop) (path : Path) (mode : Mode) : Prop where
  naming : other.naming = compiler.naming
  namespaceRoot : other.configuration.namespaceRoot = compiler.configuration.namespaceRoot
  writer : compiler.writer = .source
  otherWriter : other.writer = .source
  wellFormed : tree.WellFormed
  otherWellFormed : otherTree.WellFormed
  /-- No location has two entries. -/
  distinct : (tree.entries.map (·.1)).Nodup
  otherDistinct : (otherTree.entries.map (·.1)).Nodup
  /-- The base directory is there. The empty path stands for the home directory. -/
  base : tree.isDirectory compiler.configuration.baseDirectory = true ∨
    compiler.configuration.baseDirectory.text = ""
  otherBase : otherTree.isDirectory other.configuration.baseDirectory = true ∨
    other.configuration.baseDirectory.text = ""
  mirrors : Tree.Mirrors kept tree (tree.locate compiler.configuration.baseDirectory) otherTree
    (otherTree.locate other.configuration.baseDirectory)
  inside : ∀ reading ∈ compiler.readings tree path mode,
    reading.StaysInside tree (tree.locate compiler.configuration.baseDirectory) kept
  /-- Both base directories are written as the empty path, or none is, unless the definition is in a
  directory of its own, or names no directory by the empty path. -/
  named : ((compiler.configuration.baseDirectory.text = "" ↔
      other.configuration.baseDirectory.text = "") ∨ (directoryOf path).text ≠ "") ∨
    ∀ reading ∈ compiler.readings tree path mode, ¬reading.NamesNothing

/-- A run neither writes a file at a place that is kept nor makes a directory there. -/
def Compiler.Spares (compiler : Compiler) (tree : Tree) (units : List (Path × Mode))
    (kept : Location → Prop) : Prop :=
  ∀ turn ∈ compiler.turns tree units, ∀ unit, turn.compiled compiler = .ok unit →
    ∀ place, kept place →
      let location := tree.locate compiler.configuration.baseDirectory ++ place
      tree.locate unit.output ≠ location ∧
        (tree.entry? location = none → ¬tree.IsAbove unit.output location)

variable {compiler other : Compiler} {tree otherTree : Tree} {kept : Location → Prop} {path : Path}
  {mode : Mode}

/-! ## Compiling in another place -/

/-- A module whose source file has moved is written to the same text. -/
theorem matches_renderUnit (hWriter : compiler.writer = .source) (hOther : other.writer = .source)
    {generated copy : GeneratedModule} {otherFile : Path} (hCopy : generated.MovedTo otherFile copy)
    (hName : otherFile.fileName? = generated.source.fileName?)
    (hSome : generated.source.fileName? ≠ none) (path : Path) :
    RenderedUnit.Matches compiler other (compiler.renderUnit path generated)
      (other.renderUnit path copy) := by
  cases hCopy
  refine ⟨rfl, ?_, Writer.source.relativePath generated, ?_, ?_⟩
  · rw [Compiler.renderUnit, Compiler.renderUnit, hWriter, hOther]
    exact render_eq_of_fileName? hName hSome
  · rw [Compiler.renderUnit, hWriter]
  · rw [Compiler.renderUnit, hOther]
    rfl

namespace Compiler.Moves

/-- The base directories are the same place. -/
theorem relocated (h : compiler.Moves other tree otherTree kept path mode) :
    Tree.Relocated kept tree (tree.locate compiler.configuration.baseDirectory) otherTree
      (otherTree.locate other.configuration.baseDirectory) compiler.configuration.baseDirectory
      other.configuration.baseDirectory [] where
  wellFormed := h.wellFormed
  distinct := h.distinct
  otherDistinct := h.otherDistinct
  mirrors := h.mirrors
  hosts := by
    rw [List.append_nil]
    exact h.wellFormed.hosts h.base
  otherHosts := by
    rw [List.append_nil]
    exact h.otherWellFormed.hosts h.otherBase

/-- A definition is described by the same module, but for the source file, which keeps its name; or
it is refused with a fault that tells the same. -/
theorem alike_describeFile (h : compiler.Moves other tree otherTree kept path mode) :
    Checked.Alike
      (fun generated copy => ∃ otherFile : Path, generated.MovedTo otherFile copy ∧
        otherFile.fileName? = generated.source.fileName? ∧ generated.source.fileName? ≠ none)
      (compiler.describeFile tree path mode) (other.describeFile otherTree path mode) := by
  have hLoading : other.loading otherTree = { compiler.loading tree with tree := otherTree } := by
    rw [Compiler.loading, Compiler.loading, h.naming, Configuration.namespaceSegments,
      Configuration.namespaceSegments, h.namespaceRoot]
  have hRelocated : Tree.Relocated kept (compiler.loading tree).tree
      (tree.locate compiler.configuration.baseDirectory) otherTree
      (otherTree.locate other.configuration.baseDirectory) compiler.configuration.baseDirectory
      other.configuration.baseDirectory [] := h.relocated
  rw [describeFile, describeFile, hLoading, h.naming]
  refine (alike_loadDefinition hRelocated h.inside h.named).bind ?_
  rintro definition _ - - ⟨rfl, hName, hSome⟩
  refine (alike_describe definition _ compiler.naming).imp ?_
  intro generated copy hDescribed _ hCopy
  rw [← source_of_describe hDescribed] at hName hSome
  exact ⟨_, hCopy, hName, hSome⟩

/-- A definition is compiled to the same text at the same path below the output directory, or is
refused with a fault that tells the same. -/
theorem alike_compileUnit (h : compiler.Moves other tree otherTree kept path mode) :
    Checked.Alike (RenderedUnit.Matches compiler other) (compiler.compileUnit tree path mode)
      (other.compileUnit otherTree path mode) := by
  rw [compileUnit, compileUnit]
  refine h.alike_describeFile.bind ?_
  rintro generated copy - - ⟨otherFile, hCopy, hName, hSome⟩
  exact .ok (matches_renderUnit h.writer h.otherWriter hCopy hName hSome path)

/-- A definition moves as well to the tree that a turn finds in a run that spares what is kept. -/
theorem before (h : compiler.Moves other tree otherTree kept path mode)
    {units : List (Path × Mode)} (hSpares : other.Spares otherTree units kept) {turn : Turn}
    (hTurn : turn ∈ other.turns otherTree units) :
    compiler.Moves other tree turn.before kept path mode where
  naming := h.naming
  namespaceRoot := h.namespaceRoot
  writer := h.writer
  otherWriter := h.otherWriter
  wellFormed := h.wellFormed
  otherWellFormed := wellFormed_before h.otherWellFormed hTurn
  distinct := h.distinct
  otherDistinct := (grows_before hTurn).nodup h.otherDistinct
  base := h.base
  otherBase := h.otherBase.imp_left (grows_before hTurn).isDirectory
  mirrors := by
    intro place hKept
    -- No turn before puts a file or makes a directory where the data is kept.
    rw [locate_before hTurn, ← h.mirrors place hKept]
    refine (grows_before hTurn).entry?_eq ?_ ?_
    · rintro ⟨writer, hWriter, output, hWritten, hLocation⟩
      obtain ⟨unit, hUnit, rfl, -⟩ := Turn.exists_of_reported (.inl hWritten)
      rw [locate_before hWriter] at hLocation
      exact (hSpares writer hWriter unit hUnit place hKept).1 hLocation.symm
    · rintro hNone ⟨maker, hMaker, unit, hUnit, hAbove⟩
      have hAboveThere := isAbove_before hMaker hAbove
      exact (hSpares maker hMaker unit hUnit place hKept).2 hNone hAboveThere
  inside := h.inside
  named := h.named

end Compiler.Moves

/-- A definition is compiled alike from another base directory that holds the same, to another
output directory: to the same text at the same path below the output directory, or it is refused
with a fault that tells the same. It does not matter whether the other compiler takes it alone or in
the middle of a run, as long as the run leaves what is read as it is. -/
theorem compiled_alike_of_moves (h : compiler.Moves other tree otherTree kept path mode) :
    Checked.Alike (RenderedUnit.Matches compiler other) (compiler.compileUnit tree path mode)
        (other.compileUnit otherTree path mode) ∧
      ∀ units, other.Spares otherTree units kept →
        ∀ turn ∈ other.turns otherTree units, turn.definition = path → turn.mode = mode →
          Checked.Alike (RenderedUnit.Matches compiler other)
            (compiler.compileUnit tree path mode) (turn.compiled other) := by
  refine ⟨h.alike_compileUnit, ?_⟩
  rintro units hSpares turn hTurn rfl rfl
  exact (h.before hSpares hTurn).alike_compileUnit

/-! ## Two base directories -/

/-- The definitions of constants and of tables, with the tables, in a directory of their own. -/
def siteTree : Tree where
  entries := (["site"], .directory) ::
    (tablesTree.entries.take 4).map fun (location, entry) => ("site" :: location, entry)

/-- A compiler for this directory that puts files beside it. -/
def siteCompiler : Compiler where
  configuration := ⟨⟨"../out"⟩, "app", ⟨"site"⟩⟩
  naming := {}

/-- The places that are not in the output directory. -/
def OutsideGen (place : Location) : Prop :=
  ¬["gen"] <+: place

instance : DecidablePred OutsideGen := fun place =>
  inferInstanceAs (Decidable ¬["gen"] <+: place)

theorem mirrors_site : Tree.Mirrors OutsideGen tablesTree [] siteTree ["site"] := by
  intro place hKept
  cases place with
  | nil => rfl
  | cons first rest =>
    have hGen : first ≠ "gen" := by
      rintro rfl
      exact hKept (List.prefix_append ["gen"] rest)
    simp [Tree.entry?, siteTree, tablesTree, Tree.lookup_cons_eq_ite, hGen]

theorem spares_site : siteCompiler.Spares siteTree tablesManifest.units OutsideGen := by
  have hOutputs : ∀ turn ∈ siteCompiler.turns siteTree tablesManifest.units,
      ∀ unit, turn.compiled siteCompiler = .ok unit →
        unit.output ∈ [⟨"site/../out/labels.rs"⟩, ⟨"site/../out/texts.rs"⟩] := by
    decide +kernel
  have hElse : ∀ output ∈ [(⟨"site/../out/labels.rs"⟩ : Path), ⟨"site/../out/texts.rs"⟩],
      (siteTree.locate output).head? ≠ some "site" ∧
        ∀ parent ∈ output.parent?, ∀ upper ∈ parent.ancestors,
          siteTree.locate upper = ["site"] ∨ (siteTree.locate upper).head? ≠ some "site" := by
    decide
  intro turn hTurn unit hUnit place hKept
  obtain ⟨hOutput, hAbove⟩ := hElse _ (hOutputs turn hTurn unit hUnit)
  refine ⟨fun hSame => hOutput (by rw [hSame]; rfl), fun hNone hUpper => ?_⟩
  obtain ⟨parent, hParent, upper, hMem, hLocation⟩ := hUpper
  rcases hAbove parent hParent upper hMem with hSite | hOther
  · rw [hLocation, hSite] at hNone
    cases hNone
  · exact hOther (by rw [← hLocation]; rfl)

/-- The definition of tables is compiled to the same text at home and in the middle of a run in the
other directory. -/
theorem compiled_alike_site : ∃ unit turn copy,
    appCompiler.compileUnit tablesTree ⟨"texts.json"⟩ .values = .ok unit ∧
      unit.output = ⟨"gen/texts.rs"⟩ ∧
      turn ∈ siteCompiler.turns siteTree tablesManifest.units ∧
      turn.compiled siteCompiler = .ok copy ∧ copy.content = unit.content := by
  have hOutput : (appCompiler.compileUnit tablesTree ⟨"texts.json"⟩ .values).toOption.map
      (·.output) = some ⟨"gen/texts.rs"⟩ := by
    decide +kernel
  have hReadings : appCompiler.readings tablesTree ⟨"texts.json"⟩ .values =
      [.file ⟨""⟩ ⟨"texts.json"⟩, .directory ⟨""⟩ ⟨"en"⟩, .table ⟨"en"⟩ "home.csv"] := by
    decide +kernel
  have hHome : tablesTree.locate appCompiler.configuration.baseDirectory = [] := by decide
  have hSite : siteTree.locate siteCompiler.configuration.baseDirectory = ["site"] := by decide
  have hKeptHome : OutsideGen [] := by decide
  have hMoves : appCompiler.Moves siteCompiler tablesTree siteTree OutsideGen ⟨"texts.json"⟩
      .values :=
    { naming := rfl
      namespaceRoot := rfl
      writer := rfl
      otherWriter := rfl
      wellFormed := by decide +kernel
      otherWellFormed := by decide +kernel
      distinct := by decide +kernel
      otherDistinct := by decide +kernel
      base := .inr rfl
      otherBase := .inl rfl
      mirrors := by
        rw [hHome, hSite]
        exact mirrors_site
      inside := by
        have hLeads : ∀ name, Tree.IsName name → OutsideGen [name] →
            tablesTree.LeadsInside [] OutsideGen ⟨""⟩ ⟨name⟩ [name] := by
          intro name hName hKept
          exact Tree.leadsInside_of_isName hName hHome hKeptHome hKept
        rw [hReadings, hHome]
        refine List.forall_mem_cons.mpr ⟨⟨_, hLeads "texts.json" (by decide) (by decide)⟩,
          List.forall_mem_cons.mpr ⟨⟨_, hLeads "en" (by decide) (by decide), fun child hGen => ?_⟩,
            List.forall_mem_singleton.mpr trivial⟩⟩
        exact absurd (List.cons_prefix_cons.mp hGen).1 (by decide)
      named := by
        rw [hReadings]
        simp [Reading.NamesNothing] }
  obtain ⟨unit, hUnit, hPath⟩ := Checked.map_toOption_eq_some_iff.mp hOutput
  obtain ⟨turn, hTurn, hPair⟩ : ∃ turn ∈ siteCompiler.turns siteTree tablesManifest.units,
      (turn.definition, turn.mode) = (⟨"texts.json"⟩, .values) := by
    refine List.mem_map.mp ?_
    rw [map_turns]
    decide
  obtain ⟨hDefinition, hMode⟩ := Prod.mk.inj hPair
  have hAlike := (compiled_alike_of_moves hMoves).2 _ spares_site turn hTurn hDefinition hMode
  generalize hCopy : turn.compiled siteCompiler = result at hAlike
  rw [hUnit] at hAlike
  cases hAlike with
  | ok hMatches => exact ⟨unit, turn, _, hUnit, hPath, hTurn, hCopy, hMatches.content⟩

/-! ## Definitions that stay behind -/

/-- Where the base directory is written as the empty path, a definition right in it is refused if it
names a directory by the empty path. -/
theorem refused_of_namesNothing (hBase : compiler.configuration.baseDirectory.text = "")
    (hDirectory : (directoryOf path).text = "") {reading : Reading}
    (hReading : reading ∈ compiler.readings tree path mode)
    (hNothing : reading.NamesNothing) :
    ∃ fault, compiler.compileUnit tree path mode = .error fault := by
  cases hCompiled : compiler.compileUnit tree path mode with
  | error fault => exact ⟨fault, rfl⟩
  | ok unit =>
    have hSucceeds := succeeds_of_compileUnit hCompiled reading hReading
    -- The reading looks for a directory at nothing joined to nothing.
    rcases exists_of_mem_definitionReadings hReading with
      rfl | ⟨-, kind, field, value, hSource⟩
    · exact hNothing.elim
    · rw [Path.join_of_text_eq_empty hBase] at hSource
      rcases exists_of_mem_sourceReadings hSource with
        ⟨name, rfl | rfl⟩ | ⟨directory, fileName, -, rfl⟩
      · exact hNothing.elim
      · have hPlace : (directoryOf path).join name = ⟨""⟩ :=
          (Path.join_of_text_eq_empty hDirectory name).trans (congrArg Path.mk hNothing)
        rw [Reading.Succeeds, hPlace] at hSucceeds
        cases hSucceeds
      · exact hNothing.elim

/-- A hidden definition right in the home directory, where it looks for its tables. It names their
directory by the empty path. -/
def unnamedTree : Tree where
  entries :=
    [([".texts.json"], .file (.text
      ("\x7b\"class\":\"Texts\",\"type\":\"csv-grouped\",\"defaultVersion\":\"en\"," ++
        "\"versions\":\x7b\"en\":\"\"\x7d\x7d")))]

/-- The compiler for the home directory, where this is written as a dot. -/
def dotCompiler : Compiler where
  configuration := { appCompiler.configuration with baseDirectory := ⟨"."⟩ }
  naming := appCompiler.naming

/-- The home directory can be written as the empty path and as a dot. All that the definition is
compiled from is in it, but the definition is refused with the first and compiled with the
second. -/
theorem not_alike_unnamed :
    unnamedTree.locate appCompiler.configuration.baseDirectory =
        unnamedTree.locate dotCompiler.configuration.baseDirectory ∧
      (∀ reading ∈ appCompiler.readings unnamedTree ⟨".texts.json"⟩ .values,
        reading.StaysInside unnamedTree [] fun _ => True) ∧
      appCompiler.compileUnit unnamedTree ⟨".texts.json"⟩ .values =
        .error (.definition ⟨".texts.json"⟩ (.notADirectory ⟨""⟩)) ∧
      ¬Checked.Alike (RenderedUnit.Matches appCompiler dotCompiler)
        (appCompiler.compileUnit unnamedTree ⟨".texts.json"⟩ .values)
        (dotCompiler.compileUnit unnamedTree ⟨".texts.json"⟩ .values) := by
  have hReadings : appCompiler.readings unnamedTree ⟨".texts.json"⟩ .values =
      [.file ⟨""⟩ ⟨".texts.json"⟩, .directory ⟨""⟩ ⟨""⟩] := by
    decide +kernel
  have hRefused : appCompiler.compileUnit unnamedTree ⟨".texts.json"⟩ .values =
      .error (.definition ⟨".texts.json"⟩ (.notADirectory ⟨""⟩)) := by
    decide +kernel
  have hCompiled : (dotCompiler.compileUnit unnamedTree ⟨".texts.json"⟩ .values).toOption.map
      (·.output) = some ⟨"./gen/texts.rs"⟩ := by
    decide +kernel
  obtain ⟨unit, hUnit, -⟩ := Checked.map_toOption_eq_some_iff.mp hCompiled
  refine ⟨by decide, ?_, hRefused, fun hAlike => ?_⟩
  · have hHome : unnamedTree.locate ⟨""⟩ = [] := by decide
    have hNothing : unnamedTree.LeadsInside [] (fun _ => True) ⟨""⟩ ⟨""⟩ [] := by
      refine ⟨by decide, [], hHome, ?_⟩
      rw [Path.pieces_of_notMem (by decide)]
      exact .idle trivial (.inl rfl) (.here trivial)
    rw [hReadings]
    exact List.forall_mem_cons.mpr
      ⟨⟨_, Tree.leadsInside_of_isName (by decide) hHome trivial trivial⟩,
        List.forall_mem_singleton.mpr ⟨_, hNothing, fun _ => trivial⟩⟩
  · rw [hRefused, hUnit] at hAlike
    cases hAlike

end ResourceTables
