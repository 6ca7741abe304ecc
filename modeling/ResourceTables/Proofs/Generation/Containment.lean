import ResourceTables.Proofs.Generation.Prediction
import ResourceTables.Proofs.Generation.Untouched
import ResourceTables.Proofs.Tree.Bearing

/-!
# Files inside the output directory

The path of a generated file below the output directory is put together from the module path that
the definition adds. Names and ways down lead into the output directory, but nothing keeps a segment
from stepping back or from being an absolute path. Whether the file is inside is seen from the
bearing of the path.

## Main definitions

* `GeneratedModule.StaysInside`: the path of the file of a module leads into a directory.

## Main results

* `inside_output_iff`: the file of a turn is inside the output directory.
-/

namespace ResourceTables

variable {compiler : Compiler} {tree : Tree}

/-- The path of the file of a module leads into a directory: if it is relative, its names lead into
the part of the directory's location that its steps back leave, and if it is absolute, its names
lead into the directory from the root. -/
def GeneratedModule.StaysInside (generated : GeneratedModule) (root : Location) : Prop :=
  let path := Writer.source.relativePath generated
  let bearing := Bearing.ofPieces path.pieces
  if path.isAbsolute then Tree.Inside root bearing.names
  else Tree.Inside (root.drop (root.length - bearing.back)) bearing.names

theorem staysInside_iff (base : Path) (generated : GeneratedModule) :
    generated.StaysInside (tree.locate base) ↔
      Tree.Inside (tree.locate base)
        (tree.locate (base.join (Writer.source.relativePath generated))) := by
  rw [GeneratedModule.StaysInside]
  cases hAbsolute : (Writer.source.relativePath generated).isAbsolute with
  | false =>
    rw [Tree.locate_join hAbsolute, Bearing.foldl_step_eq, Bearing.inside_target_iff]
    exact Iff.rfl
  | true =>
    have hLocate : tree.locate (Writer.source.relativePath generated) =
        (Bearing.ofPieces (Writer.source.relativePath generated).pieces).names := by
      rw [Tree.locate, Tree.start, if_pos hAbsolute, Bearing.foldl_step_eq, Bearing.target,
        List.take_nil, List.nil_append]
    rw [Path.join, if_pos hAbsolute, hLocate]
    exact Iff.rfl

/-- The path of the directory of the file of a module, below the output directory. -/
def GeneratedModule.directory (generated : GeneratedModule) : Path :=
  generated.directories.foldl (fun path name => path.join ⟨name⟩) ⟨""⟩

theorem relativePath_eq (generated : GeneratedModule) :
    Writer.source.relativePath generated =
      generated.directory.join ⟨Writer.source.fileName generated⟩ := by
  rw [Writer.relativePath, List.foldl_append]
  rfl

theorem inside_of_descending {definition : Definition} {naming : Naming}
    {generated : GeneratedModule} (h : describe naming definition = .ok generated)
    (hSegments : ∀ segment ∈ generated.directories, (⟨segment⟩ : Path).Descending) (base : Path) :
    Tree.Inside (tree.locate base)
      (tree.locate (base.join (Writer.source.relativePath generated))) := by
  have hName := isName_fileName h
  have hAlone := Path.descending_of_notMem hName.noSlash hName.notStepBack
  have hEmpty : (⟨""⟩ : Path).Descending := ⟨by decide, by decide⟩
  have hAbove : generated.directory.Descending := hEmpty.foldl_join hSegments
  have hTrunk : ".." ∉ generated.directory.trunk :=
    fun hBack => hAbove.noStepBack (Path.mem_pieces_of_mem_trunk hBack)
  have hPrefix := Tree.prefix_foldl_step hTrunk (tree.locate base)
  rw [relativePath_eq, Tree.locate_join (hAbove.join hAlone).relative,
    Path.pieces_join hAlone.relative, Path.pieces_of_notMem hName.noSlash, List.foldl_append,
    List.foldl_cons, List.foldl_nil, Tree.step_of_isName hName]
  refine ⟨hPrefix.trans (List.prefix_append _ _), fun hSame => ?_⟩
  have hLength := congrArg List.length hSame
  have hLe := hPrefix.length_le
  rw [List.length_append, List.length_singleton] at hLength
  omega

/-- The file of a turn, which is all that the turn writes, is inside the output directory exactly if
the path of the file below it leads there. It is if no segment that the definition adds to the
module path is absolute or steps back. -/
theorem inside_output_iff (hWriter : compiler.writer = .source) {units : List (Path × Mode)}
    {turn : Turn} (hTurn : turn ∈ compiler.turns tree units) {unit : RenderedUnit}
    (hCompiled : turn.compiled compiler = .ok unit) :
    ∃ generated, compiler.describeFile turn.before turn.definition turn.mode = .ok generated ∧
      (∀ location, turn.Writes compiler location → location = tree.locate unit.output) ∧
      (Tree.Inside (tree.locate compiler.configuration.outputDirectory)
          (tree.locate unit.output) ↔
        generated.StaysInside (tree.locate compiler.configuration.outputDirectory)) ∧
      ((∀ segment ∈ generated.directories, (⟨segment⟩ : Path).Descending) →
        Tree.Inside (tree.locate compiler.configuration.outputDirectory)
          (tree.locate unit.output)) := by
  obtain ⟨generated, hDescribed, hRendered⟩ := Checked.bind_eq_ok.mp hCompiled
  obtain ⟨definition, -, hDescribe⟩ := Checked.bind_eq_ok.mp hDescribed
  have hOutput : unit.output =
      compiler.configuration.outputDirectory.join (Writer.source.relativePath generated) := by
    cases hRendered
    rw [Compiler.renderUnit, hWriter]
  refine ⟨generated, hDescribed, ?_, ?_, fun hSegments => ?_⟩
  · rintro location ⟨output, hOutcome, rfl⟩
    obtain ⟨own, hOwn, rfl, -⟩ := Turn.exists_of_reported (.inl hOutcome)
    rw [Except.ok.inj (hOwn.symm.trans hCompiled)]
    exact locate_before hTurn unit.output
  · rw [hOutput, staysInside_iff]
  · rw [hOutput]
    exact inside_of_descending hDescribe hSegments _

/-- A definition of one constant that adds to the module path. -/
def addingText (added : String) : String :=
  "\x7b\"class\":\"Labels\",\"type\":\"in-place\",\"addNamespace\":\"" ++ added ++
    "\",\"data\":\x7b\"k\":\"v\"\x7d\x7d"

/-- The turn over the definition, beside which another file stands. -/
def addingTurn (added : String) : Turn where
  before :=
    { entries :=
        [(["labels.json"], .file (.text (addingText added))),
         (["labels.rs"], .file (.text "mine"))] }
  definition := ⟨"labels.json"⟩
  mode := .constants

/-- A plain segment leads into a directory of the output directory. -/
theorem inside_output_plain : ∃ unit : RenderedUnit,
    (addingTurn "ui").compiled appCompiler = .ok unit ∧
      Tree.Inside ["gen"] ((addingTurn "ui").before.locate unit.output) := by
  have hDirectories : (appCompiler.describeFile (addingTurn "ui").before ⟨"labels.json"⟩
      .constants).toOption.map (·.directories) = some ["ui"] := by
    decide +kernel
  obtain ⟨other, hOther, hSegments⟩ := Checked.map_toOption_eq_some_iff.mp hDirectories
  have hCompiled : (addingTurn "ui").compiled appCompiler =
      .ok (appCompiler.renderUnit ⟨"labels.json"⟩ other) :=
    Checked.bind_eq_ok.mpr ⟨other, hOther, rfl⟩
  have hTurn : addingTurn "ui" ∈
      appCompiler.turns (addingTurn "ui").before [(⟨"labels.json"⟩, .constants)] :=
    List.mem_singleton.mpr rfl
  obtain ⟨generated, hDescribed, -, -, hInside⟩ := inside_output_iff rfl hTurn hCompiled
  cases hOther.symm.trans hDescribed
  refine ⟨_, hCompiled, hInside ?_⟩
  rw [hSegments]
  decide

/-- A segment that steps back leads out of the output directory: the file is written over the one
beside the definition. -/
theorem inside_output_climbing :
    (addingTurn "..").outcome appCompiler = .written ⟨"gen/../labels.rs"⟩ ∧
      (addingTurn "..").before.locate ⟨"gen/../labels.rs"⟩ = ["labels.rs"] ∧
      ¬Tree.Inside ((addingTurn "..").before.locate appCompiler.configuration.outputDirectory)
        ["labels.rs"] ∧
      Tree.entry? (addingTurn "..").before ["labels.rs"] = some (.file (.text "mine")) ∧
      Tree.entry? ((addingTurn "..").after appCompiler) ["labels.rs"] ≠
        some (.file (.text "mine")) := by
  refine ⟨by decide +kernel, by decide, by decide, by decide, by decide +kernel⟩

end ResourceTables
