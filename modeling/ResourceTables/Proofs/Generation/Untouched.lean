import ResourceTables.Proofs.Definition.Readings
import ResourceTables.Proofs.GeneratedModule.SourceFile
import ResourceTables.Proofs.Generation.Outputs
import ResourceTables.Proofs.Generation.Tampering
import ResourceTables.Proofs.Tree.Directories

/-!
# Files that nobody has touched

A check that finds a file as a run has left it tells what it is: up to date, or stale because its
definitions have changed since. This holds for all definitions and all names, but not for all module
paths: a mark in the module path hides the stamp, and then an untouched file that is out of date is
reported as edited by hand.

## Main results

* `driftOf_render`, `driftOf_render_of_pathMarked`: the kind of drift of a generated file.
* `checkUnit_of_untouched`: what a check finds about an untouched file.
-/

namespace ResourceTables

open Text

variable {compiler : Compiler} {tree : Tree}

/-! ## The name of a definition file -/

/-- The module of a definition file comes from this file, which could be read. -/
theorem readText_source {path : Path} {mode : Mode} {generated : GeneratedModule}
    (h : compiler.describeFile tree path mode = .ok generated) :
    ∃ text, tree.readText generated.source = .ok text := by
  obtain ⟨definition, hLoaded, hDescribe⟩ := Checked.bind_eq_ok.mp h
  rw [source_of_describe hDescribe]
  obtain ⟨document, hDocument, hDefinition⟩ := Checked.bind_eq_ok.mp hLoaded
  obtain ⟨hFile, text, hText⟩ := file_of_read hDocument
  rw [loadDocument_eq] at hDefinition
  obtain ⟨header, hHeader, hDefinition⟩ := Checked.bind_eq_ok.mp hDefinition
  obtain ⟨body, -, hDefinition⟩ := Checked.bind_eq_ok.mp hDefinition
  cases hDefinition
  rw [(source_and_body_of_loadHeader hHeader body).1, hFile]
  exact ⟨text, hText⟩

theorem slash_notMem_sourceName (hTree : tree.WellFormed) {path : Path} {mode : Mode}
    {generated : GeneratedModule} (h : compiler.describeFile tree path mode = .ok generated) :
    '/' ∉ generated.sourceName.toList := by
  obtain ⟨text, hText⟩ := readText_source h
  obtain ⟨name, hName⟩ := hTree.exists_fileName hText
  rw [GeneratedModule.sourceName, hName]
  exact Path.slash_notMem_of_mem_pieces (Path.fileName?_mem_pieces hName)

/-! ## The kind of drift of a generated file -/

section Drift

variable {path : Path} {mode : Mode} {generated : GeneratedModule}

theorem isIdentifier_className (h : compiler.describeFile tree path mode = .ok generated) :
    isIdentifier generated.className = true := by
  obtain ⟨definition, -, hDescribe⟩ := Checked.bind_eq_ok.mp h
  exact (wellNamed_of_describe hDescribe).className

theorem driftOf_render (hTree : tree.WellFormed)
    (h : compiler.describeFile tree path mode = .ok generated) (hMark : ¬generated.PathMarked) :
    driftOf generated.render = .stale := by
  have hBanner := mt (GeneratedModule.marker_infix_banner_iff (slash_notMem_sourceName hTree h)
    (isIdentifier_className h)).mp hMark
  exact (GeneratedModule.driftOf_header_append hBanner generated.body.toUTF8.toList
    generated.body).trans (if_pos rfl)

theorem driftOf_render_of_pathMarked (hTree : tree.WellFormed)
    (h : compiler.describeFile tree path mode = .ok generated) (hMark : generated.PathMarked)
    (hOneLine : ∀ segment ∈ generated.namespacePath, OneLine segment) :
    driftOf generated.render = .handEdited := by
  obtain ⟨stamp, body, hFound, hColon⟩ := generated.exists_extract?_of_pathMarked
    (slash_notMem_sourceName hTree h) (isIdentifier_className h) hMark hOneLine
    (.of generated.body) generated.body
  have hRefuted : ¬stamp.verifies body = true := by
    intro hVerified
    rw [← beq_iff_eq.mp hVerified] at hColon
    exact absurd (isAlphanum_of_mem_hex hColon) (by decide)
  rw [driftOf, GeneratedModule.render, hFound]
  exact if_neg hRefuted

end Drift

/-! ## Checks of untouched files -/

/-- A file that a turn writes holds the module that its definition describes. -/
theorem readText_after_of_written (hWriter : compiler.writer = .source) {turn : Turn}
    {generated : GeneratedModule}
    (hDescribed : compiler.describeFile turn.before turn.definition turn.mode = .ok generated)
    {output : Path} (hWritten : turn.outcome compiler = .written output) :
    Tree.readText (turn.after compiler) output = .ok generated.render := by
  obtain ⟨own, hOwn, rfl, hText⟩ := Turn.exists_of_reported (.inl hWritten)
  obtain ⟨other, hOther, hRendered⟩ := Checked.bind_eq_ok.mp hOwn
  cases hOther.symm.trans hDescribed
  cases hRendered
  rw [hText, Compiler.renderUnit, hWriter]
  rfl

/-- A check that finds a file as an earlier run has written it, whatever the definitions and the
module path were then and are now, finds it up to date or out of date. In the second case the file
is stale if the module path of then shows no mark, and it seems edited by hand if that module path
shows one, on one line. -/
theorem checkUnit_of_untouched {earlier : Compiler} (hWriter : earlier.writer = .source)
    {before : Tree} (hTree : before.WellFormed) {units : List (Path × Mode)} {turn : Turn}
    (hTurn : turn ∈ earlier.turns before units) {output : Path}
    (hWritten : turn.outcome earlier = .written output) {definition : Path} {mode : Mode}
    {unit : RenderedUnit} (hCompiled : compiler.compileUnit tree definition mode = .ok unit)
    (hSame : tree.readText unit.output = Tree.readText (turn.after earlier) output) :
    ∃ generated, earlier.describeFile turn.before turn.definition turn.mode = .ok generated ∧
      (checkUnit compiler tree definition mode = .upToDate unit.output ∨
        ∃ drift : Drift, checkUnit compiler tree definition mode = .drifted drift ∧
          drift.output = unit.output ∧
          (¬generated.PathMarked → drift.kind = .stale) ∧
          (generated.PathMarked → (∀ segment ∈ generated.namespacePath, OneLine segment) →
            drift.kind = .handEdited)) := by
  have hBefore := wellFormed_before hTree hTurn
  obtain ⟨own, hOwn, rfl, hText⟩ := Turn.exists_of_reported (.inl hWritten)
  obtain ⟨generated, hDescribed, hRendered⟩ := Checked.bind_eq_ok.mp hOwn
  cases hRendered
  have hContent : (earlier.renderUnit turn.definition generated).content = generated.render := by
    rw [Compiler.renderUnit, hWriter]
    rfl
  rw [hText, hContent] at hSame
  refine ⟨generated, hDescribed, (checkUnit_of_readText hCompiled hSame).imp_right ?_⟩
  rintro ⟨drift, hFound, hOutput, hKind⟩
  refine ⟨drift, hFound, hOutput, ?_⟩
  rw [hKind]
  exact ⟨driftOf_render hBefore hDescribed, driftOf_render_of_pathMarked hBefore hDescribed⟩

/-- A definition of one constant. -/
def constantText (value : String) : String :=
  "\x7b\"class\":\"Labels\",\"type\":\"in-place\",\"data\":\x7b\"k\":\"" ++ value ++ "\"\x7d\x7d"

/-- A compiler with a given module path. -/
def compilerUnder (namespaceRoot : String) : Compiler where
  configuration := ⟨⟨"gen"⟩, namespaceRoot, ⟨""⟩⟩
  naming := {}

/-- The turn over the definition. -/
def labelsTurn : Turn where
  before := { entries := [(["labels.json"], .file (.text (constantText "v")))] }
  definition := ⟨"labels.json"⟩
  mode := .constants

/-- The tree that the turn leaves, once the definition has got another value. -/
def revisedTree (compiler : Compiler) : Tree :=
  (labelsTurn.after compiler).put ["labels.json"] (.file (.text (constantText "w")))

/-- Under a plain module path, the file is stale once the definition has changed. -/
theorem checkUnit_of_untouched_plain : ∃ drift : Drift,
    checkUnit (compilerUnder "app") (revisedTree (compilerUnder "app")) ⟨"labels.json"⟩
      .constants = .drifted drift ∧ drift.kind = .stale := by
  have hWritten : labelsTurn.outcome (compilerUnder "app") = .written ⟨"gen/labels.rs"⟩ := by
    decide +kernel
  have hOutput : ((compilerUnder "app").compileUnit (revisedTree (compilerUnder "app"))
      ⟨"labels.json"⟩ .constants).toOption.map (·.output) = some ⟨"gen/labels.rs"⟩ := by
    decide +kernel
  have hSame : Tree.readText (revisedTree (compilerUnder "app")) ⟨"gen/labels.rs"⟩ =
      Tree.readText (labelsTurn.after (compilerUnder "app")) ⟨"gen/labels.rs"⟩ := by
    decide +kernel
  have hPath : ((compilerUnder "app").describeFile labelsTurn.before ⟨"labels.json"⟩
      .constants).toOption.map (·.namespacePath) = some ["app"] := by
    decide +kernel
  have hOutdated : checkUnit (compilerUnder "app") (revisedTree (compilerUnder "app"))
      ⟨"labels.json"⟩ .constants ≠ .upToDate ⟨"gen/labels.rs"⟩ := by
    decide +kernel
  have hTurn : labelsTurn ∈
      (compilerUnder "app").turns labelsTurn.before [(⟨"labels.json"⟩, .constants)] :=
    List.mem_singleton.mpr rfl
  obtain ⟨unit, hUnit, hOutput⟩ := Checked.map_toOption_eq_some_iff.mp hOutput
  rw [← hOutput] at hSame hOutdated hWritten
  obtain ⟨generated, hDescribed, hFound⟩ :=
    checkUnit_of_untouched rfl (by decide) hTurn hWritten hUnit hSame
  obtain ⟨drift, hDrift, -, hStale, -⟩ := hFound.resolve_left hOutdated
  refine ⟨drift, hDrift, hStale ?_⟩
  obtain ⟨other, hOther, hSegments⟩ := Checked.map_toOption_eq_some_iff.mp hPath
  cases hOther.symm.trans hDescribed
  rintro ⟨segment, hSegment, hMark⟩
  rw [hSegments, List.mem_singleton] at hSegment
  rw [hSegment] at hMark
  exact absurd hMark.length_le (by decide)

/-- Under a module path with a mark, the file seems edited by hand. -/
theorem checkUnit_of_untouched_marked :
    labelsTurn.outcome (compilerUnder "app // fingerprint: sha256:draft") =
        .written ⟨"gen/labels.rs"⟩ ∧
      Tree.readText (revisedTree (compilerUnder "app // fingerprint: sha256:draft"))
          ⟨"gen/labels.rs"⟩ =
        Tree.readText (labelsTurn.after (compilerUnder "app // fingerprint: sha256:draft"))
          ⟨"gen/labels.rs"⟩ ∧
      ∃ drift : Drift,
        checkUnit (compilerUnder "app // fingerprint: sha256:draft")
            (revisedTree (compilerUnder "app // fingerprint: sha256:draft")) ⟨"labels.json"⟩
            .constants =
          .drifted drift ∧ drift.kind = .handEdited := by
  have hWritten : labelsTurn.outcome (compilerUnder "app // fingerprint: sha256:draft") =
      .written ⟨"gen/labels.rs"⟩ := by
    decide +kernel
  have hSame : Tree.readText (revisedTree (compilerUnder "app // fingerprint: sha256:draft"))
        ⟨"gen/labels.rs"⟩ =
      Tree.readText (labelsTurn.after (compilerUnder "app // fingerprint: sha256:draft"))
        ⟨"gen/labels.rs"⟩ := by
    decide +kernel
  refine ⟨hWritten, hSame, ?_⟩
  have hOutput : ((compilerUnder "app // fingerprint: sha256:draft").compileUnit
      (revisedTree (compilerUnder "app // fingerprint: sha256:draft")) ⟨"labels.json"⟩
      .constants).toOption.map (·.output) = some ⟨"gen/labels.rs"⟩ := by
    decide +kernel
  have hPath : ((compilerUnder "app // fingerprint: sha256:draft").describeFile labelsTurn.before
      ⟨"labels.json"⟩ .constants).toOption.map (·.namespacePath) =
        some ["app // fingerprint: sha256:draft"] := by
    decide +kernel
  have hOutdated : checkUnit (compilerUnder "app // fingerprint: sha256:draft")
      (revisedTree (compilerUnder "app // fingerprint: sha256:draft")) ⟨"labels.json"⟩
      .constants ≠ .upToDate ⟨"gen/labels.rs"⟩ := by
    decide +kernel
  obtain ⟨unit, hUnit, hOutput⟩ := Checked.map_toOption_eq_some_iff.mp hOutput
  obtain ⟨generated, hDescribed, hSegments⟩ := Checked.map_toOption_eq_some_iff.mp hPath
  have hText := readText_after_of_written rfl hDescribed hWritten
  rw [← hOutput] at hSame hText hOutdated
  obtain ⟨drift, hDrift, -, hKind⟩ :=
    (checkUnit_of_readText hUnit (hSame.trans hText)).resolve_left hOutdated
  refine ⟨drift, hDrift, hKind.trans ?_⟩
  refine driftOf_render_of_pathMarked (by decide) hDescribed ?_ ?_
  · rw [GeneratedModule.PathMarked, hSegments]
    exact ⟨_, List.mem_singleton_self _, "app ".toList, "draft:".toList, by decide +kernel⟩
  · rw [hSegments]
    decide +kernel

end ResourceTables
