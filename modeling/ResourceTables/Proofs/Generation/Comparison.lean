import ResourceTables.Proofs.Generation.Prediction
import ResourceTables.Proofs.Tree.Unreadable

/-!
# Comparing a file and writing it

A check compares a file with what it should hold, and a run writes the file unless it holds that
already. Both look at the same text, but each in its own way: the comparison takes an empty text for
a file that is not found, and fails where something else cannot be read; the writing goes on, and
fails only if the file cannot be put. So they agree on what is up to date, and where the comparison
fails the writing fails, too, but for a file whose bytes are no text: that one is written over.

## Main definitions

* `Turn.Garbled`: the file of a turn is there, but holds bytes that are no text.

## Main results

* `detectDrift_agrees_with_writeUnit`: what is up to date, and what is missing.
* `outcome_failed_of_check_iff`: where a check fails, a run fails.
-/

namespace ResourceTables

variable {compiler : Compiler} {tree : Tree} {unit : RenderedUnit}

/-! ## Writing -/

theorem writeUnit_eq_false_iff :
    (writeUnit tree unit).2 = .ok false ↔ tree.readText unit.output = .ok unit.content := by
  rw [writeUnit]
  split
  · next hCurrent =>
    refine iff_of_true rfl ?_
    cases hText : tree.readText unit.output with
    | error fault =>
      rw [hText] at hCurrent
      cases hCurrent
    | ok text =>
      rw [hText] at hCurrent
      rw [Option.some.inj hCurrent]
  · next hOutdated =>
    refine iff_of_false (fun hWritten => ?_) fun hText => hOutdated (by rw [hText]; rfl)
    split at hWritten
    · cases hWritten
    · split at hWritten <;> cases hWritten

/-- A file that cannot be read cannot be written, unless nothing was found there, or bytes that are
no text. -/
theorem exists_fault_of_writeUnit {reason : TreeFault}
    (hText : tree.readText unit.output = .error reason) (hFound : reason ≠ .notFound)
    (hBytes : reason ≠ .notText) : ∃ fault, (writeUnit tree unit).2 = .error fault := by
  have hOutdated : (tree.readText unit.output).toOption ≠ some unit.content := by
    rw [hText]
    exact nofun
  rw [writeUnit, if_neg hOutdated]
  cases hPrepared : prepareDirectory tree unit.output with
  | mk made result =>
    have hGrown := grows_prepareDirectory tree unit.output
    rw [hPrepared] at hGrown
    cases result with
    | error fault => exact ⟨fault, rfl⟩
    | ok =>
      dsimp only
      cases hWritten : made.write unit.output (.text unit.content) with
      | error fault => exact ⟨_, rfl⟩
      | ok written =>
        -- The file would be there now, but what kept it from being read is there still.
        have hMade := hGrown.readText_eq_error hText hFound hBytes
        have hThere := (Tree.grows_write hWritten).readText_eq_error hMade hFound hBytes
        cases hThere.symm.trans (Tree.readText_of_write hWritten)

/-- Bytes that are no text are written over. -/
theorem writeUnit_of_notText (hTree : tree.WellFormed)
    (hText : tree.readText unit.output = .error .notText) :
    (writeUnit tree unit).2 = .ok true := by
  obtain ⟨raw, hFind⟩ := Tree.readText_eq_notText_iff.mp hText
  obtain ⟨parent, written, hParent, hMade, hWritten⟩ :=
    hTree.exists_write_over hFind (.text unit.content)
  have hOutdated : (tree.readText unit.output).toOption ≠ some unit.content := by
    rw [hText]
    exact nofun
  have hPrepared : prepareDirectory tree unit.output = (tree, .ok ()) := by
    rw [prepareDirectory_of_parent? hParent, hMade]
  rw [writeUnit, if_neg hOutdated, hPrepared]
  dsimp only
  rw [hWritten]

/-! ## What both say of a file -/

/-- Where something else than the file is at the path or on the way, both fail. -/
theorem fail_alike_of_readText {reason : TreeFault}
    (hReason : reason ∈ [.notADirectory, .isADirectory, .nulInPath])
    (hText : tree.readText unit.output = .error reason) :
    detectDrift tree unit = .error (.tree unit.output reason) ∧
      ∃ fault, (writeUnit tree unit).2 = .error fault := by
  have hFound : reason ≠ .notFound := by
    rintro rfl
    exact absurd hReason (by decide)
  have hBytes : reason ≠ .notText := by
    rintro rfl
    exact absurd hReason (by decide)
  exact ⟨detectDrift_eq_error_iff.mpr ⟨reason, hFound, hText, rfl⟩,
    exists_fault_of_writeUnit hText hFound hBytes⟩

/-- A comparison finds a file up to date exactly if writing it finds nothing to write; only an empty
file that is not found is left out here. Where no file is, either nothing is found and the file is
missing, or something is in its place or on the way to it, and then the comparison and the writing
both fail. -/
theorem detectDrift_agrees_with_writeUnit
    (h : unit.content = "" → tree.find unit.output ≠ .error .notFound) :
    (detectDrift tree unit = .ok none ↔ (writeUnit tree unit).2 = .ok false) ∧
      (tree.isFile unit.output = false →
        (tree.find unit.output = .error .notFound ∧
          ∃ drift : Drift, detectDrift tree unit = .ok (some drift) ∧ drift.output = unit.output ∧
            drift.kind = .missing) ∨
        ∃ reason ∈ [.notADirectory, .isADirectory, .nulInPath],
          tree.readText unit.output = .error reason ∧
            detectDrift tree unit = .error (.tree unit.output reason) ∧
            ∃ fault, (writeUnit tree unit).2 = .error fault) := by
  refine ⟨?_, fun hNoFile => ?_⟩
  · rw [detectDrift_eq_none_iff, writeUnit_eq_false_iff]
    exact or_iff_left fun ⟨hFind, hContent⟩ => h hContent hFind
  · cases hFind : tree.find unit.output with
    | error reason =>
      have hText := Tree.readText_eq_error_iff.mpr (.inl hFind)
      have hReason := Tree.mem_of_find_eq_error hFind
      simp only [List.mem_cons, List.not_mem_nil, or_false] at hReason
      rcases hReason with rfl | rfl | rfl
      · exact .inl ⟨rfl, exists_drift_of_notFound hFind fun hContent => h hContent hFind⟩
      · exact .inr ⟨_, by decide, hText, fail_alike_of_readText (by decide) hText⟩
      · exact .inr ⟨_, by decide, hText, fail_alike_of_readText (by decide) hText⟩
    | ok found =>
      obtain ⟨location, - | content⟩ := found
      · have hText : tree.readText unit.output = .error .isADirectory := by
          rw [Tree.readText, hFind]
          rfl
        exact .inr ⟨_, by decide, hText, fail_alike_of_readText (by decide) hText⟩
      · rw [Tree.isFile, hFind] at hNoFile
        cases hNoFile

/-- A definition of one constant, and a file in the place of the output directory. -/
def blockedTree : Tree where
  entries :=
    [(["labels.json"], .file (.text
      "\x7b\"class\":\"Labels\",\"type\":\"in-place\",\"data\":\x7b\"k\":\"v\"\x7d\x7d")),
     (["gen"], .file (.text "mine"))]

/-- A file below the output directory, with a given content. -/
def listedUnit (content : String) : RenderedUnit where
  definition := ⟨"labels.json"⟩
  output := ⟨"gen/Labels.txt"⟩
  content := content

/-- Where the output directory is not there, the file is missing and is written. -/
theorem detectDrift_agrees_with_writeUnit_listed :
    detectDrift {} (listedUnit "K\n") ≠ .ok none ∧
      (writeUnit {} (listedUnit "K\n")).2 ≠ .ok false ∧
      ∃ drift : Drift, detectDrift {} (listedUnit "K\n") = .ok (some drift) ∧
        drift.kind = .missing := by
  have hContent : (listedUnit "K\n").content = "" →
      Tree.find {} (listedUnit "K\n").output ≠ .error .notFound := by
    decide
  obtain ⟨hAgree, hMissing⟩ := detectDrift_agrees_with_writeUnit hContent
  obtain ⟨-, drift, hDrift, -, hKind⟩ | ⟨reason, hReason, hText, -⟩ := hMissing (by decide)
  · have hFound : detectDrift {} (listedUnit "K\n") ≠ .ok none := by
      rw [hDrift]
      simp
    exact ⟨hFound, mt hAgree.mpr hFound, drift, hDrift, hKind⟩
  · have hAbsent : Tree.readText {} (listedUnit "K\n").output = .error .notFound := by rfl
    cases hAbsent.symm.trans hText
    exact absurd hReason (by decide)

/-- A file that does not exist need not be reported as missing: where a file is in the place of its
directory, the comparison fails. And a file that should be empty and is not found counts as up to
date, although it is written. -/
theorem detectDrift_disagrees_blocked :
    (blockedTree.contains (listedUnit "K\n").output = false ∧
        detectDrift blockedTree (listedUnit "K\n") =
          .error (.tree (listedUnit "K\n").output .notADirectory)) ∧
      detectDrift {} (listedUnit "") = .ok none ∧
        (writeUnit {} (listedUnit "")).2 = .ok true := by
  have hBlocked : blockedTree.readText (listedUnit "K\n").output = .error .notADirectory := by
    decide
  have hAbsent : Tree.find {} (listedUnit "").output = .error .notFound := by decide
  refine ⟨⟨by decide, ?_⟩, ?_, by decide⟩
  · exact detectDrift_eq_error_iff.mpr ⟨.notADirectory, by decide, hBlocked, rfl⟩
  · exact detectDrift_eq_none_iff.mpr (.inr ⟨hAbsent, rfl⟩)

/-! ## Where a check fails -/

/-- The file of a turn is there, but holds bytes that are no text. -/
def Turn.Garbled (compiler : Compiler) (turn : Turn) : Prop :=
  ∃ unit raw, turn.compiled compiler = .ok unit ∧
    turn.before.find unit.output = .ok (turn.before.locate unit.output, .file (.bytes raw))

theorem Turn.garbled_iff {turn : Turn} (h : turn.compiled compiler = .ok unit) :
    turn.Garbled compiler ↔ turn.before.readText unit.output = .error .notText := by
  rw [Tree.readText_eq_notText_iff]
  constructor
  · rintro ⟨other, raw, hOther, hFind⟩
    cases hOther.symm.trans h
    exact ⟨raw, hFind⟩
  · rintro ⟨raw, hFind⟩
    exact ⟨unit, raw, h, hFind⟩

theorem Turn.not_garbled_of_find (turn : Turn) {output : Path} {reason : TreeFault}
    (hOutput : (turn.compiled compiler).toOption.map (·.output) = some output)
    (hFind : turn.before.find output = .error reason) : ¬turn.Garbled compiler := by
  rintro ⟨unit, raw, hUnit, hGarbled⟩
  obtain ⟨own, hOwn, rfl⟩ := Checked.map_toOption_eq_some_iff.mp hOutput
  cases hOwn.symm.trans hUnit
  cases hFind.symm.trans hGarbled

theorem Turn.outcome_eq_of_compiled {turn : Turn} (h : turn.compiled compiler = .ok unit) :
    turn.outcome compiler = match (writeUnit turn.before unit).2 with
      | .ok true => .written unit.output
      | .ok false => .unchanged unit.output
      | .error fault => .failed ⟨turn.definition, turn.mode, fault⟩ := by
  rw [compiled] at h
  unfold outcome generateUnit
  rw [h]
  dsimp only
  rcases writeUnit turn.before unit with ⟨after, fault | - | -⟩ <;> rfl

/-- Where a check of a definition fails, a turn over it fails, too, unless its file is garbled. -/
theorem Turn.exists_failure_iff (turn : Turn) (hTree : turn.before.WellFormed) {failure : Failure}
    (hCheck : checkUnit compiler turn.before turn.definition turn.mode = .failed failure) :
    (∃ other, turn.outcome compiler = .failed other) ↔ ¬turn.Garbled compiler := by
  cases hCompiled : turn.compiled compiler with
  | error fault =>
    refine iff_of_true ⟨_, outcome_of_refused hCompiled⟩ ?_
    rintro ⟨unit, raw, hUnit, -⟩
    cases hCompiled.symm.trans hUnit
  | ok unit =>
    rw [checkUnit_of_compiled hCompiled] at hCheck
    split at hCheck
    · next fault hDrift =>
      obtain ⟨reason, hFound, hText, -⟩ := detectDrift_eq_error_iff.mp hDrift
      rw [garbled_iff hCompiled, outcome_eq_of_compiled hCompiled, hText, Except.error.injEq]
      by_cases hBytes : reason = .notText
      · rw [hBytes] at hText
        rw [writeUnit_of_notText hTree hText]
        exact iff_of_false nofun fun h => h hBytes
      · obtain ⟨other, hWritten⟩ := exists_fault_of_writeUnit hText hFound hBytes
        rw [hWritten]
        exact iff_of_true ⟨_, rfl⟩ hBytes
    · cases hCheck
    · cases hCheck

/-- The file that a turn writes has drifted before, unless it is garbled. -/
theorem Turn.exists_drift_of_written (turn : Turn) (hWriter : compiler.writer = .source)
    {output : Path} (hWritten : turn.outcome compiler = .written output)
    (hWhole : ¬turn.Garbled compiler) :
    ∃ drift : Drift, drift.output = output ∧
      checkUnit compiler turn.before turn.definition turn.mode = .drifted drift := by
  obtain ⟨unit, hCompiled, rfl, -⟩ := exists_of_reported (.inl hWritten)
  rw [outcome_eq_of_compiled hCompiled] at hWritten
  rw [checkUnit_of_compiled hCompiled]
  cases hText : turn.before.readText unit.output with
  | ok existing =>
    have hDiffers : existing ≠ unit.content := by
      rintro rfl
      rw [writeUnit_eq_false_iff.mpr hText] at hWritten
      cases hWritten
    obtain ⟨drift, hOutput, -, hDrift⟩ := exists_drift_of_readText hText hDiffers
    rw [hDrift]
    exact ⟨drift, hOutput, rfl⟩
  | error reason =>
    by_cases hFound : reason = .notFound
    · rw [hFound] at hText
      obtain ⟨drift, hDrift, hOutput, -⟩ := exists_drift_of_notFound
        (Tree.readText_eq_notFound_iff.mp hText) (Compiler.content_ne_empty hWriter hCompiled)
      rw [hDrift]
      exact ⟨drift, hOutput, rfl⟩
    · -- Nothing else that keeps a file from being read lets it be written.
      have hBytes : reason ≠ .notText := by
        rintro rfl
        exact hWhole ((garbled_iff hCompiled).mpr hText)
      obtain ⟨fault, hFault⟩ := exists_fault_of_writeUnit hText hFound hBytes
      rw [hFault] at hWritten
      cases hWritten

/-- A check of a definition whose file is garbled fails. -/
theorem Turn.checkUnit_of_garbled (turn : Turn) {output : Path}
    (hWritten : turn.outcome compiler = .written output) (hGarbled : turn.Garbled compiler) :
    checkUnit compiler turn.before turn.definition turn.mode =
      .failed ⟨turn.definition, turn.mode, .tree output .notText⟩ := by
  obtain ⟨unit, hCompiled, rfl, -⟩ := exists_of_reported (.inl hWritten)
  rw [checkUnit_of_compiled hCompiled, detectDrift_eq_error_iff.mpr
    ⟨.notText, nofun, (garbled_iff hCompiled).mp hGarbled, rfl⟩]

theorem checkUnit_failed_names {definition : Path} {mode : Mode} {failure : Failure}
    (h : checkUnit compiler tree definition mode = .failed failure) :
    failure.definition = definition ∧ failure.mode = mode := by
  unfold checkUnit at h
  split at h
  · cases h
    exact ⟨rfl, rfl⟩
  · split at h <;> cases h
    exact ⟨rfl, rfl⟩

theorem mem_failures_check {manifest : Manifest} {failure : Failure} :
    failure ∈ (check compiler tree manifest).failures ↔
      (failure.definition, failure.mode) ∈ manifest.units ∧
        checkUnit compiler tree failure.definition failure.mode = .failed failure := by
  refine List.mem_filterMap.trans ⟨?_, ?_⟩
  · rintro ⟨finding, hFinding, hSome⟩
    obtain ⟨⟨definition, mode⟩, hUnit, hCheck⟩ := List.mem_map.mp hFinding
    cases finding with
    | failed own =>
      cases hSome
      obtain ⟨rfl, rfl⟩ := checkUnit_failed_names hCheck
      exact ⟨hUnit, hCheck⟩
    | upToDate _ => cases hSome
    | drifted _ => cases hSome
  · rintro ⟨hUnit, hCheck⟩
    exact ⟨.failed failure, List.mem_map.mpr ⟨_, hUnit, hCheck⟩, rfl⟩

theorem mem_drift_check {manifest : Manifest} {definition : Path} {mode : Mode} {drift : Drift}
    (hUnit : (definition, mode) ∈ manifest.units)
    (hCheck : checkUnit compiler tree definition mode = .drifted drift) :
    drift ∈ (check compiler tree manifest).drift :=
  List.mem_filterMap.mpr ⟨.drifted drift, List.mem_map.mpr ⟨_, hUnit, hCheck⟩, rfl⟩

/-- Where a check records a failure, a run over the definition on the same tree fails, too, exactly
unless the file is there and garbled. And a file that the run writes is reported as drifted, unless
it is there and garbled: then the check records a failure. -/
theorem outcome_failed_of_check_iff (hTree : tree.WellFormed) (manifest : Manifest) :
    (∀ failure ∈ (check compiler tree manifest).failures,
        (∃ other, Turn.outcome compiler ⟨tree, failure.definition, failure.mode⟩ = .failed other) ↔
          ¬Turn.Garbled compiler ⟨tree, failure.definition, failure.mode⟩) ∧
      (compiler.writer = .source → ∀ definition mode output,
        (definition, mode) ∈ manifest.units →
          Turn.outcome compiler ⟨tree, definition, mode⟩ = .written output →
            (¬Turn.Garbled compiler ⟨tree, definition, mode⟩ →
              ∃ drift ∈ (check compiler tree manifest).drift, drift.output = output) ∧
            (Turn.Garbled compiler ⟨tree, definition, mode⟩ →
              ⟨definition, mode, .tree output .notText⟩ ∈
                (check compiler tree manifest).failures)) := by
  refine ⟨fun failure hFailure => ?_, fun hWriter definition mode output hUnit hWritten => ?_⟩
  · exact Turn.exists_failure_iff ⟨tree, failure.definition, failure.mode⟩ hTree
      (mem_failures_check.mp hFailure).2
  · refine ⟨fun hWhole => ?_, fun hGarbled => ?_⟩
    · obtain ⟨drift, hOutput, hCheck⟩ :=
        Turn.exists_drift_of_written ⟨tree, definition, mode⟩ hWriter hWritten hWhole
      exact ⟨drift, mem_drift_check hUnit hCheck, hOutput⟩
    · exact mem_failures_check.mpr
        ⟨hUnit, Turn.checkUnit_of_garbled ⟨tree, definition, mode⟩ hWritten hGarbled⟩

/-- Where a file is in the place of the output directory, the check and the run fail. Where nothing
is there, the run writes the file, and the check reports it. -/
theorem outcome_failed_of_check_blocked :
    (∃ other, Turn.outcome appCompiler ⟨blockedTree, ⟨"labels.json"⟩, .constants⟩ =
        .failed other) ∧
      ∃ drift ∈ (check appCompiler (blockedTree.erase ["gen"]) tablesManifest).drift,
        drift.output = ⟨"gen/labels.rs"⟩ := by
  have hOutput : ∀ tree ∈ [blockedTree, blockedTree.erase ["gen"]],
      (appCompiler.compileUnit tree ⟨"labels.json"⟩ .constants).toOption.map (·.output) =
        some ⟨"gen/labels.rs"⟩ := by
    decide +kernel
  have hBlocked : blockedTree.find ⟨"gen/labels.rs"⟩ = .error .notADirectory := by decide
  have hAbsent : (blockedTree.erase ["gen"]).find ⟨"gen/labels.rs"⟩ = .error .notFound := by decide
  have hFailure : ⟨⟨"labels.json"⟩, .constants, .tree ⟨"gen/labels.rs"⟩ .notADirectory⟩ ∈
      (check appCompiler blockedTree tablesManifest).failures := by
    decide +kernel
  have hWritten : Turn.outcome appCompiler ⟨blockedTree.erase ["gen"], ⟨"labels.json"⟩,
      .constants⟩ = .written ⟨"gen/labels.rs"⟩ := by
    decide +kernel
  constructor
  · exact ((outcome_failed_of_check_iff (by decide) tablesManifest).1 _ hFailure).mpr
      (Turn.not_garbled_of_find ⟨blockedTree, ⟨"labels.json"⟩, .constants⟩
        (hOutput _ (by simp)) hBlocked)
  · exact ((outcome_failed_of_check_iff (by decide) tablesManifest).2 rfl _ _ _ (by decide)
      hWritten).1 (Turn.not_garbled_of_find ⟨blockedTree.erase ["gen"], ⟨"labels.json"⟩,
        .constants⟩ (hOutput _ (by simp)) hAbsent)

/-- A file that is garbled makes the check fail, but the run writes it over. -/
theorem outcome_written_of_check_garbled :
    (check appCompiler tablesTree tablesManifest).failures =
        [⟨⟨"labels.json"⟩, .constants, .tree ⟨"gen/labels.rs"⟩ .notText⟩] ∧
      Turn.outcome appCompiler ⟨tablesTree, ⟨"labels.json"⟩, .constants⟩ =
        .written ⟨"gen/labels.rs"⟩ := by
  exact ⟨by decide +kernel, by decide +kernel⟩

end ResourceTables
