import ResourceTables.Proofs.GeneratedModule.WellScoped
import ResourceTables.Proofs.Identifier.Spelling
import ResourceTables.Proofs.Text.OneLine

/-!
# Lines of a generated file

A generated file is made of lines, and these are its physical lines if every text that is written
into one is on one line. What is claimed in a scope is on one line, and so is the name of a version,
because its constant keeps a line feed. The name of the definition file, the module path and the
names of tables are written as they are.

## Main definitions

* `GeneratedModule.lines`: the lines that a file is made of.
* `GeneratedModule.WellNamed`: what a description promises about names.
* `GeneratedModule.RawOneLine`: the texts that nothing is promised about are on one line.
-/

namespace ResourceTables

open Text

variable {shown : Char → Bool}

namespace GeneratedModule

/-- The lines of the header. -/
def headerLines (generated : GeneratedModule) : List String :=
  ["//! Generated by resgen from " ++ generated.sourceName ++ " - DO NOT EDIT",
   "//!",
   "//! Module path: " ++ "::".intercalate (generated.namespacePath ++ [generated.moduleName]),
   (Fingerprint.of generated.body).headerLine,
   ""]

/-- The lines that a file is made of. -/
def lines (generated : GeneratedModule) : List String :=
  generated.headerLines ++ generated.bodyLines

theorem render_eq_unlines (generated : GeneratedModule) :
    generated.render = unlines generated.lines := by
  have hHeader : generated.header (.of generated.body) = unlines generated.headerLines := rfl
  rw [render, hHeader, body, bodyShowing, ← String.toList_inj, String.toList_append]
  simp only [toList_unlines, lines, bodyLines, List.flatMap_append]

/-- What a description promises about names: those of types and constants are identifiers, and
those of versions are on one line. -/
structure WellNamed (generated : GeneratedModule) : Prop where
  className : isIdentifier generated.className = true
  constants : ∀ constant ∈ generated.constants, isIdentifier constant.name = true
  keyModules : ∀ keys ∈ generated.keyModules, isIdentifier keys.name = true ∧
    ∀ constant ∈ keys.constants, isIdentifier constant.name = true
  versions : ∀ lookup, generated.lookup? = some lookup →
    ∀ row ∈ lookup.table.rows, OneLine row.name

/-- The texts that nothing is promised about are on one line: the name of the definition file, the
module path and the names of tables. -/
structure RawOneLine (generated : GeneratedModule) : Prop where
  source : OneLine generated.sourceName
  namespacePath : ∀ segment ∈ generated.namespacePath, OneLine segment
  tables : ∀ keys ∈ generated.keyModules, OneLine keys.table

end GeneratedModule

/-! ## Names of a description -/

theorem oneLine_of_isIdentifier {name : String} (h : isIdentifier name = true) : OneLine name :=
  fun hFeed => absurd (isWordPart_of_mem_identifier h hFeed) (by decide)

/-- The name of a version is on one line if its constant is an identifier. -/
theorem oneLine_of_versionIdentifier {naming : Naming} {version : String}
    (h : isIdentifier (naming.versionIdentifier version) = true) : OneLine version := by
  intro hFeed
  have hOneLine := oneLine_of_isIdentifier h
  rw [Naming.versionIdentifier, oneLine_append] at hOneLine
  exact hOneLine.2 (lineFeed_mem_constantCase hFeed)

/-- The names in the scopes of a module can be spelled. -/
theorem GeneratedModule.WellScoped.wellNamed {generated : GeneratedModule}
    (h : generated.WellScoped)
    (hVersions : ∀ lookup, generated.lookup? = some lookup →
      ∀ row ∈ lookup.table.rows, OneLine row.name) : generated.WellNamed := by
  have hTypes := List.forall_mem_cons.mp h.types.1
  exact {
    className := hTypes.1
    constants := List.forall_mem_map.mp h.constants.1
    keyModules := fun keys hKeys =>
      ⟨List.forall_mem_map.mp hTypes.2 keys hKeys, List.forall_mem_map.mp (h.fields keys hKeys).1⟩
    versions := hVersions }

theorem wellNamed_of_describeConstants {definition : Definition} {source : Source}
    {generated : GeneratedModule} (h : describeConstants definition source = .ok generated) :
    generated.WellNamed := by
  refine (wellScoped_of_describeConstants h).wellNamed ?_
  obtain ⟨entries, -, -, -, rfl⟩ := describeConstants_eq_ok_iff.mp h
  rintro lookup ⟨⟩

theorem wellNamed_of_describeValues {naming : Naming} {definition : Definition}
    {canonical : Canonical} {table : ReconciledTable} {defaultVersion : String}
    {generated : GeneratedModule}
    (h : describeValues naming definition canonical table defaultVersion = .ok generated) :
    generated.WellNamed := by
  refine (wellScoped_of_describeValues h).wellNamed ?_
  obtain ⟨-, ⟨hConstants, -⟩, -, -, rfl⟩ := describeValues_eq_ok_iff.mp h
  rintro lookup ⟨⟩ row hRow
  -- Nothing else is known of a version than that its constant was claimed.
  rw [map_name_classConstants, List.forall_mem_append, List.forall_mem_map,
    List.forall_mem_map] at hConstants
  exact oneLine_of_versionIdentifier (hConstants.2 row.name (List.mem_map_of_mem hRow))

/-- Every description keeps its promise about names. -/
theorem wellNamed_of_describe {naming : Naming} {definition : Definition}
    {generated : GeneratedModule} (h : describe naming definition = .ok generated) :
    generated.WellNamed := by
  rw [describe] at h
  split at h
  · exact wellNamed_of_describeConstants h
  · obtain ⟨⟨canonical, table⟩, -, hDescribe⟩ := Checked.bind_eq_ok.mp h
    exact wellNamed_of_describeValues hDescribe

/-! ## Lines that are on one line -/

theorem isAlphanum_of_mem_hex {bytes : List UInt8} {c : Char}
    (h : c ∈ (Sha256.hex bytes).toList) : c.isAlphanum = true := by
  rw [Sha256.hex, String.toList_ofList, List.mem_flatMap] at h
  obtain ⟨word, -, hWord⟩ := h
  rcases List.mem_append.mp hWord with hZero | hDigit
  · rw [List.eq_of_mem_replicate hZero]
    decide
  · exact isAlphanum_of_mem_toDigits (by decide) hDigit

theorem oneLine_hex (bytes : List UInt8) : OneLine (Sha256.hex bytes) :=
  fun hFeed => absurd (isAlphanum_of_mem_hex hFeed) (by decide)

theorem oneLine_snakeCase {name : String} (h : OneLine name) : OneLine (snakeCase name) := by
  rw [OneLine, snakeCase, String.toList_ofList]
  exact notMem_partWords (by decide) (by decide) h false

theorem oneLine_constant {constant : Constant} (h : isIdentifier constant.name = true) :
    OneLine (constant.line shown) := by
  have hName := oneLine_of_isIdentifier h
  rw [Constant.line]
  split <;> simp only [oneLine_append, oneLine_toString, oneLine_quote, hName] <;> decide

theorem forall_oneLine_row {row : VersionRow} (h : OneLine row.name) :
    ∀ line ∈ row.lines shown, OneLine line := by
  simp +decide only [VersionRow.lines, List.forall_mem_append, List.forall_mem_cons,
    List.forall_mem_map, oneLine_append, oneLine_quote, h, implies_true, and_true]

theorem forall_oneLine_table {lookup : Lookup} (h : ∀ row ∈ lookup.table.rows, OneLine row.name) :
    ∀ line ∈ lookup.tableLines shown, OneLine line := by
  have hRows : ∀ line ∈ lookup.table.rows.flatMap (VersionRow.lines shown), OneLine line := by
    rw [List.forall_mem_flatMap]
    exact fun row hRow => forall_oneLine_row (h row hRow)
  have hAllowed : OneLine (", ".intercalate (lookup.allowedVersions.map (quote shown))) := by
    rw [oneLine_intercalate_iff (by decide), List.forall_mem_map]
    exact fun version _ => oneLine_quote shown version
  simp +decide only [Lookup.tableLines, List.forall_mem_append, List.forall_mem_cons,
    oneLine_append, oneLine_quote, oneLine_toString, hAllowed, and_true, true_and]
  exact hRows

/-- The type of the keys of a table is on its lines exactly if the name of the table is on one. -/
theorem forall_oneLine_keyModule_iff {keys : KeyModule} {className : String}
    (hClass : OneLine className) (hName : isIdentifier keys.name = true)
    (hConstants : ∀ constant ∈ keys.constants, isIdentifier constant.name = true) :
    (∀ line ∈ keys.lines shown className, OneLine line) ↔ OneLine keys.table := by
  have hOwn := oneLine_of_isIdentifier hName
  have hLines : ∀ constant ∈ keys.constants, OneLine (constant.line shown) :=
    fun constant hConstant => oneLine_constant (hConstants constant hConstant)
  simp +decide only [KeyModule.lines, implementation, List.forall_mem_append, List.forall_mem_cons,
    List.forall_mem_map, oneLine_append, hOwn, hClass, and_true, true_and]
  exact and_iff_left hLines

theorem forall_oneLine_functions : ∀ line ∈ lookupFunctions, OneLine line := by
  simp only [lookupFunctions, List.forall_mem_cons, List.not_mem_nil, false_implies, implies_true,
    and_true]
  repeat' apply And.intro
  all_goals exact (oneLine_ofList _).mpr (by decide)

theorem forall_oneLine_members {generated : GeneratedModule} (hNamed : generated.WellNamed) :
    ∀ line ∈ generated.membersShowing shown, OneLine line := by
  rw [GeneratedModule.membersShowing, List.forall_mem_append, List.forall_mem_map]
  refine ⟨fun constant hConstant => oneLine_constant (hNamed.constants constant hConstant), ?_⟩
  cases hLookup : generated.lookup? with
  | none => exact fun line hLine => absurd hLine List.not_mem_nil
  | some lookup =>
    have hTable : ∀ line ∈ lookup.tableLines shown, OneLine line :=
      forall_oneLine_table (hNamed.versions lookup hLookup)
    rw [List.forall_mem_append, List.forall_mem_append, List.forall_mem_append]
    exact ⟨⟨⟨by decide, hTable⟩, by decide⟩, forall_oneLine_functions⟩

theorem forall_oneLine_header_iff {generated : GeneratedModule}
    (hClass : OneLine generated.className) :
    (∀ line ∈ generated.headerLines, OneLine line) ↔
      OneLine generated.sourceName ∧ ∀ segment ∈ generated.namespacePath, OneLine segment := by
  have hModule : OneLine generated.moduleName := oneLine_snakeCase hClass
  have hFingerprint : OneLine (Fingerprint.of generated.body).hex := oneLine_hex _
  simp +decide only [GeneratedModule.headerLines, Fingerprint.headerLine, List.forall_mem_append,
    List.forall_mem_cons, oneLine_append, oneLine_intercalate_iff, hModule, hFingerprint, and_true,
    true_and]

/-- The lines of the body are the declaration of the class under a fixed heading, and the key
types. -/
theorem exists_heading (generated : GeneratedModule) :
    ∃ heading ∈ ["/// Versioned resource values", "/// Resource constants"],
      generated.bodyLines = [heading, "pub struct " ++ generated.className ++ ";", ""] ++
        implementation generated.className generated.members ++
        generated.keyModules.flatMap fun keys => keys.lines isPrintable generated.className := by
  rw [GeneratedModule.bodyLines, GeneratedModule.bodyLinesShowing]
  cases generated.lookup? with
  | none => exact ⟨_, List.mem_cons_of_mem _ List.mem_cons_self, rfl⟩
  | some lookup => exact ⟨_, List.mem_cons_self, rfl⟩

/-- The lines of a file are on one line each exactly if the texts are that nothing is promised
about. -/
theorem forall_oneLine_lines_iff {generated : GeneratedModule} (hNamed : generated.WellNamed) :
    (∀ line ∈ generated.lines, OneLine line) ↔ generated.RawOneLine := by
  have hClass := oneLine_of_isIdentifier hNamed.className
  have hTables : (∀ line ∈ generated.keyModules.flatMap
      (fun keys => keys.lines isPrintable generated.className), OneLine line) ↔
      ∀ keys ∈ generated.keyModules, OneLine keys.table := by
    rw [List.forall_mem_flatMap]
    refine forall₂_congr fun keys hKeys => ?_
    obtain ⟨hName, hConstants⟩ := hNamed.keyModules keys hKeys
    exact forall_oneLine_keyModule_iff hClass hName hConstants
  obtain ⟨heading, hMem, hBody⟩ := exists_heading generated
  have hHeadings : ∀ heading ∈ ["/// Versioned resource values", "/// Resource constants"],
      OneLine heading := by decide
  -- The class itself holds no raw text: only the header and the key types depend on the condition.
  have hClassLines : ∀ line ∈ [heading, "pub struct " ++ generated.className ++ ";", ""] ++
      implementation generated.className generated.members, OneLine line := by
    have hHeading := hHeadings heading hMem
    have hMembers : ∀ line ∈ generated.members, OneLine line := forall_oneLine_members hNamed
    simp +decide only [implementation, List.forall_mem_append, List.forall_mem_cons,
      oneLine_append, hHeading, hClass, and_true, true_and]
    exact hMembers
  rw [GeneratedModule.lines, List.forall_mem_append, forall_oneLine_header_iff hClass, hBody,
    List.forall_mem_append, hTables]
  constructor
  · rintro ⟨⟨hSource, hPath⟩, -, hNames⟩
    exact ⟨hSource, hPath, hNames⟩
  · rintro ⟨hSource, hPath, hNames⟩
    exact ⟨⟨hSource, hPath⟩, hClassLines, hNames⟩

end ResourceTables
