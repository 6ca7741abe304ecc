import ResourceTables.GeneratedModule.Rendering
import ResourceTables.Proofs.GeneratedModule.WellScoped
import ResourceTables.Proofs.Identifier.RegularNames
import ResourceTables.Proofs.Path.Stems

/-!
# Names of modules

The name of a module, which is the stem of its file and ends its module path, is that of the class
with words apart. Only the class is claimed when a module is described, and `Type` can be spelled
although `type` cannot. The name of the module can be spelled unless the class raises a reserved
word. Regular classes have files that tell them apart.

## Main results

* `isIdentifier_moduleName_iff`: which modules have names that can be spelled.
* `snakeCase_regular`: regular class names are read off the names of their modules.
-/

namespace ResourceTables

open Text

/-! ## Names that can be spelled -/

namespace GeneratedModule

variable {generated : GeneratedModule}

theorem WellScoped.isIdentifier_className (h : generated.WellScoped) :
    isIdentifier generated.className = true :=
  h.types.1 generated.className List.mem_cons_self

/-- The name of the module is what the name of its file has in front of the extension. -/
theorem WellScoped.stem?_fileName (h : generated.WellScoped) :
    Path.stem? ⟨Writer.source.fileName generated⟩ = some generated.moduleName := by
  have hName : generated.moduleName ≠ "" := by
    intro hNone
    have hText : partWords false generated.className.toList = [] := by
      rw [← String.toList_inj, moduleName, snakeCase, String.toList_ofList] at hNone
      exact hNone
    rw [partWords_eq_nil_iff] at hText
    have hClass := h.isIdentifier_className
    rw [isIdentifier, hText] at hClass
    cases hClass
  have hSlash : '/' ∉ generated.moduleName.toList :=
    notMem_snakeCase h.isIdentifier_className (by decide)
  have hFile : Writer.source.fileName generated = generated.moduleName ++ "." ++ "rs" := by
    rw [String.append_assoc]
    rfl
  rw [hFile, Path.stem?_append hName hSlash (by decide) (by decide) (by decide)]

end GeneratedModule

/-- Where a module is described, be it of versions or of constants, its name is the stem of its
file, and can be spelled exactly if the class does not raise a reserved word. -/
theorem isIdentifier_moduleName_iff {definition : Definition} {generated : GeneratedModule} :
    (∀ {naming : Naming} {canonical : Canonical} {table : ReconciledTable}
      {defaultVersion : String},
      describeValues naming definition canonical table defaultVersion = .ok generated →
      Path.stem? ⟨Writer.source.fileName generated⟩ = some generated.moduleName ∧
        (isIdentifier generated.moduleName = true ↔ ¬RaisesReserved generated.className)) ∧
    ∀ {source : Source}, describeConstants definition source = .ok generated →
      Path.stem? ⟨Writer.source.fileName generated⟩ = some generated.moduleName ∧
        (isIdentifier generated.moduleName = true ↔ ¬RaisesReserved generated.className) := by
  have hScoped : generated.WellScoped →
      Path.stem? ⟨Writer.source.fileName generated⟩ = some generated.moduleName ∧
        (isIdentifier generated.moduleName = true ↔ ¬RaisesReserved generated.className) :=
    fun h => ⟨h.stem?_fileName, isIdentifier_snakeCase_iff h.isIdentifier_className⟩
  exact ⟨fun h => hScoped (wellScoped_of_describeValues h),
    fun h => hScoped (wellScoped_of_describeConstants h)⟩

/-- Texts in one version, under a class. -/
def plainTexts (className : String) : Definition where
  source := ⟨"texts.json"⟩
  className := className
  namespacePath := ["app"]
  addedNamespace := []
  kind := .inline
  versionPrefix := none
  body := .values [("en", .literal [("a", "1")])] "en"

/-- The class `TypeNames` raises no reserved word, so its module can be named, and `MOd` raises
one. -/
theorem isIdentifier_moduleName_plainTexts :
    (∃ canonical table generated,
      reconcile [("en", .literal [("a", "1")])] "en" = .ok (canonical, table) ∧
      describeValues {} (plainTexts "TypeNames") canonical table "en" = .ok generated ∧
      Path.stem? ⟨Writer.source.fileName generated⟩ = some "type_names" ∧
      isIdentifier generated.moduleName = true) ∧
    ∃ generated, describeConstants (plainTexts "MOd") (.list ["a"]) = .ok generated ∧
      isIdentifier generated.moduleName = false := by
  obtain ⟨canonical, table, generated, hReconcile, hClass, hDescribe⟩ :
      ∃ canonical table generated,
        reconcile [("en", .literal [("a", "1")])] "en" = .ok (canonical, table) ∧
        generated.className = "TypeNames" ∧
        describeValues {} (plainTexts "TypeNames") canonical table "en" = .ok generated :=
    ⟨_, _, _, rfl, rfl, rfl⟩
  obtain ⟨constants, hOther, hConstants⟩ : ∃ generated, generated.className = "MOd" ∧
      describeConstants (plainTexts "MOd") (.list ["a"]) = .ok generated := ⟨_, rfl, rfl⟩
  obtain ⟨hStem, hSpelled⟩ := isIdentifier_moduleName_iff.1 hDescribe
  obtain ⟨-, hRaised⟩ := isIdentifier_moduleName_iff.2 hConstants
  rw [hClass] at hSpelled
  rw [hOther] at hRaised
  refine ⟨⟨canonical, table, generated, hReconcile, hDescribe, ?_,
    hSpelled.mpr (by decide)⟩, constants, hConstants, ?_⟩
  · rw [hStem, GeneratedModule.moduleName, hClass]
    decide
  · rw [Bool.eq_false_iff, ne_eq, hRaised, not_not]
    decide

/-- A class that is accepted has a module whose name is a reserved word. -/
theorem not_isIdentifier_moduleName_type :
    ∃ canonical table generated,
      reconcile [("en", .literal [("a", "1")])] "en" = .ok (canonical, table) ∧
      describeValues {} (plainTexts "Type") canonical table "en" = .ok generated ∧
      generated.moduleName = "type" ∧ isIdentifier generated.moduleName = false :=
  ⟨_, _, _, rfl, rfl, by decide, by decide⟩

/-! ## Regular names -/

theorem moduleName_of_fileName {generated other : GeneratedModule}
    (h : Writer.source.fileName generated = Writer.source.fileName other) :
    generated.moduleName = other.moduleName := by
  have hText : generated.moduleName ++ ".rs" = other.moduleName ++ ".rs" := h
  exact (String.append_left_inj ".rs").mp hText

/-- A regular class name has a module name of the words of the class in lower case, with underscores
between them, and is read off it as a type name is read off a key. So two modules of regular classes
have one file name only if the classes have one name. -/
theorem snakeCase_regular :
    (∀ {words : List String}, CapitalWords words →
      snakeCase (String.join words) = "_".intercalate (words.map toLower) ∧
        pascalCase (snakeCase (String.join words)) = String.join words) ∧
    ∀ {generated other : GeneratedModule} {words others : List String},
      CapitalWords words → generated.className = String.join words →
      CapitalWords others → other.className = String.join others →
      Writer.source.fileName generated = Writer.source.fileName other →
      generated.className = other.className := by
  refine ⟨fun h => ⟨snakeCase_join h, pascalCase_snakeCase_join h⟩, ?_⟩
  intro generated other words others hWords hClass hOthers hOther hFile
  have hModule : snakeCase (String.join words) = snakeCase (String.join others) := by
    rw [← hClass, ← hOther]
    exact moduleName_of_fileName hFile
  calc generated.className
      = pascalCase (snakeCase (String.join words)) := by
        rw [pascalCase_snakeCase_join hWords, hClass]
    _ = pascalCase (snakeCase (String.join others)) := by rw [hModule]
    _ = other.className := by rw [pascalCase_snakeCase_join hOthers, hOther]

/-- Words with digits in them, and a single letter at the end. -/
theorem snakeCase_regular_http2 :
    snakeCase "Http2ErrorsA1B" = "http2_errors_a1_b" ∧
      pascalCase "http2_errors_a1_b" = "Http2ErrorsA1B" ∧
      ∀ generated other : GeneratedModule, generated.className = "Http2ErrorsA1B" →
        other.className = "Http2ErrorsA1b" →
        Writer.source.fileName generated ≠ Writer.source.fileName other := by
  have hWords : CapitalWords ["Http2", "Errors", "A1", "B"] :=
    .cons (by decide) (by decide) (.cons (by decide) (by decide)
      (.cons (by decide) (by decide) (.last (by decide))))
  have hOthers : CapitalWords ["Http2", "Errors", "A1b"] :=
    .cons (by decide) (by decide) (.cons (by decide) (by decide) (.last (by decide)))
  have hClass : String.join ["Http2", "Errors", "A1", "B"] = "Http2ErrorsA1B" := by decide
  have hParted : "_".intercalate (["Http2", "Errors", "A1", "B"].map toLower) =
      "http2_errors_a1_b" := by
    decide
  obtain ⟨hSnake, hPascal⟩ := snakeCase_regular.1 hWords
  rw [hParted, hClass] at hSnake
  rw [hClass, hSnake] at hPascal
  refine ⟨hSnake, hPascal, fun generated other hGenerated hOther hFile => ?_⟩
  have hSame := snakeCase_regular.2 hWords (hGenerated.trans hClass.symm) hOthers
    (hOther.trans (by decide)) hFile
  rw [hGenerated, hOther] at hSame
  exact absurd hSame (by decide)

end ResourceTables
