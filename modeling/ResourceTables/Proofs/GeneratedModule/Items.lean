import ResourceTables.GeneratedModule.Rendering
import ResourceTables.Proofs.GeneratedModule.Scopes
import ResourceTables.Proofs.Identifier.Spelling
import ResourceTables.Proofs.Text.Occurrences

/-!
# Names of the members of a class

The members of a class are read off its lines: a declaration begins with a keyword, and what follows
up to the first character that no identifier holds is a name. Claimed names differ from each other,
but the names that every class has are not claimed. They clash with a key or a version that spells
one of them, and with nothing else.

## Main definitions

* `itemName?`: the name that a line declares.
* `GeneratedModule.itemNames`: the names of the members of the class.
* `fixedConstants`, `fixedFunctions`: the names that every class of versions has.
-/

namespace ResourceTables

open Text

variable {shown : Char → Bool}

/-- The beginnings of the lines that declare a member. -/
def itemKeywords : List String :=
  ["    pub const ", "    const ", "    pub fn "]

/-- The name that a line declares, if it declares a member. -/
def itemName? (line : String) : Option String :=
  itemKeywords.findSome? fun keyword =>
    (afterStart? keyword.toList line.toList).map fun rest =>
      String.ofList (rest.takeWhile isWordPart)

/-- The names of the members of the class, in order. -/
def GeneratedModule.itemNames (generated : GeneratedModule) : List String :=
  generated.members.filterMap itemName?

/-- The constants that every class of versions has. -/
def fixedConstants : List String :=
  ["DEFAULT_VERSION", "ALLOWED_VERSIONS", "VALUES"]

/-- The functions that every class of versions has. -/
def fixedFunctions : List String :=
  ["get_value", "has_value", "default_version", "is_version_allowed", "allowed_versions"]

/-! ## Reading names off lines -/

theorem takeWhile_isWordPart_append {name : String} (h : isIdentifier name = true) {c : Char}
    (hc : isWordPart c = false) (rest : List Char) :
    (name.toList ++ c :: rest).takeWhile isWordPart = name.toList := by
  rw [List.takeWhile_append_of_pos fun d hd => isWordPart_of_mem_identifier h hd,
    List.takeWhile_cons_of_neg (by simp [hc]), List.append_nil]

theorem itemName?_constant {constant : Constant} (h : isIdentifier constant.name = true) :
    itemName? (constant.line shown) = some constant.name := by
  have hLine : ∃ rest, (constant.line shown).toList =
      "    pub const ".toList ++ (constant.name.toList ++ ':' :: rest) := by
    rw [Constant.line]
    split <;> simp only [String.toList_append, List.append_assoc] <;> exact ⟨_, rfl⟩
  obtain ⟨rest, hRest⟩ := hLine
  rw [itemName?, itemKeywords, List.findSome?_cons, hRest, afterStart?_append, Option.map_some,
    takeWhile_isWordPart_append h (by decide), String.ofList_toList]

/-- The rows of the table of values are indented deeper than members. -/
theorem exists_toList_of_mem_row {row : VersionRow} {line : String} (h : line ∈ row.lines shown) :
    ∃ rest, line.toList = "        ".toList ++ rest := by
  simp only [VersionRow.lines, List.mem_append, List.mem_cons, List.mem_map, List.not_mem_nil,
    or_false] at h
  rcases h with ((rfl | rfl) | ⟨value, -, rfl⟩) | rfl
  · rw [String.toList_append]
    exact ⟨"// ".toList ++ row.name.toList, rfl⟩
  · exact ⟨['['], rfl⟩
  · rw [String.toList_append, String.toList_append, List.append_assoc]
    exact ⟨"    ".toList ++ ((quote shown value).toList ++ [',']), rfl⟩
  · exact ⟨"],".toList, rfl⟩

/-- So they begin like no member. -/
theorem not_keyword_of_mem_row {row : VersionRow} {line : String} (h : line ∈ row.lines shown) :
    ∀ keyword ∈ itemKeywords, ¬keyword.toList <+: line.toList := by
  obtain ⟨rest, hLine⟩ := exists_toList_of_mem_row h
  rw [hLine]
  simp [itemKeywords]

theorem filterMap_itemName?_row (row : VersionRow) :
    (row.lines shown).filterMap itemName? = [] := by
  rw [List.filterMap_eq_nil_iff]
  intro line hLine
  rw [itemName?, List.findSome?_eq_none_iff]
  intro keyword hKeyword
  rw [afterStart?_eq_none_iff.mpr (not_keyword_of_mem_row hLine keyword hKeyword)]
  rfl

theorem filterMap_itemName?_table (lookup : Lookup) :
    (lookup.tableLines shown).filterMap itemName? = fixedConstants := by
  have hRows : (lookup.table.rows.flatMap (VersionRow.lines shown)).filterMap itemName? = [] := by
    rw [List.filterMap_flatMap, List.flatMap_eq_nil_iff]
    exact fun row _ => filterMap_itemName?_row row
  simp only [Lookup.tableLines, List.filterMap_append, hRows, List.filterMap_cons, itemName?,
    String.toList_append]
  rfl

theorem itemNames_eq {generated : GeneratedModule} {lookup : Lookup}
    (hNames : ∀ name ∈ generated.constants.map (·.name), isIdentifier name = true)
    (hLookup : generated.lookup? = some lookup) :
    generated.itemNames =
      generated.constants.map (·.name) ++ (fixedConstants ++ fixedFunctions) := by
  have hConstants : (generated.constants.map (Constant.line isPrintable)).filterMap itemName? =
      generated.constants.map (·.name) := by
    rw [List.filterMap_map, ← List.filterMap_eq_map]
    refine List.filterMap_congr fun constant hConstant => ?_
    exact itemName?_constant (hNames _ (List.mem_map_of_mem hConstant))
  have hFunctions : lookupFunctions.filterMap itemName? = fixedFunctions := by decide +kernel
  rw [GeneratedModule.itemNames, GeneratedModule.members, GeneratedModule.membersShowing, hLookup]
  simp only [List.filterMap_append, hConstants, hFunctions, filterMap_itemName?_table]
  rfl

/-! ## Clashes with the names that every class has -/

/-- The constant of a version is the name of a function only if the prefix is, and the version is
empty. -/
theorem versionIdentifier_mem_fixedFunctions_iff (naming : Naming) (version : String) :
    naming.versionIdentifier version ∈ fixedFunctions ↔
      version = "" ∧ naming.versionPrefix ∈ fixedFunctions := by
  have hSmall : ∀ name ∈ fixedFunctions, name.toList.getLast?.any Char.isLower = true := by
    decide
  constructor
  · intro h
    -- Every function ends in a small letter, which a version in upper case does not.
    have hEmpty : version = "" := by
      by_contra hne
      have hLast := hSmall _ h
      have hUpper : (constantCase version).toList ≠ [] := by
        rw [← String.toList_empty, ne_eq, String.toList_inj, constantCase_eq_empty_iff]
        exact hne
      rw [Naming.versionIdentifier, String.toList_append,
        List.getLast?_append_of_ne_nil _ hUpper, List.getLast?_eq_some_getLast hUpper,
        Option.any_some, isLower_eq_false_of_mem_constantCase (List.getLast_mem hUpper)] at hLast
      cases hLast
    subst hEmpty
    exact ⟨rfl, by simpa [Naming.versionIdentifier, constantCase_eq_empty_iff.mpr] using h⟩
  · rintro ⟨rfl, h⟩
    simpa [Naming.versionIdentifier, constantCase_eq_empty_iff.mpr] using h

/-- The constant of a key is in upper case, hence it is not the name of a function. -/
theorem flatIdentifier_notMem_fixedFunctions (key : String) :
    flatIdentifier key ∉ fixedFunctions := by
  intro h
  have hKey : ({ versionPrefix := "" } : Naming).versionIdentifier key = flatIdentifier key :=
    String.empty_append
  rw [← hKey, versionIdentifier_mem_fixedFunctions_iff] at h
  exact absurd h.2 (by decide)

theorem mem_classClaims_iff (main : Source) (name : String) :
    name ∈ ((Canonical.ofSource main).classClaims (main.keys.map Key.identifier)).map (·.1) ↔
      ∃ key, .flat key ∈ main.keys ∧ name = flatIdentifier key := by
  cases hCanonical : Canonical.ofSource main with
  | flat keys =>
    rw [(keys_eq_of_ofSource_flat hCanonical).1, List.map_map, Canonical.classClaims,
      List.map_fst_zip (by simp)]
    simp [Key.identifier, eq_comm]
  | grouped tables =>
    obtain ⟨own, rfl, -⟩ := eq_grouped_of_ofSource_grouped hCanonical
    simp [Canonical.classClaims, flat_notMem_keys_grouped]

/-- Under the default prefix no version spells one of the constants that every class has. -/
theorem versionIdentifier_notMem_fixedConstants (version : String) :
    ({} : Naming).versionIdentifier version ∉ fixedConstants := by
  intro h
  simp [Naming.versionIdentifier, fixedConstants, ← String.toList_inj] at h

section Described

variable {naming : Naming} {definition : Definition} {versions : List Version}
  {defaultVersion : String} {generated : GeneratedModule}

/-- The constants of a class of versions are those of the flat keys of the default version, and
those of the versions. -/
theorem map_name_constants_of_describe
    (hBody : definition.body = .values versions defaultVersion)
    (h : describe naming definition = .ok generated) :
    ∃ main, versions.lookup defaultVersion = some main ∧
      Claimable (generated.constants.map (·.name)) ∧
      ∀ name, name ∈ generated.constants.map (·.name) ↔
        (∃ key, .flat key ∈ main.keys ∧ name = flatIdentifier key) ∨
        ∃ version ∈ versions, name =
          (naming.withVersionPrefix definition.versionPrefix).versionIdentifier version.1 := by
  obtain ⟨canonical, table, hReconcile, hDescribe⟩ := (describe_values_eq_ok_iff hBody).mp h
  obtain ⟨main, hDefault, rfl, -, -, hIdentifiers⟩ := reconcile_eq_ok_iff.mp hReconcile
  obtain ⟨-, hConstants, -, -, rfl⟩ := describeValues_eq_ok_iff.mp hDescribe
  refine ⟨main, hDefault, hConstants, fun name => ?_⟩
  rw [Definition.describe, map_name_classConstants, List.mem_append, hIdentifiers,
    mem_classClaims_iff, versionNames_of_reconcile hReconcile, List.map_map, List.mem_map]
  simp only [Function.comp_apply, eq_comm (a := name)]

/-- The members of a class of versions have different names exactly if no key spells one of the
constants that every class has, and no version either, nor is the version empty and its prefix the
name of a function. -/
theorem nodup_itemNames_iff (hBody : definition.body = .values versions defaultVersion)
    (h : describe naming definition = .ok generated) :
    ∃ main, versions.lookup defaultVersion = some main ∧
      (generated.itemNames.Nodup ↔
        (∀ key, .flat key ∈ main.keys → flatIdentifier key ∉ fixedConstants) ∧
        ∀ version ∈ versions,
          definition.versionPrefix.getD naming.versionPrefix ++ constantCase version.1 ∉
            fixedConstants ∧
          ¬(version.1 = "" ∧
            definition.versionPrefix.getD naming.versionPrefix ∈ fixedFunctions)) := by
  obtain ⟨main, hDefault, hClaimable, hNames⟩ := map_name_constants_of_describe hBody h
  obtain ⟨lookup, hLookup⟩ : ∃ lookup, generated.lookup? = some lookup := by
    obtain ⟨canonical, table, -, hDescribe⟩ := (describe_values_eq_ok_iff hBody).mp h
    obtain ⟨-, -, -, -, rfl⟩ := describeValues_eq_ok_iff.mp hDescribe
    exact ⟨_, rfl⟩
  have hFixed : (fixedConstants ++ fixedFunctions).Nodup := by decide
  refine ⟨main, hDefault, ?_⟩
  rw [itemNames_eq hClaimable.1 hLookup, List.nodup_append']
  simp only [hClaimable.2, hFixed, true_and]
  -- What is left to show is that no constant of a key or version has one of the fixed names.
  constructor
  · intro hDisjoint
    refine ⟨fun key hKey hFixed => ?_, fun version hVersion => ⟨fun hFixed => ?_, fun hFixed => ?_⟩⟩
    · exact hDisjoint ((hNames _).mpr (.inl ⟨key, hKey, rfl⟩)) (List.mem_append_left _ hFixed)
    · exact hDisjoint ((hNames _).mpr (.inr ⟨version, hVersion, rfl⟩))
        (List.mem_append_left _ hFixed)
    · exact hDisjoint ((hNames _).mpr (.inr ⟨version, hVersion, rfl⟩))
        (List.mem_append_right _ ((versionIdentifier_mem_fixedFunctions_iff _ _).mpr hFixed))
  · rintro ⟨hKeys, hVersions⟩ name hName hFixed
    rcases (hNames name).mp hName with ⟨key, hKey, rfl⟩ | ⟨version, hVersion, rfl⟩
    · rcases List.mem_append.mp hFixed with hConstant | hFunction
      · exact hKeys key hKey hConstant
      · exact flatIdentifier_notMem_fixedFunctions key hFunction
    · rcases List.mem_append.mp hFixed with hConstant | hFunction
      · exact (hVersions version hVersion).1 hConstant
      · exact (hVersions version hVersion).2
          ((versionIdentifier_mem_fixedFunctions_iff _ _).mp hFunction)

end Described

/-- A definition of the greetings. -/
def welcome : Definition where
  source := ⟨"welcome.json"⟩
  className := "Welcome"
  namespacePath := ["app"]
  addedNamespace := []
  kind := .inline
  versionPrefix := none
  body := .values greetings "en"

/-- Neither a greeting nor a version of the greetings spells a fixed name. -/
theorem nodup_itemNames_welcome :
    ∃ generated, describe {} welcome = .ok generated ∧ generated.itemNames.Nodup := by
  obtain ⟨generated, hGenerated⟩ : ∃ generated, describe {} welcome = .ok generated := ⟨_, rfl⟩
  obtain ⟨main, hMain, hNodup⟩ := nodup_itemNames_iff (rfl : welcome.body = _) hGenerated
  obtain rfl := Option.some.inj hMain
  refine ⟨generated, hGenerated, hNodup.mpr ⟨fun key hKey => ?_, fun version _ => ⟨?_, ?_⟩⟩⟩
  · have hKeys : key = "hello" ∨ key = "good-bye" := by simpa [Source.keys] using hKey
    rcases hKeys with rfl | rfl <;> decide
  · exact versionIdentifier_notMem_fixedConstants version.1
  · rintro ⟨-, hFunction⟩
    exact absurd hFunction (by decide)

/-- A definition with a key that spells the name of the array of values. -/
def clashing : Definition :=
  { welcome with body := .values [("en", .literal [("values", "Text")])] "en" }

/-- The clash goes unnoticed: the class comes about, and has two constants of the same name. -/
theorem not_nodup_itemNames_clashing :
    ∃ generated, describe {} clashing = .ok generated ∧
      generated.itemNames.take 5 =
        ["VALUES", "VERSION_EN", "DEFAULT_VERSION", "ALLOWED_VERSIONS", "VALUES"] ∧
      ¬generated.itemNames.Nodup := by
  obtain ⟨generated, lookup, hGenerated, hLookup, hConstants⟩ : ∃ generated lookup,
      describe {} clashing = .ok generated ∧ generated.lookup? = some lookup ∧
        generated.constants.map (·.name) = ["VALUES", "VERSION_EN"] := ⟨_, _, rfl, rfl, rfl⟩
  have hNames : generated.itemNames =
      ["VALUES", "VERSION_EN"] ++ (fixedConstants ++ fixedFunctions) := by
    rw [← hConstants]
    exact itemNames_eq (by rw [hConstants]; decide) hLookup
  refine ⟨generated, hGenerated, ?_, ?_⟩
  · rw [hNames]
    rfl
  · rw [hNames]
    decide

end ResourceTables
