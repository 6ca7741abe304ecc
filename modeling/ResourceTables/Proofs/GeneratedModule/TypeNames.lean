import ResourceTables.Proofs.GeneratedModule.Items
import ResourceTables.Proofs.GeneratedModule.WellScoped
import ResourceTables.Proofs.Identifier.Words

/-!
# Types of a generated module

The types that a generated module declares and the types that its declarations mention, both read
off its lines. Type names are claimed in one scope, but the types that every module of versions
mentions are not claimed there. A declared type takes the name of a mentioned one if the class is
named like it, or if a table is spelled `option`, and in no other case.

## Main definitions

* `GeneratedModule.typesDeclared`: the types that a module declares.
* `signature?`, `typesOf`: what a declaration says of types, and the types that it mentions there.
* `GeneratedModule.typesMentioned`: the types that the declarations of a module mention.
* `Definition.KeepsTypesApart`: no declared type has the name of a mentioned one.
-/

namespace ResourceTables

open Text

variable {shown : Char → Bool}

/-! ## Reading types off lines -/

/-- The type that a line declares, if it declares one. -/
def typeDeclared? (line : String) : Option String :=
  (afterStart? "pub struct ".toList line.toList).map fun rest =>
    String.ofList (rest.takeWhile isWordPart)

/-- What begins the value of a member, its body, or the length of its array. -/
def endsSignature (c : Char) : Bool :=
  c = ';' || c = '=' || c = '\x7b'

/-- What the declaration of a member says of types: all that follows its name, up to its value, its
body, or the length of its array. -/
def signature? (line : String) : Option (List Char) :=
  (itemKeywords.findSome? fun keyword => afterStart? keyword.toList line.toList).map fun rest =>
    (rest.dropWhile isWordPart).takeWhile fun c => !endsSignature c

/-- The types among the parts of a signature, if a given part comes before them. A type is a word
without a path: a word in front of a colon is a parameter or the beginning of a path, a word right
after a colon is the end of a path, and a word right after a quote is a lifetime. -/
def typesAmong : List Char → List (List Char) → List String
  | _, [] => []
  | before, part :: rest =>
    if part.all isWordPart ∧ before.getLast? ∉ [some ':', some '\''] ∧
        rest.head?.bind List.head? ≠ some ':' then
      String.ofList part :: typesAmong part rest
    else
      typesAmong part rest

/-- The types that a signature mentions without a path. -/
def typesOf (signature : List Char) : List String :=
  typesAmong [] (signature.splitBy fun a b => isWordPart a == isWordPart b)

/-- The types that the declaration on a line mentions. -/
def typesOfLine (line : String) : List String :=
  ((signature? line).map typesOf).getD []

namespace GeneratedModule

/-- The types that a module declares. -/
def typesDeclared (generated : GeneratedModule) : List String :=
  generated.bodyLines.filterMap typeDeclared?

/-- The types that the declarations of a module mention. -/
def typesMentioned (generated : GeneratedModule) : List String :=
  generated.bodyLines.flatMap typesOfLine

end GeneratedModule

/-- A function mentions the types of its parameters and of its result. -/
example : typesOfLine "    pub fn get_value(key: usize, version: &str) -> Option<&'static str> \x7b" =
    ["usize", "str", "Option", "str"] := by
  decide +kernel

/-! ## Declared types -/

theorem typeDeclared?_struct {name : String} (h : isIdentifier name = true) :
    typeDeclared? ("pub struct " ++ name ++ ";") = some name := by
  rw [typeDeclared?, String.toList_append, String.toList_append, List.append_assoc,
    afterStart?_append, Option.map_some, show ";".toList = [';'] from rfl,
    takeWhile_isWordPart_append h (by decide), String.ofList_toList]

/-- A line that does not begin with the keyword declares no type. -/
theorem typeDeclared?_eq_none {line : String} (h : line.toList.head? ≠ some 'p') :
    typeDeclared? line = none := by
  rw [typeDeclared?, Option.map_eq_none_iff, afterStart?_eq_none_iff]
  rintro ⟨rest, hLine⟩
  exact h (hLine ▸ rfl)

theorem head?_constant (constant : Constant) : (constant.line shown).toList.head? = some ' ' := by
  rw [Constant.line]
  split <;> simp only [String.toList_append] <;> rfl

theorem head?_row (row : VersionRow) : ∀ line ∈ row.lines shown, line.toList.head? = some ' ' := by
  intro line hLine
  obtain ⟨rest, hIndented⟩ := exists_toList_of_mem_row hLine
  rw [hIndented]
  rfl

theorem head?_table (lookup : Lookup) :
    ∀ line ∈ lookup.tableLines shown, line.toList.head? = some ' ' := by
  intro line hLine
  simp only [Lookup.tableLines, List.mem_append, List.mem_cons, List.mem_flatMap,
    List.not_mem_nil, or_false] at hLine
  rcases hLine with ((rfl | rfl | rfl) | ⟨row, -, hRow⟩) | rfl
  · simp only [String.toList_append]
    rfl
  · simp only [String.toList_append]
    rfl
  · simp only [String.toList_append]
    rfl
  · exact head?_row row line hRow
  · rfl

/-- The members of a class are indented, so they declare no types. -/
theorem head?_members (generated : GeneratedModule) :
    ∀ line ∈ generated.members, line.toList.head? ≠ some 'p' := by
  have hIndented : ∀ line : String, line.toList.head? = some ' ' →
      line.toList.head? ≠ some 'p' := by
    intro line hLine
    rw [hLine]
    decide
  rw [GeneratedModule.members, GeneratedModule.membersShowing, List.forall_mem_append]
  refine ⟨List.forall_mem_map.mpr fun constant _ => hIndented _ (head?_constant constant), ?_⟩
  split
  · next lookup _ =>
    simp only [List.forall_mem_append, List.forall_mem_singleton]
    refine ⟨⟨⟨by decide, fun line hLine => hIndented line (head?_table lookup line hLine)⟩,
      by decide⟩, by simp [lookupFunctions]⟩
  · simp

theorem filterMap_typeDeclared?_eq_nil {lines : List String}
    (h : ∀ line ∈ lines, line.toList.head? ≠ some 'p') : lines.filterMap typeDeclared? = [] := by
  rw [List.filterMap_eq_nil_iff]
  exact fun line hLine => typeDeclared?_eq_none (h line hLine)

theorem filterMap_typeDeclared?_implementation (name : String) {members : List String}
    (h : ∀ line ∈ members, line.toList.head? ≠ some 'p') :
    (implementation name members).filterMap typeDeclared? = [] := by
  apply filterMap_typeDeclared?_eq_nil
  have hOpening : ("impl " ++ name ++ " \x7b").toList.head? = some 'i' := by
    simp only [String.toList_append]
    rfl
  simp only [implementation, List.forall_mem_append, List.forall_mem_singleton, hOpening]
  exact ⟨⟨by decide, h⟩, by decide⟩

/-- A module declares its class and its key types, in this order. -/
theorem typesDeclared_eq {generated : GeneratedModule} (h : generated.WellScoped) :
    generated.typesDeclared = generated.className :: generated.keyModules.map (·.name) := by
  obtain ⟨hClass, hKeyTypes⟩ := List.forall_mem_cons.mp h.types.1
  have hHeading : ∀ {line : String}, line.toList.head? = some '/' → typeDeclared? line = none :=
    fun hLine => typeDeclared?_eq_none (by rw [hLine]; decide)
  have hEmpty : typeDeclared? "" = none := rfl
  have hConstants : ∀ constants : List Constant,
      ∀ line ∈ constants.map (Constant.line isPrintable), line.toList.head? ≠ some 'p' := by
    intro constants
    refine List.forall_mem_map.mpr fun constant _ => ?_
    rw [head?_constant]
    decide
  have hKeys : ∀ keys ∈ generated.keyModules,
      (keys.lines isPrintable generated.className).filterMap typeDeclared? = [keys.name] := by
    intro keys hKeys
    have hName := hKeyTypes keys.name (List.mem_map_of_mem hKeys)
    have hComment : typeDeclared? ("/// Keys of table `" ++ keys.table ++ "`, for use with [`" ++
        generated.className ++ "::get_value`]") = none :=
      hHeading (by simp only [String.toList_append]; rfl)
    simp only [KeyModule.lines, List.filterMap_append, List.filterMap_cons, List.filterMap_nil,
      hEmpty, hComment, typeDeclared?_struct hName,
      filterMap_typeDeclared?_implementation _ (hConstants keys.constants)]
    rfl
  rw [GeneratedModule.typesDeclared, GeneratedModule.bodyLines, GeneratedModule.bodyLinesShowing,
    ← GeneratedModule.members, List.filterMap_append, List.filterMap_append,
    filterMap_typeDeclared?_implementation _ (head?_members generated), List.filterMap_flatMap, List.flatMap_congr hKeys, List.map_eq_flatMap]
  have hOpening : ∀ heading : String, typeDeclared? heading = none →
      [heading, "pub struct " ++ generated.className ++ ";", ""].filterMap typeDeclared? =
        [generated.className] := by
    intro heading hNone
    simp [hNone, hEmpty, typeDeclared?_struct hClass]
  split <;> rw [hOpening _ (hHeading (by decide))] <;> rfl

/-! ## Mentioned types -/

/-- A line that begins with no keyword says nothing of types. -/
theorem typesOfLine_eq_nil {line : String}
    (h : ∀ keyword ∈ itemKeywords, ¬keyword.toList <+: line.toList) : typesOfLine line = [] := by
  have hNone : signature? line = none := by
    rw [signature?, Option.map_eq_none_iff, List.findSome?_eq_none_iff]
    exact fun keyword hKeyword => afterStart?_eq_none_iff.mpr (h keyword hKeyword)
  rw [typesOfLine, hNone]
  rfl

theorem typesOfLine_eq_nil_of_head? {line : String} (h : line.toList.head? ≠ some ' ') :
    typesOfLine line = [] := by
  apply typesOfLine_eq_nil
  rintro keyword hKeyword ⟨rest, hLine⟩
  rw [← hLine] at h
  simp only [itemKeywords, List.mem_cons, List.not_mem_nil, or_false] at hKeyword
  rcases hKeyword with rfl | rfl | rfl <;> exact h rfl

theorem flatMap_typesOfLine_implementation (name : String) (members : List String) :
    (implementation name members).flatMap typesOfLine = members.flatMap typesOfLine := by
  have hOpening : typesOfLine ("impl " ++ name ++ " \x7b") = [] := by
    apply typesOfLine_eq_nil_of_head?
    rw [String.toList_append, String.toList_append, List.append_assoc]
    exact (by decide : some 'i' ≠ some ' ')
  have hClosing : typesOfLine "\x7d" = [] := typesOfLine_eq_nil_of_head? (by decide)
  simp [implementation, hOpening, hClosing]

/-- The types of a constant are those of what stands between its name and the end of its
signature. -/
theorem typesOfLine_constantItem {line keyword : String}
    (hKeyword : keyword = "    pub const " ∨ keyword = "    const ") (name : String)
    (hName : name.toList.all isWordPart = true) (signature : String) (stop : Char)
    (hSignature : (':' :: signature.toList).all (!endsSignature ·) = true ∧
      endsSignature stop = true)
    (types : List String) (hTypes : typesOf (':' :: signature.toList) = types)
    (hLine : ∃ rest, line.toList =
      keyword.toList ++ (name.toList ++ ':' :: (signature.toList ++ stop :: rest))) :
    typesOfLine line = types := by
  obtain ⟨rest, hLine⟩ := hLine
  have hItem : (itemKeywords.findSome? fun keyword => afterStart? keyword.toList line.toList) =
      some (name.toList ++ ':' :: (signature.toList ++ stop :: rest)) := by
    rw [hLine]
    rcases hKeyword with rfl | rfl
    · rw [itemKeywords, List.findSome?_cons, afterStart?_append]
    · have hPublic : ∀ text, afterStart? "    pub const ".toList ("    const ".toList ++ text) =
          none := fun _ => rfl
      rw [itemKeywords, List.findSome?_cons, hPublic, List.findSome?_cons, afterStart?_append]
  have hBehind : (name.toList ++ ':' :: (signature.toList ++ stop :: rest)).dropWhile isWordPart =
      ':' :: (signature.toList ++ stop :: rest) := by
    rw [List.dropWhile_append_of_pos (List.all_eq_true.mp hName),
      List.dropWhile_cons_of_neg (by decide)]
  rw [typesOfLine, signature?, hItem, Option.map_some, hBehind, Option.map_some, Option.getD_some,
    ← List.cons_append, List.takeWhile_append_of_pos (List.all_eq_true.mp hSignature.1),
    List.takeWhile_cons_of_neg (by simp [hSignature.2]), List.append_nil, hTypes]

/-- The type of a constant. -/
def ConstantValue.typeName : ConstantValue → String
  | .index _ => "usize"
  | .text _ => "str"

theorem typesOfLine_constant {constant : Constant} (hName : isIdentifier constant.name = true) :
    typesOfLine (constant.line shown) = [constant.value.typeName] := by
  have hWord : constant.name.toList.all isWordPart = true :=
    List.all_eq_true.mpr fun c hc => isWordPart_of_mem_identifier hName hc
  cases hValue : constant.value with
  | index place =>
    refine typesOfLine_constantItem (.inl rfl) constant.name hWord " usize " '=' (by decide)
      ["usize"] (by decide) ?_
    simp only [Constant.line, hValue, String.toList_append, List.append_assoc]
    exact ⟨_, rfl⟩
  | text text =>
    refine typesOfLine_constantItem (.inl rfl) constant.name hWord " &'static str " '='
      (by decide) ["str"] (by decide) ?_
    simp only [Constant.line, hValue, String.toList_append, List.append_assoc]
    exact ⟨_, rfl⟩

/-- The default version, the versions and the values are texts, alone or in arrays. -/
theorem flatMap_typesOfLine_table (lookup : Lookup) :
    (lookup.tableLines shown).flatMap typesOfLine = ["str", "str", "str"] := by
  have hRows : (lookup.table.rows.flatMap (VersionRow.lines shown)).flatMap typesOfLine = [] := by
    rw [List.flatMap_assoc, List.flatMap_eq_nil_iff]
    refine fun row _ => List.flatMap_eq_nil_iff.mpr fun line hLine => ?_
    exact typesOfLine_eq_nil (not_keyword_of_mem_row hLine)
  have hClosing : typesOfLine "    ];" = [] := by decide
  simp only [Lookup.tableLines, List.flatMap_append, List.flatMap_cons, List.flatMap_nil, hRows,
    hClosing]
  rw [typesOfLine_constantItem (.inr rfl) "DEFAULT_VERSION" (by decide) " &'static str " '='
      (by decide) ["str"] (by decide)
      (by simp only [String.toList_append, List.append_assoc]; exact ⟨_, rfl⟩),
    typesOfLine_constantItem (.inr rfl) "ALLOWED_VERSIONS" (by decide) " [&'static str" ';'
      (by decide) ["str"] (by decide)
      (by simp only [String.toList_append, List.append_assoc]; exact ⟨_, rfl⟩),
    typesOfLine_constantItem (.inr rfl) "VALUES" (by decide) " [[&'static str" ';'
      (by decide) ["str"] (by decide)
      (by simp only [String.toList_append, List.append_assoc]; exact ⟨_, rfl⟩)]
  rfl

/-- The types that the functions of a class of versions mention. -/
def lookupTypes : List String :=
  ["usize", "str", "bool", "Option"]

theorem mem_flatMap_typesOfLine_lookup (lookup : Lookup) (name : String) :
    name ∈ ([""] ++ lookup.tableLines shown ++ [""] ++ lookupFunctions).flatMap typesOfLine ↔
      name ∈ lookupTypes := by
  have hFunctions : lookupFunctions.flatMap typesOfLine =
      ["usize", "str", "Option", "str", "usize", "str", "bool", "str", "str", "bool", "str"] := by
    decide +kernel
  have hEmpty : [""].flatMap typesOfLine = [] := by decide
  rw [List.flatMap_append, List.flatMap_append, List.flatMap_append, hEmpty,
    flatMap_typesOfLine_table, hFunctions]
  constructor <;> revert name <;> decide

theorem flatMap_typesOfLine_constants {constants : List Constant}
    (h : Claimable (constants.map (·.name))) :
    (constants.map (Constant.line shown)).flatMap typesOfLine =
      constants.map fun constant => constant.value.typeName := by
  rw [List.flatMap_map, List.map_eq_flatMap]
  refine List.flatMap_congr fun constant hConstant => ?_
  exact typesOfLine_constant (h.1 _ (List.mem_map_of_mem hConstant))

theorem flatMap_typesOfLine_keyModule {keys : KeyModule}
    (h : Claimable (keys.constants.map (·.name))) (className : String) :
    (keys.lines shown className).flatMap typesOfLine =
      keys.constants.map fun constant => constant.value.typeName := by
  have hComment : typesOfLine ("/// Keys of table `" ++ keys.table ++ "`, for use with [`" ++
      className ++ "::get_value`]") = [] := by
    apply typesOfLine_eq_nil_of_head?
    simp only [String.toList_append, List.append_assoc]
    exact (by decide : some '/' ≠ some ' ')
  have hStruct : typesOfLine ("pub struct " ++ keys.name ++ ";") = [] := by
    apply typesOfLine_eq_nil_of_head?
    simp only [String.toList_append, List.append_assoc]
    exact (by decide : some 'p' ≠ some ' ')
  have hEmpty : typesOfLine "" = [] := typesOfLine_eq_nil_of_head? (by decide)
  simp [KeyModule.lines, hComment, hStruct, hEmpty, flatMap_typesOfLine_implementation,
    flatMap_typesOfLine_constants h]

/-- The types that a module mentions are those of its constants and, if values are looked up in it,
those of the functions. -/
theorem mem_typesMentioned_iff {generated : GeneratedModule} (h : generated.WellScoped)
    (name : String) :
    name ∈ generated.typesMentioned ↔
      (∃ constant ∈ generated.constants ++ generated.keyModules.flatMap (·.constants),
        name = constant.value.typeName) ∨
      generated.lookup?.isSome = true ∧ name ∈ lookupTypes := by
  have hKeys : (generated.keyModules.flatMap fun keys =>
      keys.lines isPrintable generated.className).flatMap typesOfLine = (generated.keyModules.flatMap (·.constants)).map
        fun constant => constant.value.typeName := by
    rw [List.flatMap_assoc, List.map_flatMap]
    exact List.flatMap_congr fun keys hKeys => flatMap_typesOfLine_keyModule (h.fields keys hKeys) _
  have hOpening : ∀ heading : String, heading.toList.head? ≠ some ' ' →
      [heading, "pub struct " ++ generated.className ++ ";", ""].flatMap typesOfLine = [] := by
    intro heading hHeading
    have hStruct : ("pub struct " ++ generated.className ++ ";").toList.head? ≠ some ' ' := by
      simp only [String.toList_append, List.append_assoc]
      exact (by decide : some 'p' ≠ some ' ')
    rw [List.flatMap_eq_nil_iff]
    simp only [List.forall_mem_cons]
    exact ⟨typesOfLine_eq_nil_of_head? hHeading, typesOfLine_eq_nil_of_head? hStruct,
      typesOfLine_eq_nil_of_head? (by decide), by simp⟩
  have hMembers : name ∈ generated.members.flatMap typesOfLine ↔
      (∃ constant ∈ generated.constants, name = constant.value.typeName) ∨
        generated.lookup?.isSome = true ∧ name ∈ lookupTypes := by
    rw [GeneratedModule.members, GeneratedModule.membersShowing, List.flatMap_append,
      List.mem_append, flatMap_typesOfLine_constants h.constants, List.mem_map]
    refine or_congr (by simp only [eq_comm]) ?_
    split
    · next lookup hLookup =>
      rw [mem_flatMap_typesOfLine_lookup, hLookup]
      simp
    · next hNone => simp [hNone]
  rw [GeneratedModule.typesMentioned, GeneratedModule.bodyLines, GeneratedModule.bodyLinesShowing,
    ← GeneratedModule.members, List.flatMap_append, List.flatMap_append, hKeys,
    flatMap_typesOfLine_implementation, List.mem_append, List.mem_append, hMembers,
    hOpening _ (by split <;> decide)]
  simp only [List.not_mem_nil, false_or, List.mem_map, List.mem_append, or_and_right, exists_or,
    eq_comm (a := name)]
  exact or_right_comm

/-! ## Declared and mentioned types -/

/-- The table is spelled `option`, in small letters or with a capital, behind any word breaks. -/
def SpellsOption (table : String) : Prop :=
  ∃ breaks : List Char, (∀ b ∈ breaks, isWordBreak b = true) ∧
    (table.toList = breaks ++ "option".toList ∨ table.toList = breaks ++ "Option".toList)

/-- The class is not named like a type that its module mentions, and no table of the default version
is spelled like one. A module of constants mentions none but texts, and these only if it has
constants. -/
def Definition.KeepsTypesApart (definition : Definition) : Prop :=
  match definition.body with
  | .constants source => definition.className = "str" → source.isEmpty = true
  | .values versions defaultVersion => definition.className ∉ lookupTypes ∧
      ∀ main, versions.lookup defaultVersion = some main →
        ∀ table ∈ main.tableNames, ¬SpellsOption table

/-- A name that begins with a capital is that of one mentioned type only. -/
theorem pascalCase_mem_lookupTypes_iff {table : String} :
    pascalCase table ∈ lookupTypes ↔ SpellsOption table := by
  have hSmall : ∀ name ∈ lookupTypes, name ≠ "Option" → name.toList.head?.any Char.isLower := by
    decide
  rw [SpellsOption, ← pascalCase_eq_option_iff]
  constructor
  · intro h
    by_contra hOption
    have hLower := hSmall _ h hOption
    cases hHead : (pascalCase table).toList.head? with
    | none =>
      rw [hHead] at hLower
      cases hLower
    | some c =>
      rw [hHead, Option.any_some, isLower_eq_false_of_head?_pascalCase hHead] at hLower
      cases hLower
  · intro h
    rw [h]
    decide

section Constants

variable {definition : Definition} {source : Source} {generated : GeneratedModule}

theorem typesDeclared_of_describeConstants
    (h : describeConstants definition source = .ok generated) :
    generated.typesDeclared = [definition.className] := by
  rw [typesDeclared_eq (wellScoped_of_describeConstants h)]
  obtain ⟨entries, -, -, -, rfl⟩ := describeConstants_eq_ok_iff.mp h
  rfl

/-- A module of constants mentions texts, if it has constants. -/
theorem mem_typesMentioned_of_describeConstants
    (h : describeConstants definition source = .ok generated) (name : String) :
    name ∈ generated.typesMentioned ↔ name = "str" ∧ source.isEmpty = false := by
  rw [mem_typesMentioned_iff (wellScoped_of_describeConstants h)]
  obtain ⟨entries, hEntries, -, -, rfl⟩ := describeConstants_eq_ok_iff.mp h
  have hSize : source.size = entries.length := by
    cases source with
    | grouped tables => cases hEntries
    | literal records =>
      cases hEntries
      rfl
    | keyed records =>
      cases hEntries
      rfl
    | list elements =>
      cases hEntries
      exact (List.length_map _).symm
  rw [Source.isEmpty, hSize, beq_eq_false_iff_ne, ne_eq, List.length_eq_zero_iff]
  constructor
  · rintro (⟨constant, hConstant, rfl⟩ | ⟨hLookup, -⟩)
    · simp only [Definition.describe, List.flatMap_nil, List.append_nil, List.mem_map] at hConstant
      obtain ⟨entry, hEntry, rfl⟩ := hConstant
      exact ⟨rfl, List.ne_nil_of_mem hEntry⟩
    · cases hLookup
  · rintro ⟨rfl, hSome⟩
    obtain ⟨entry, rest, rfl⟩ := List.exists_cons_of_ne_nil hSome
    exact .inl ⟨_, List.mem_cons_self, rfl⟩

end Constants

section Values

variable {naming : Naming} {definition : Definition} {canonical : Canonical}
  {table : ReconciledTable} {defaultVersion : String} {generated : GeneratedModule}

theorem typesDeclared_of_describeValues
    (h : describeValues naming definition canonical table defaultVersion = .ok generated) :
    generated.typesDeclared =
      definition.className :: canonical.tables.map fun table => pascalCase table.name := by
  rw [typesDeclared_eq (wellScoped_of_describeValues h)]
  obtain ⟨-, -, -, -, rfl⟩ := describeValues_eq_ok_iff.mp h
  rw [Definition.describe, map_name_keyModulesFrom]

/-- A module of versions mentions the types of its functions, and no others. -/
theorem mem_typesMentioned_of_describeValues
    (h : describeValues naming definition canonical table defaultVersion = .ok generated)
    (name : String) : name ∈ generated.typesMentioned ↔ name ∈ lookupTypes := by
  have hTypes : ∀ value : ConstantValue, value.typeName ∈ lookupTypes := by
    rintro (place | text) <;> simp [ConstantValue.typeName, lookupTypes]
  rw [mem_typesMentioned_iff (wellScoped_of_describeValues h)]
  obtain ⟨-, -, -, -, rfl⟩ := describeValues_eq_ok_iff.mp h
  constructor
  · rintro (⟨constant, -, rfl⟩ | ⟨-, hName⟩)
    · exact hTypes constant.value
    · exact hName
  · exact fun hName => .inr ⟨rfl, hName⟩

end Values

/-- The types that a module mentions are those of its functions, or texts alone. None of them has
the name of a type that the module declares, exactly if the definition keeps them apart. -/
theorem disjoint_typesDeclared_iff {naming : Naming} {definition : Definition}
    {generated : GeneratedModule} (h : describe naming definition = .ok generated) :
    generated.typesMentioned ⊆ lookupTypes ∧
      (generated.typesDeclared.Disjoint generated.typesMentioned ↔
        definition.KeepsTypesApart) := by
  cases hBody : definition.body with
  | constants source =>
    rw [describe, hBody] at h
    have hMentioned := mem_typesMentioned_of_describeConstants h
    rw [Definition.KeepsTypesApart, hBody, typesDeclared_of_describeConstants h,
      List.singleton_disjoint, hMentioned]
    refine ⟨fun name hName => ?_, by simp⟩
    rw [((hMentioned name).mp hName).1]
    decide
  | values versions defaultVersion =>
    obtain ⟨canonical, table, hReconcile, hDescribe⟩ := (describe_values_eq_ok_iff hBody).mp h
    have hMentioned := mem_typesMentioned_of_describeValues hDescribe
    obtain ⟨main, hDefault, rfl, -, -, -⟩ := reconcile_eq_ok_iff.mp hReconcile
    refine ⟨fun name hName => (hMentioned name).mp hName, ?_⟩
    have hTables : ∀ P : String → Prop,
        (∀ table ∈ (Canonical.ofSource main).tables, P table.name) ↔
          ∀ table ∈ main.tableNames, P table := by
      intro P
      rw [← Canonical.tables_ofSource, List.forall_mem_map]
    rw [Definition.KeepsTypesApart, hBody, typesDeclared_of_describeValues hDescribe,
      List.disjoint_cons_left, hMentioned, List.disjoint_left, List.forall_mem_map]
    simp only [hMentioned, pascalCase_mem_lookupTypes_iff, hDefault, Option.some.injEq,
      forall_eq', hTables fun table => ¬SpellsOption table]

/-- The tables of the pages spell no type. -/
theorem disjoint_typesDeclared_sparsePages :
    ∃ generated, describe {} sparsePages = .ok generated ∧
      generated.typesDeclared.Disjoint generated.typesMentioned := by
  obtain ⟨generated, hGenerated⟩ : ∃ generated, describe {} sparsePages = .ok generated := ⟨_, rfl⟩
  refine ⟨generated, hGenerated, (disjoint_typesDeclared_iff hGenerated).2.mpr ⟨by decide, ?_⟩⟩
  intro main hMain table hTable
  obtain rfl := Option.some.inj hMain
  rw [← pascalCase_mem_lookupTypes_iff]
  revert table
  decide +kernel

/-- Settings in one table, which is spelled like a type. -/
def optionSettings : Definition where
  source := ⟨"settings.json"⟩
  className := "Settings"
  namespacePath := ["app"]
  addedNamespace := []
  kind := .inline
  versionPrefix := none
  body := .values [("en", .grouped [("option", [("k", "v")])])] "en"

/-- The module declares a type that its own functions mention. -/
theorem not_disjoint_typesDeclared_optionSettings :
    ∃ generated, describe {} optionSettings = .ok generated ∧
      "Option" ∈ generated.typesDeclared ∧ "Option" ∈ generated.typesMentioned ∧
      ¬generated.typesDeclared.Disjoint generated.typesMentioned := by
  obtain ⟨canonical, table, generated, hReconcile, hTables, hDescribe⟩ :
      ∃ canonical table generated,
        reconcile [("en", .grouped [("option", [("k", "v")])])] "en" = .ok (canonical, table) ∧
        canonical.tables.map (fun table => pascalCase table.name) = ["Option"] ∧
        describeValues {} optionSettings canonical table "en" = .ok generated :=
    ⟨_, _, _, rfl, rfl, rfl⟩
  have hDeclared : "Option" ∈ generated.typesDeclared := by
    rw [typesDeclared_of_describeValues hDescribe, hTables]
    decide
  have hMentioned : "Option" ∈ generated.typesMentioned := by
    rw [mem_typesMentioned_of_describeValues hDescribe]
    decide
  refine ⟨generated, ?_, hDeclared, hMentioned, fun hDisjoint => hDisjoint hDeclared hMentioned⟩
  exact (describe_values_eq_ok_iff rfl).mpr ⟨canonical, table, hReconcile, hDescribe⟩

end ResourceTables
