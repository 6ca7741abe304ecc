import ResourceTables.Compiler
import ResourceTables.Proofs.GeneratedModule.Lines

/-!
# Code of a generated file

What is left of a line when its comment is dropped and its literals are emptied is code. The code of
a generated file consists of fixed lines and of lines that differ in identifiers and numbers alone:
no text of a definition gets out of a comment or a literal.

## Main definitions

* `bareCode`, `bare`: a line without its comment and without what its literals hold.
* `CodeLine`: the code that lines of a generated file may have.
-/

namespace ResourceTables

open Text

variable {shown : Char → Bool}

/-- Where in a line a character stands. -/
inductive LinePlace where
  | code
  | literal
  /-- Right after a backslash in a literal. -/
  | escape
deriving DecidableEq

/-- What is left of a line, from a place on, without its comment and without what its literals
hold. -/
def bareCode : LinePlace → List Char → List Char
  | _, [] => []
  | .code, c :: rest =>
    if c = '"' then c :: bareCode .literal rest
    else if c = '/' ∧ rest.head? = some '/' then []
    else c :: bareCode .code rest
  | .literal, c :: rest =>
    if c = '"' then c :: bareCode .code rest
    else if c = '\\' then bareCode .escape rest
    else bareCode .literal rest
  | .escape, _ :: rest => bareCode .literal rest

/-- A line without its comment and without what its literals hold. -/
def bare (line : String) : String :=
  String.ofList (bareCode .code line.toList)

/-- A line by its characters, without its comment and without what its literals hold. -/
theorem bare_ofList (line : List Char) :
    bare (String.ofList line) = String.ofList (bareCode .code line) := by
  rw [bare, String.toList_ofList]

/-- The code that is the same in every file. Of a line with a comment only the blanks in front of it
are code. -/
def fixedCode : List String :=
  ["", "    ", "        ", "\x7d", "        [", "            \"\",", "        ],", "    ];",
   "    const DEFAULT_VERSION: &'static str = \"\";"] ++ lookupFunctions

/-- The code that lines of a generated file may have: it is fixed but for identifiers and
numbers. -/
inductive CodeLine : String → Prop
  | fixed {line : String} : line ∈ fixedCode → CodeLine line
  | type {name : String} : isIdentifier name = true → CodeLine ("pub struct " ++ name ++ ";")
  | opening {name : String} : isIdentifier name = true → CodeLine ("impl " ++ name ++ " \x7b")
  | index {name : String} (place : Nat) : isIdentifier name = true →
      CodeLine ("    pub const " ++ name ++ ": usize = " ++ toString place ++ ";")
  | text {name : String} : isIdentifier name = true →
      CodeLine ("    pub const " ++ name ++ ": &'static str = " ++ "\"\"" ++ ";")
  | allowedVersions (count : Nat) :
      CodeLine ("    const ALLOWED_VERSIONS: [&'static str; " ++ toString count ++ "] = [" ++
        ", ".intercalate (List.replicate count "\"\"") ++ "];")
  | values (width height : Nat) :
      CodeLine ("    const VALUES: [[&'static str; " ++ toString width ++ "]; " ++
        toString height ++ "] = [")

/-! ## Literals are emptied -/

theorem bareCode_literal_append {text : List Char} (h : ∀ c ∈ text, c ≠ '"' ∧ c ≠ '\\')
    (rest : List Char) : bareCode .literal (text ++ rest) = bareCode .literal rest := by
  induction text with
  | nil => rfl
  | cons c text ih =>
    obtain ⟨⟨hEnd, hEscape⟩, hText⟩ := List.forall_mem_cons.mp h
    rw [List.cons_append, bareCode, if_neg hEnd, if_neg hEscape, ih hText]

theorem bareCode_escapeChar (c : Char) (rest : List Char) :
    bareCode .literal (escapeChar shown c ++ rest) = bareCode .literal rest := by
  rw [escapeChar]
  repeat' split
  · rfl
  · rfl
  · rfl
  · rfl
  · rfl
  · rfl
  -- A character that stays is neither a quote nor a backslash, and neither is a digit.
  · next hEnd hEscape _ => exact bareCode_literal_append (by simp [hEnd, hEscape]) rest
  · have hDigits : ∀ d ∈ Nat.toDigits 16 c.toNat ++ ['\x7d'], d ≠ '"' ∧ d ≠ '\\' := by
      intro d hd
      rcases List.mem_append.mp hd with hDigit | hBrace
      · have hAlphanum := isAlphanum_of_mem_toDigits (by decide) hDigit
        constructor <;> rintro rfl <;> cases hAlphanum
      · rw [List.mem_singleton.mp hBrace]
        decide
    rw [List.append_assoc, List.append_assoc]
    change bareCode .literal (Nat.toDigits 16 c.toNat ++ (['\x7d'] ++ rest)) = _
    rw [← List.append_assoc, bareCode_literal_append hDigits]

theorem bareCode_escape (text rest : List Char) :
    bareCode .literal (escape shown text ++ rest) = bareCode .literal rest := by
  induction text with
  | nil => rfl
  | cons c text ih =>
    rw [escape, List.flatMap_cons, List.append_assoc, bareCode_escapeChar, ← escape, ih]

/-- A literal is emptied, and the code goes on after it. -/
theorem bare_quote_append (text rest : String) :
    bare (quote shown text ++ rest) = "\"\"" ++ bare rest := by
  have hInside : bareCode .literal (escape shown text.toList ++ '"' :: rest.toList) = _ :=
    bareCode_escape text.toList ('"' :: rest.toList)
  rw [bare, quote, String.toList_append, String.toList_ofList, List.cons_append,
    List.append_assoc, List.singleton_append, bareCode, if_pos rfl, hInside, bareCode, if_pos rfl,
    bare, ← String.toList_inj, String.toList_append, String.toList_ofList, String.toList_ofList]
  simp

/-! ## Code stays -/

/-- A text that begins neither a literal nor a comment. -/
def Plain (text : String) : Prop :=
  ∀ c ∈ text.toList, c ≠ '"' ∧ c ≠ '/'

instance : DecidablePred Plain :=
  fun text => decidable_of_iff (text.toList.all (fun c => c != '"' && c != '/') = true)
    (by simp [Plain])

theorem plain_append (s t : String) : Plain (s ++ t) ↔ Plain s ∧ Plain t := by
  simp only [Plain, String.toList_append, List.forall_mem_append]

theorem plain_of_isIdentifier {name : String} (h : isIdentifier name = true) : Plain name := by
  intro c hc
  have hWord := isWordPart_of_mem_identifier h hc
  constructor <;> rintro rfl <;> exact absurd hWord (by decide)

theorem plain_toString (n : Nat) : Plain (toString n) := by
  intro c hc
  rw [Nat.toString_eq_ofList_toDigits, String.toList_ofList] at hc
  have hAlphanum := isAlphanum_of_mem_toDigits (by decide) hc
  constructor <;> rintro rfl <;> exact absurd hAlphanum (by decide)

/-- A plain text stays in front of the rest of a line. -/
theorem bare_append {text : String} (h : Plain text) (rest : String) :
    bare (text ++ rest) = text ++ bare rest := by
  have hText : ∀ front : List Char, (∀ c ∈ front, c ≠ '"' ∧ c ≠ '/') →
      bareCode .code (front ++ rest.toList) = front ++ bareCode .code rest.toList := by
    intro front hFront
    induction front with
    | nil => rfl
    | cons c front ih =>
      obtain ⟨⟨hLiteral, hComment⟩, hRest⟩ := List.forall_mem_cons.mp hFront
      rw [List.cons_append, bareCode, if_neg hLiteral, if_neg fun hBoth => hComment hBoth.1,
        ih hRest, List.cons_append]
  rw [bare, String.toList_append, hText _ h, String.ofList_append, String.ofList_toList, bare]

theorem bare_eq_self {text : String} (h : Plain text) : bare text = text := by
  have hEmpty : bare "" = "" := rfl
  have hAppend := bare_append h ""
  rwa [hEmpty, String.append_empty] at hAppend

theorem bare_literals_append (texts : List String) (rest : String) :
    bare (", ".intercalate (texts.map (quote shown)) ++ rest) =
      ", ".intercalate (List.replicate texts.length "\"\"") ++ bare rest := by
  have hComma : Plain ", " := by decide
  induction texts with
  | nil => simp
  | cons text texts ih =>
    cases texts with
    | nil => simp [bare_quote_append]
    | cons next texts =>
      simp only [List.map_cons, List.length_cons, List.replicate_succ,
        String.intercalate_cons_cons, String.append_assoc] at ih ⊢
      rw [bare_quote_append, bare_append hComma, ih]

/-! ## Code of the lines of a file -/

theorem codeLine_constant {constant : Constant} (h : isIdentifier constant.name = true) :
    CodeLine (bare (constant.line shown)) := by
  have hName := plain_of_isIdentifier h
  rw [Constant.line]
  split
  · next place _ =>
    rw [bare_eq_self (by simp +decide only [plain_append, hName, plain_toString, and_true])]
    exact .index place h
  · next text _ =>
    have hFront : Plain ("    pub const " ++ constant.name ++ ": &'static str = ") := by
      simp +decide only [plain_append, hName, and_true]
    have hEnd : Plain ";" := by decide
    rw [String.append_assoc, bare_append hFront, bare_quote_append, bare_eq_self hEnd,
      ← String.append_assoc]
    exact .text h

/-- The row of a version has fixed code; its name is in a comment. -/
theorem codeLine_row (row : VersionRow) : ∀ line ∈ row.lines shown, CodeLine (bare line) := by
  have hComment : bare ("        // " ++ row.name) = "        " := by
    rw [bare, String.toList_append]
    rfl
  have hValue : ∀ value ∈ row.values,
      CodeLine (bare ("            " ++ quote shown value ++ ",")) := by
    intro value _
    have hBlanks : Plain "            " := by decide
    have hEnd : Plain "," := by decide
    rw [String.append_assoc, bare_append hBlanks, bare_quote_append, bare_eq_self hEnd]
    exact .fixed (by decide)
  rw [VersionRow.lines]
  simp only [List.forall_mem_append, List.forall_mem_cons, List.forall_mem_map, hComment]
  exact ⟨⟨⟨.fixed (by decide), .fixed (by decide), by simp⟩, hValue⟩, .fixed (by decide), by simp⟩

theorem codeLine_table (lookup : Lookup) :
    ∀ line ∈ lookup.tableLines shown, CodeLine (bare line) := by
  have hRows : ∀ line ∈ lookup.table.rows.flatMap (VersionRow.lines shown),
      CodeLine (bare line) := by
    rw [List.forall_mem_flatMap]
    exact fun row _ => codeLine_row row
  have hDefault : CodeLine (bare ("    const DEFAULT_VERSION: &'static str = " ++
      quote shown lookup.defaultVersion ++ ";")) := by
    have hFront : Plain "    const DEFAULT_VERSION: &'static str = " := by decide
    have hEnd : Plain ";" := by decide
    rw [String.append_assoc, bare_append hFront, bare_quote_append, bare_eq_self hEnd]
    exact .fixed (by decide)
  have hAllowed : CodeLine (bare ("    const ALLOWED_VERSIONS: [&'static str; " ++
      toString lookup.allowedVersions.length ++ "] = [" ++
      ", ".intercalate (lookup.allowedVersions.map (quote shown)) ++ "];")) := by
    have hFront : Plain ("    const ALLOWED_VERSIONS: [&'static str; " ++
        toString lookup.allowedVersions.length ++ "] = [") := by
      simp +decide only [plain_append, plain_toString, and_true]
    have hEnd : Plain "];" := by decide
    rw [String.append_assoc, bare_append hFront, bare_literals_append, bare_eq_self hEnd,
      ← String.append_assoc]
    exact .allowedVersions _
  have hValues : CodeLine (bare ("    const VALUES: [[&'static str; " ++
      toString lookup.table.identifiers.length ++ "]; " ++
      toString lookup.table.rows.length ++ "] = [")) := by
    rw [bare_eq_self (by simp +decide only [plain_append, plain_toString, and_true])]
    exact .values _ _
  rw [Lookup.tableLines]
  simp only [List.forall_mem_append, List.forall_mem_cons]
  exact ⟨⟨⟨hDefault, hAllowed, hValues, by simp⟩, hRows⟩, .fixed (by decide), by simp⟩

theorem codeLine_implementation {name : String} (h : isIdentifier name = true)
    {members : List String} (hMembers : ∀ line ∈ members, CodeLine (bare line)) :
    ∀ line ∈ implementation name members, CodeLine (bare line) := by
  have hName := plain_of_isIdentifier h
  have hOpening : CodeLine (bare ("impl " ++ name ++ " \x7b")) := by
    rw [bare_eq_self (by simp +decide only [plain_append, hName, and_true])]
    exact .opening h
  rw [implementation]
  simp only [List.forall_mem_append, List.forall_mem_cons]
  exact ⟨⟨⟨hOpening, by simp⟩, hMembers⟩, .fixed (by decide), by simp⟩

theorem codeLine_type {name : String} (h : isIdentifier name = true) :
    CodeLine (bare ("pub struct " ++ name ++ ";")) := by
  have hName := plain_of_isIdentifier h
  rw [bare_eq_self (by simp +decide only [plain_append, hName, and_true])]
  exact .type h

/-- The type of the keys of a table differs in its identifiers and numbers alone; the name of the
table is in a comment. -/
theorem codeLine_keyModule {keys : KeyModule} (className : String)
    (hName : isIdentifier keys.name = true)
    (hConstants : ∀ constant ∈ keys.constants, isIdentifier constant.name = true) :
    ∀ line ∈ keys.lines shown className, CodeLine (bare line) := by
  have hComment : bare ("/// Keys of table `" ++ keys.table ++ "`, for use with [`" ++ className ++
      "::get_value`]") = "" := by
    simp only [bare, String.toList_append, List.append_assoc]
    rfl
  have hMembers : ∀ line ∈ keys.constants.map (Constant.line shown), CodeLine (bare line) := by
    rw [List.forall_mem_map]
    exact fun constant hConstant => codeLine_constant (hConstants constant hConstant)
  rw [KeyModule.lines, List.forall_mem_append]
  refine ⟨?_, codeLine_implementation hName hMembers⟩
  simp only [List.forall_mem_cons, hComment]
  exact ⟨.fixed (by decide), .fixed (by decide), codeLine_type hName, .fixed (by decide), by simp⟩

theorem codeLine_functions : ∀ line ∈ lookupFunctions, CodeLine (bare line) := by
  -- Only the first line has a comment; every other line is all code.
  have hComment : bare "    /// Value of `key` in `version`, if both are known" = "    " :=
    bare_ofList _
  have hRest : ∀ line ∈ lookupFunctions.tail, bare line = line := by
    simp only [lookupFunctions, List.tail_cons, List.forall_mem_cons, List.not_mem_nil,
      false_implies, implies_true, and_true]
    repeat' apply And.intro
    all_goals exact bare_ofList _
  intro line hLine
  rcases List.mem_cons.mp hLine with rfl | hTail
  · rw [hComment]
    exact .fixed (by decide)
  · rw [hRest line hTail]
    exact .fixed (List.mem_append_right _ hLine)

theorem codeLine_members {generated : GeneratedModule} (hNamed : generated.WellNamed) :
    ∀ line ∈ generated.members, CodeLine (bare line) := by
  rw [GeneratedModule.members, GeneratedModule.membersShowing, List.forall_mem_append,
    List.forall_mem_map]
  refine ⟨fun constant hConstant => codeLine_constant (hNamed.constants constant hConstant), ?_⟩
  cases hLookup : generated.lookup? with
  | none => exact fun line hLine => absurd hLine List.not_mem_nil
  | some lookup =>
    have hBlank : ∀ line ∈ [""], CodeLine (bare line) := by
      rw [List.forall_mem_singleton]
      exact .fixed (by decide)
    rw [List.forall_mem_append, List.forall_mem_append, List.forall_mem_append]
    exact ⟨⟨⟨hBlank, codeLine_table lookup⟩, hBlank⟩, codeLine_functions⟩

theorem codeLine_header (generated : GeneratedModule) :
    ∀ line ∈ generated.headerLines, CodeLine (bare line) := by
  have hSource : bare ("//! Generated by resgen from " ++ generated.sourceName ++
      " - DO NOT EDIT") = "" := by
    simp only [bare, String.toList_append, List.append_assoc]
    rfl
  have hPath : bare ("//! Module path: " ++
      "::".intercalate (generated.namespacePath ++ [generated.moduleName])) = "" := by
    simp only [bare, String.toList_append]
    rfl
  have hFingerprint : bare (Fingerprint.of generated.body).headerLine = "" := by
    simp only [bare, Fingerprint.headerLine, String.toList_append]
    rfl
  have hEmpty : CodeLine "" := .fixed (by decide)
  rw [GeneratedModule.headerLines]
  simp only [List.forall_mem_cons, hSource, hPath, hFingerprint]
  exact ⟨hEmpty, hEmpty, hEmpty, hEmpty, hEmpty, by simp⟩

/-- The code of every line that a file is made of is fixed but for identifiers and numbers. -/
theorem codeLine_of_mem_lines {generated : GeneratedModule} (hNamed : generated.WellNamed) :
    ∀ line ∈ generated.lines, CodeLine (bare line) := by
  have hKeys : ∀ line ∈ generated.keyModules.flatMap
      (fun keys => keys.lines isPrintable generated.className), CodeLine (bare line) := by
    rw [List.forall_mem_flatMap]
    intro keys hKeys
    obtain ⟨hName, hConstants⟩ := hNamed.keyModules keys hKeys
    exact codeLine_keyModule generated.className hName hConstants
  obtain ⟨heading, hMem, hBody⟩ := exists_heading generated
  have hHeadings : ∀ heading ∈ ["/// Versioned resource values", "/// Resource constants"],
      bare heading ∈ fixedCode := by decide
  have hClass := codeLine_implementation hNamed.className (codeLine_members hNamed)
  rw [GeneratedModule.lines, List.forall_mem_append, hBody, List.forall_mem_append,
    List.forall_mem_append]
  refine ⟨codeLine_header generated, ⟨?_, hClass⟩, hKeys⟩
  simp only [List.forall_mem_cons]
  exact ⟨.fixed (hHeadings heading hMem), codeLine_type hNamed.className, .fixed (by decide),
    by simp⟩

/-! ## Physical lines -/

/-- Every module that a definition file is compiled to has the names of its versions on one line.
The physical lines of the generated file are the lines that it is made of exactly if the name of the
definition file, the module path and the names of tables are on one line, too. In that case the code
of every physical line is fixed but for identifiers and numbers: all other text is inside a comment
or a literal. -/
theorem feedLines_render_iff {compiler : Compiler} {tree : Tree} {path : Path} {mode : Mode}
    {generated : GeneratedModule} (h : compiler.describeFile tree path mode = .ok generated) :
    (∀ lookup, generated.lookup? = some lookup → ∀ row ∈ lookup.table.rows, OneLine row.name) ∧
      (feedLines generated.render.toList =
          generated.lines.map (fun line => (line.toList, true)) ↔
        generated.RawOneLine) ∧
      (generated.RawOneLine → ∀ line ∈ feedLines generated.render.toList,
        line.2 = true ∧ CodeLine (bare (String.ofList line.1))) := by
  obtain ⟨definition, -, hDescribe⟩ := Checked.bind_eq_ok.mp h
  have hNamed := wellNamed_of_describe hDescribe
  have hLines : feedLines generated.render.toList =
      generated.lines.map (fun line => (line.toList, true)) ↔ generated.RawOneLine := by
    rw [GeneratedModule.render_eq_unlines, feedLines_unlines_iff, forall_oneLine_lines_iff hNamed]
  -- Under the condition a physical line is one the file is made of, and those have been classified.
  refine ⟨hNamed.versions, hLines, fun hRaw line hLine => ?_⟩
  rw [hLines.mpr hRaw] at hLine
  obtain ⟨own, hOwn, rfl⟩ := List.mem_map.mp hLine
  rw [String.ofList_toList]
  exact ⟨rfl, codeLine_of_mem_lines hNamed own hOwn⟩

/-! ## Two runs -/

/-- A compiler with the default naming decisions. -/
def appCompiler : Compiler where
  configuration := ⟨⟨"gen"⟩, "app", ⟨""⟩⟩
  naming := {}

/-- A file tree that holds one definition file. -/
def treeOfText (text : String) : Tree where
  entries := [(["texts.json"], .file (.text text))]

/-- A definition of one table, the name of which is on one line. -/
def plainText : String :=
  "\x7b\"class\":\"Texts\",\"type\":\"in-place\",\"defaultVersion\":\"en\"," ++
    "\"versions\":\x7b\"en\":\x7b\"home\":\x7b\"k\":\"v\"\x7d\x7d\x7d\x7d"

/-- A definition of one table, the name of which has a line feed between its words. -/
def brokenText : String :=
  "\x7b\"class\":\"Texts\",\"type\":\"in-place\",\"defaultVersion\":\"en\"," ++
    "\"versions\":\x7b\"en\":\x7b\"a\\nb\":\x7b\"k\":\"v\"\x7d\x7d\x7d\x7d"

/-- The physical lines of the file of the plain definition are code lines. -/
theorem feedLines_render_plain : ∃ generated,
    appCompiler.describeFile (treeOfText plainText) ⟨"texts.json"⟩ .values = .ok generated ∧
      ∀ line ∈ feedLines generated.render.toList,
        line.2 = true ∧ CodeLine (bare (String.ofList line.1)) := by
  have hRun : (appCompiler.describeFile (treeOfText plainText) ⟨"texts.json"⟩ .values).toOption.map
      (fun generated => (generated.sourceName, generated.namespacePath,
        generated.keyModules.map (·.table))) = some ("texts.json", ["app"], ["home"]) := by
    decide +kernel
  obtain ⟨generated, hGenerated, hTexts⟩ := Checked.map_toOption_eq_some_iff.mp hRun
  simp only [Prod.mk.injEq] at hTexts
  obtain ⟨hSource, hPath, hTables⟩ := hTexts
  have hRaw : generated.RawOneLine := by
    refine ⟨?_, ?_, List.forall_mem_map.mp ?_⟩
    · rw [hSource]
      decide
    · rw [hPath]
      decide
    · rw [hTables]
      decide
  exact ⟨generated, hGenerated, (feedLines_render_iff hGenerated).2.2 hRaw⟩

/-- The broken definition is compiled, too, with the line feed in a comment of the file, so that the
physical lines are not the lines that the file is made of. -/
theorem not_rawOneLine_broken : ∃ generated,
    appCompiler.describeFile (treeOfText brokenText) ⟨"texts.json"⟩ .values = .ok generated ∧
      generated.keyModules.map (·.table) = ["a\nb"] ∧ ¬generated.RawOneLine ∧
      feedLines generated.render.toList ≠
        generated.lines.map (fun line => (line.toList, true)) := by
  have hRun : (appCompiler.describeFile (treeOfText brokenText) ⟨"texts.json"⟩ .values).toOption.map
      (fun generated => generated.keyModules.map (·.table)) = some ["a\nb"] := by
    decide +kernel
  obtain ⟨generated, hGenerated, hTables⟩ := Checked.map_toOption_eq_some_iff.mp hRun
  have hRaw : ¬generated.RawOneLine := by
    intro h
    have hNames : ∀ table ∈ generated.keyModules.map (·.table), OneLine table :=
      List.forall_mem_map.mpr h.tables
    rw [hTables] at hNames
    exact absurd (hNames "a\nb" List.mem_cons_self) (by decide)
  obtain ⟨definition, -, hDescribe⟩ := Checked.bind_eq_ok.mp hGenerated
  refine ⟨generated, hGenerated, hTables, hRaw, ?_⟩
  rw [ne_eq, GeneratedModule.render_eq_unlines, feedLines_unlines_iff,
    forall_oneLine_lines_iff (wellNamed_of_describe hDescribe)]
  exact hRaw

end ResourceTables
