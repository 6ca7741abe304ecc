import ResourceTables.Proofs.GeneratedModule.Lines
import ResourceTables.Proofs.Text.Tokens

/-!
# What a generated module declares

A reader of the source text of a module of versions. Its declarations are read token by token,
whatever blanks and comments stand between them: types with their constants, the default version,
the array of the versions and the array of the values. An array has to have as many items as its
type says. The functions are those of every module, and the name of a table is read off the comment
that its key type begins with.

A reader of a declaration takes the lines that the declaration is written on and nothing after them,
so that the readers can be put together as the lines are.

## Main definitions

* `DeclaredModule`: what the text of a module declares.
* `DeclaredModule.reader`: the reader of such texts.
* `followingLines`: the text of lines that come after others.

## Main results

* `takes_constant`, `takes_keyModule`: constants and key types are read as they are written.
* `takes_valuesItem`: the rows are read if they are as long as their type says.
* `run?_reader_bodyShowing`: the body of a module is read as what its description holds.
-/

namespace ResourceTables

open Text Text.Reader

variable {shown : Char → Bool}

/-- What the text of a module of versions declares. -/
structure DeclaredModule where
  className : String
  constants : List Constant
  defaultVersion : String
  /-- The declared length of the array of versions. -/
  versionCount : Nat
  versions : List String
  /-- The declared length of a row of values. -/
  width : Nat
  /-- The declared number of rows. -/
  height : Nat
  rows : List (List String)
  keyModules : List KeyModule
deriving DecidableEq

/-- Lines, each after a line end. -/
def followingLines (lines : List String) : List Char :=
  lines.flatMap fun line => '\n' :: line.toList

theorem followingLines_append (lines others : List String) :
    followingLines (lines ++ others) = followingLines lines ++ followingLines others :=
  List.flatMap_append

/-- A file begins with its first line, and ends with a line end. -/
theorem toList_unlines_cons (line : String) (lines : List String) :
    (unlines (line :: lines)).toList = line.toList ++ (followingLines lines ++ ['\n']) := by
  rw [toList_unlines, List.flatMap_cons, List.append_assoc]
  congr 1
  induction lines with
  | nil => rfl
  | cons next lines ih => simp [followingLines] at ih ⊢; simp [ih]

namespace DeclaredModule

/-! ## Readers -/

/-- The declaration of a type, and the opening of its members. -/
def typeHead : Reader String := do
  tokens ["pub", "struct"]
  let own ← name
  tokens [";", "impl"]
  let again ← name
  token "\x7b"
  if again = own then return own else failure

/-- The type and the value of a constant. -/
def constantValue : Reader ConstantValue :=
  (do
    tokens [":", "usize", "="]
    return .index (← number)) <|>
  (do
    tokens [":", "&", "'", "static", "str", "="]
    return .text (← literal))

/-- A constant that can be used from outside. -/
def constant : Reader Constant := do
  tokens ["pub", "const"]
  let own ← name
  let value ← constantValue
  token ";"
  return ⟨own, value⟩

/-- The default version. -/
def defaultVersionItem : Reader String := do
  tokens ["const", "DEFAULT_VERSION", ":", "&", "'", "static", "str", "="]
  let text ← literal
  token ";"
  return text

/-- The versions, with their declared number. -/
def versionsItem : Reader (Nat × List String) := do
  tokens ["const", "ALLOWED_VERSIONS", ":", "[", "&", "'", "static", "str", ";"]
  let count ← number
  tokens ["]", "="]
  let versions ← arrayOf literal count
  token ";"
  return (count, versions)

/-- The rows of values, with the declared length and number of them. -/
def valuesItem : Reader (Nat × Nat × List (List String)) := do
  tokens ["const", "VALUES", ":", "[", "[", "&", "'", "static", "str", ";"]
  let width ← number
  tokens ["]", ";"]
  let height ← number
  tokens ["]", "="]
  let rows ← arrayOf (arrayOf literal width) height
  token ";"
  return (width, height, rows)

/-- A type that holds the keys of a table, with the comment that names the table. -/
def keyModule : Reader KeyModule := do
  word "\n\n/// Keys of table `"
  let table ← takeWhile (· != '\x60')
  let _ ← takeWhile (· != '\n')
  let own ← typeHead
  let constants ← all constant
  token "\x7d"
  return ⟨own, String.ofList table, constants⟩

/-- A module of versions. -/
def reader : Reader DeclaredModule := do
  let className ← typeHead
  let constants ← all constant
  let defaultVersion ← defaultVersionItem
  let (versionCount, versions) ← versionsItem
  let (width, height, rows) ← valuesItem
  word (String.ofList (followingLines ([""] ++ lookupFunctions ++ ["\x7d"])))
  let keyModules ← all keyModule
  gap
  finish
  return ⟨className, constants, defaultVersion, versionCount, versions, width, height, rows,
    keyModules⟩

/-! ## Types and constants -/

theorem gap_space : Gap [' '] :=
  .of_all (by decide)

/-- A declaration ends in a semicolon. -/
theorem takes_semicolon (rest : List Char) : (token ";").Takes [';'] () rest := rfl

/-- The type of texts has a lifetime, which is read as a sign and a word. -/
theorem takes_lifetime (rest : List Char) :
    (tokens ["'", "static"]).Takes "'static".toList () (' ' :: rest) := by
  have hSign : ∀ rest, (tokens ["'"]).Takes ['\''] () rest := fun _ => rfl
  have hWord : (tokens ["static"]).Takes "static".toList () (' ' :: rest) := rfl
  have hText : "'static".toList = ['\''] ++ "static".toList := by decide
  have hBoth := takes_tokens_append (hSign ("static".toList ++ ' ' :: rest)) hWord
  rwa [hText]

/-- Tokens with the type of texts among them are read if those around it are. -/
theorem takes_tokens_lifetime {front back expected : List String} {before after text : List Char}
    (hFront : ∀ rest, (tokens front).Takes before () rest)
    (hBack : ∀ rest, (tokens back).Takes (' ' :: after) () rest)
    (hExpected : expected = front ++ (["'", "static"] ++ back))
    (hText : text = before ++ ("'static".toList ++ ' ' :: after)) (rest : List Char) :
    (tokens expected).Takes text () rest := by
  rw [hExpected, hText]
  exact takes_tokens_append (hFront _) (takes_tokens_append (takes_lifetime _) (hBack _))

theorem takes_textIs (rest : List Char) :
    (tokens ["str", "="]).Takes (' ' :: "str =".toList) () rest :=
  rfl

theorem takes_textOf (rest : List Char) :
    (tokens ["str", ";"]).Takes (' ' :: "str;".toList) () rest :=
  rfl

/-- The type of an array is followed by what the array is. -/
theorem takes_arrayIs (rest : List Char) :
    (tokens ["]", "="]).Takes (']' :: " =".toList) () rest :=
  rfl

/-- The declaration of a type as it is written, from its name up to its first member. -/
def spellType (own : String) : List Char :=
  ([' '] ++ own.toList) ++ (';' :: "\n\nimpl".toList ++
    (([' '] ++ own.toList) ++ (' ' :: "\x7b".toList)))

/-- A type is read under its name, whatever comes before the first word of its declaration. -/
theorem takes_typeHead {opening : List Char}
    (hOpening : ∀ rest, (tokens ["pub", "struct"]).Takes opening () (' ' :: rest)) {own : String}
    (hOwn : isIdentifier own = true) (rest : List Char) :
    typeHead.Takes (opening ++ spellType own) own rest := by
  have hImpl : ∀ rest,
      (tokens [";", "impl"]).Takes (';' :: "\n\nimpl".toList) () (' ' :: rest) :=
    fun _ => rfl
  have hBrace : (token "\x7b").Takes (' ' :: "\x7b".toList) () rest := rfl
  refine (hOpening _).bind ((takes_name gap_space hOwn (by decide) _).bind
    ((hImpl _).bind ((takes_name gap_space hOwn (by decide) _).bind (hBrace.bind_nil ?_))))
  rw [if_pos rfl]
  exact takes_pure own rest

/-- The type and the value of a constant as they are written. -/
def spellValue (shown : Char → Bool) : ConstantValue → List Char
  | .index place => (':' :: " usize =".toList) ++ ([' '] ++ (toString place).toList)
  | .text text => (':' :: " &'static str =".toList) ++ ([' '] ++ (quote shown text).toList)

theorem takes_constantValue (value : ConstantValue) (rest : List Char) :
    constantValue.Takes (spellValue shown value) value (';' :: rest) := by
  cases value with
  | index place =>
    have hType : ∀ rest, (tokens [":", "usize", "="]).Takes (':' :: " usize =".toList) ()
        (' ' :: rest) :=
      fun _ => rfl
    refine Takes.orElse ?_
    exact (hType _).bind ((takes_number gap_space place (by decide) _).bind_nil (takes_pure _ _))
  | text text =>
    have hNone : ∀ rest, (tokens [":", "usize", "="]) ((':' :: " &'static str =".toList) ++ rest) =
        none :=
      fun _ => rfl
    have hFront : ∀ rest, (tokens [":", "&"]).Takes (':' :: " &".toList) () rest := fun _ => rfl
    have hType : ∀ rest, (tokens [":", "&", "'", "static", "str", "="]).Takes
        (':' :: " &'static str =".toList) () rest :=
      takes_tokens_lifetime hFront takes_textIs rfl (by decide)
    refine takes_orElse ?_ ((hType _).bind ((takes_literal gap_space shown text _).bind_nil
      (takes_pure _ _)))
    rw [spellValue, List.append_assoc]
    exact bind_eq_none (hNone _)

theorem takes_constant {own : Constant} (hOwn : isIdentifier own.name = true) (rest : List Char) :
    constant.Takes ('\n' :: (own.line shown).toList) own rest := by
  have hHead : ∀ rest, (tokens ["pub", "const"]).Takes ('\n' :: "    pub const".toList) ()
      (' ' :: rest) :=
    fun _ => rfl
  have hText : '\n' :: (own.line shown).toList = ('\n' :: "    pub const".toList) ++
      (([' '] ++ own.name.toList) ++ (spellValue shown own.value ++ [';'])) := by
    obtain ⟨name, place | text⟩ := own <;> simp [Constant.line, spellValue]
  have hName : name.Takes ([' '] ++ own.name.toList) own.name
      (spellValue shown own.value ++ [';'] ++ rest) := by
    cases own.value <;> exact takes_name gap_space hOwn (by decide) _
  rw [hText]
  exact (hHead _).bind (hName.bind ((takes_constantValue own.value _).bind
    ((takes_semicolon _).bind_nil (takes_pure _ _))))

/-- The constants of a type are read, up to a line that begins otherwise. -/
theorem takes_constants {constants : List Constant}
    (hConstants : ∀ own ∈ constants, isIdentifier own.name = true) {rest : List Char}
    (hRest : constant rest = none) :
    (all constant).Takes (followingLines (constants.map (Constant.line shown))) constants rest := by
  rw [followingLines, List.flatMap_map]
  exact takes_all (fun own hOwn rest => takes_constant (hConstants own hOwn) rest)
    (fun own hOwn => List.cons_ne_nil _ _) hRest

/-! ## The table -/

theorem followingLines_defaultVersion (version : String) :
    followingLines
        ["", "    const DEFAULT_VERSION: &'static str = " ++ quote shown version ++ ";"] =
      ('\n' :: '\n' :: "    const DEFAULT_VERSION: &'static str =".toList) ++
        (([' '] ++ (quote shown version).toList) ++ [';']) := by
  simp [followingLines]

theorem takes_defaultVersionItem (version : String) (rest : List Char) :
    defaultVersionItem.Takes (followingLines ["", "    const DEFAULT_VERSION: &'static str = " ++
      quote shown version ++ ";"]) version rest := by
  have hConst : ∀ rest, (tokens ["const", "DEFAULT_VERSION", ":"]).Takes
      ('\n' :: '\n' :: "    const DEFAULT_VERSION:".toList) () rest :=
    fun _ => rfl
  have hSigns : ∀ rest, (tokens ["&"]).Takes (' ' :: "&".toList) () rest := fun _ => rfl
  have hHead : ∀ rest, (tokens ["const", "DEFAULT_VERSION", ":", "&", "'", "static", "str",
      "="]).Takes ('\n' :: '\n' :: "    const DEFAULT_VERSION: &'static str =".toList) () rest :=
    takes_tokens_lifetime (fun _ => takes_tokens_append (hConst _) (hSigns _)) takes_textIs rfl
      (by decide)
  rw [followingLines_defaultVersion]
  exact (hHead _).bind ((takes_literal gap_space shown version _).bind
    ((takes_semicolon _).bind_nil (takes_pure _ _)))

/-- The default version is not a constant for use from outside, so the constants end in front of
it. -/
theorem constant_defaultVersion (version : String) (rest : List Char) :
    constant (followingLines ["", "    const DEFAULT_VERSION: &'static str = " ++
      quote shown version ++ ";"] ++ rest) = none := by
  have hNone : ∀ rest, (tokens ["pub", "const"])
      (('\n' :: '\n' :: "    const DEFAULT_VERSION: &'static str =".toList) ++ rest) = none :=
    fun _ => rfl
  rw [followingLines_defaultVersion, List.append_assoc]
  exact bind_eq_none (hNone _)

theorem followingLines_versions (count : Nat) (inside : String) :
    followingLines ["    const ALLOWED_VERSIONS: [&'static str; " ++ toString count ++ "] = [" ++
        inside ++ "];"] =
      ('\n' :: "    const ALLOWED_VERSIONS: [&'static str;".toList) ++
        (([' '] ++ (toString count).toList) ++ ((']' :: " =".toList) ++
          (([' '] ++ '[' :: (inside.toList ++ ([] ++ [']']))) ++ [';']))) := by
  simp [followingLines]

theorem takes_versionsItem (versions : List String) (rest : List Char) :
    versionsItem.Takes (followingLines ["    const ALLOWED_VERSIONS: [&'static str; " ++
        toString versions.length ++ "] = [" ++ ", ".intercalate (versions.map (quote shown)) ++
        "];"])
      (versions.length, versions) rest := by
  have hConst : ∀ rest, (tokens ["const", "ALLOWED_VERSIONS", ":"]).Takes
      ('\n' :: "    const ALLOWED_VERSIONS:".toList) () rest :=
    fun _ => rfl
  have hSigns : ∀ rest, (tokens ["[", "&"]).Takes (' ' :: "[&".toList) () rest := fun _ => rfl
  have hHead : ∀ rest,
      (tokens ["const", "ALLOWED_VERSIONS", ":", "[", "&", "'", "static", "str", ";"]).Takes
        ('\n' :: "    const ALLOWED_VERSIONS: [&'static str;".toList) () rest :=
    takes_tokens_lifetime (fun _ => takes_tokens_append (hConst _) (hSigns _)) takes_textOf rfl
      (by decide)
  have hCount := takes_number gap_space versions.length (show ']'.isDigit = false by decide)
  have hArray := takes_arrayOf gap_space .nil
    (takes_items_intercalate shown versions ([';'] ++ rest))
  rw [followingLines_versions]
  refine Takes.bind (hHead _) (Takes.bind (hCount _) (Takes.bind (takes_arrayIs _) ?_))
  exact Takes.bind hArray ((takes_semicolon _).bind_nil (takes_pure _ _))

/-- The array of a row as it is written, with the comment that names its version in front. -/
def spellRow (shown : Char → Bool) (row : VersionRow) : List Char :=
  ("\n        // ".toList ++ (row.name.toList ++ "\n        ".toList)) ++
    '[' :: (row.values.flatMap (fun value =>
        ("\n            ".toList ++ (quote shown value).toList) ++ [',']) ++
      ("\n        ".toList ++ [']']))

theorem followingLines_row (row : VersionRow) :
    followingLines (row.lines shown) = spellRow shown row ++ [','] := by
  have hValues :
      followingLines (row.values.map fun value => "            " ++ quote shown value ++ ",") =
        row.values.flatMap fun value =>
          ("\n            ".toList ++ (quote shown value).toList) ++ [','] := by
    rw [followingLines, List.flatMap_map]
    refine List.flatMap_congr fun value _ => ?_
    simp
  unfold spellRow
  rw [VersionRow.lines, followingLines_append, followingLines_append, hValues]
  simp [followingLines]

theorem gap_rowName {name : String} (h : OneLine name) :
    Gap ("\n        // ".toList ++ (name.toList ++ "\n        ".toList)) := by
  have hLine : '\n' ∉ ' ' :: name.toList := by
    rw [List.mem_cons, not_or]
    exact ⟨by decide, h⟩
  have hIndent : Gap "\n        ".toList := .of_all (by decide)
  have hComment : Gap ('/' :: '/' :: ((' ' :: name.toList) ++ '\n' :: "        ".toList)) :=
    .comment hLine (.of_all (by decide))
  have hText : "\n        // ".toList ++ (name.toList ++ "\n        ".toList) =
      "\n        ".toList ++ '/' :: '/' :: ((' ' :: name.toList) ++ '\n' :: "        ".toList) := by
    simp
  rw [hText]
  exact hIndent.append hComment

/-- A row is read if the name of its version is on one line. -/
theorem takes_row {row : VersionRow} (hName : OneLine row.name) (rest : List Char) :
    (arrayOf literal row.values.length).Takes (spellRow shown row) row.values rest := by
  have hIndent : Gap "\n            ".toList := .of_all (by decide)
  have hClosing : Gap "\n        ".toList := .of_all (by decide)
  have hValues := takes_items_of_commas
    (fun value (_ : value ∈ row.values) rest => takes_literal hIndent shown value rest)
    ("\n        ".toList ++ ']' :: rest)
  rw [List.map_id'] at hValues
  exact takes_arrayOf (gap_rowName hName) hClosing hValues

theorem followingLines_values (width height : Nat) (inside : List String) :
    followingLines (["    const VALUES: [[&'static str; " ++ toString width ++ "]; " ++
        toString height ++ "] = ["] ++ inside ++ ["    ];"]) =
      ('\n' :: "    const VALUES: [[&'static str;".toList) ++
        (([' '] ++ (toString width).toList) ++ ([']', ';'] ++
          (([' '] ++ (toString height).toList) ++ ((']' :: " =".toList) ++
            (([' '] ++ '[' :: (followingLines inside ++ ("\n    ".toList ++ [']']))) ++
              [';']))))) := by
  simp [followingLines]

/-- The rows are read if each of them has as many values as the type of the array says. -/
theorem takes_valuesItem {width : Nat} {rows : List VersionRow}
    (hNames : ∀ row ∈ rows, OneLine row.name) (hWidth : ∀ row ∈ rows, row.values.length = width)
    (rest : List Char) :
    valuesItem.Takes (followingLines (["    const VALUES: [[&'static str; " ++ toString width ++
        "]; " ++ toString rows.length ++ "] = ["] ++ rows.flatMap (VersionRow.lines shown) ++
        ["    ];"]))
      (width, rows.length, rows.map (·.values)) rest := by
  have hConst : ∀ rest, (tokens ["const", "VALUES", ":"]).Takes
      ('\n' :: "    const VALUES:".toList) () rest :=
    fun _ => rfl
  have hSigns : ∀ rest, (tokens ["[", "[", "&"]).Takes (' ' :: "[[&".toList) () rest :=
    fun _ => rfl
  have hHead : ∀ rest, (tokens ["const", "VALUES", ":", "[", "[", "&", "'", "static", "str",
      ";"]).Takes ('\n' :: "    const VALUES: [[&'static str;".toList) () rest :=
    takes_tokens_lifetime (fun _ => takes_tokens_append (hConst _) (hSigns _)) takes_textOf rfl
      (by decide)
  have hNumber : ∀ n rest, number.Takes ([' '] ++ (toString n).toList) n (']' :: rest) :=
    fun n => takes_number gap_space n (by decide)
  have hRow : ∀ rest, (tokens ["]", ";"]).Takes [']', ';'] () (' ' :: rest) :=
    fun _ => rfl
  have hClosing : Gap "\n    ".toList := .of_all (by decide)
  have hRows : ∀ row ∈ rows, ∀ rest,
      (arrayOf literal width).Takes (spellRow shown row) row.values rest :=
    fun row hMem rest => hWidth row hMem ▸ takes_row (hNames row hMem) rest
  have hArray := takes_arrayOf gap_space hClosing
    (takes_items_of_commas hRows ("\n    ".toList ++ ']' :: ([';'] ++ rest)))
  have hLines : followingLines (rows.flatMap (VersionRow.lines shown)) =
      rows.flatMap fun row => spellRow shown row ++ [','] := by
    rw [followingLines, List.flatMap_assoc]
    exact List.flatMap_congr fun row _ => followingLines_row row
  rw [followingLines_values, hLines]
  refine Takes.bind (hHead _) (Takes.bind (hNumber width _) (Takes.bind (hRow _) ?_))
  refine Takes.bind (hNumber rows.length _) (Takes.bind (takes_arrayIs _) ?_)
  exact Takes.bind hArray ((takes_semicolon _).bind_nil (takes_pure _ _))

/-! ## Key types -/

/-- What stands between the name of a table and the type that holds its keys. -/
def spellUse (className : String) : List Char :=
  '\x60' :: (", for use with [`".toList ++ (className.toList ++ "::get_value`]".toList))

theorem lineFeed_notMem_spellUse {className : String} (h : OneLine className) :
    '\n' ∉ spellUse className := by
  unfold spellUse
  rw [List.mem_cons, List.mem_append, List.mem_append, not_or, not_or, not_or]
  exact ⟨by decide, by decide, h, by decide⟩

theorem followingLines_keyModule (keys : KeyModule) (className : String) :
    followingLines (keys.lines shown className) = "\n\n/// Keys of table `".toList ++
      (keys.table.toList ++ (spellUse className ++ ((('\n' :: "pub struct".toList) ++
        spellType keys.name) ++ (followingLines (keys.constants.map (Constant.line shown)) ++
          ('\n' :: ['\x7d']))))) := by
  rw [KeyModule.lines, implementation, followingLines_append, followingLines_append,
    followingLines_append]
  unfold spellType spellUse
  simp [followingLines]

/-- A key type is read with the name of its table, if this has no character that ends it. -/
theorem takes_keyModule {keys : KeyModule} (hName : isIdentifier keys.name = true)
    (hConstants : ∀ own ∈ keys.constants, isIdentifier own.name = true)
    (hTable : '\x60' ∉ keys.table.toList) {className : String} (hClass : OneLine className)
    (rest : List Char) :
    keyModule.Takes (followingLines (keys.lines shown className)) keys rest := by
  have hOpening : ∀ rest, (tokens ["pub", "struct"]).Takes ('\n' :: "pub struct".toList) ()
      (' ' :: rest) :=
    fun _ => rfl
  have hNone : ∀ rest, constant ('\n' :: '\x7d' :: rest) = none :=
    fun _ => rfl
  have hEnd : (token "\x7d").Takes ('\n' :: ['\x7d']) () rest := rfl
  have hUse := takes_upTo (lineFeed_notMem_spellUse hClass)
  rw [followingLines_keyModule]
  refine Takes.bind (takes_given _ _) (Takes.bind (takes_upTo hTable _) ?_)
  refine Takes.bind (hUse _) (Takes.bind (takes_typeHead hOpening hName _) ?_)
  refine Takes.bind (takes_constants hConstants (hNone _)) (hEnd.bind_nil ?_)
  rw [String.ofList_toList]
  exact takes_pure keys rest

/-- Key types are read as long as there are any. -/
theorem takes_keyModules {keyModules : List KeyModule}
    (hNames : ∀ keys ∈ keyModules, isIdentifier keys.name = true ∧
      ∀ own ∈ keys.constants, isIdentifier own.name = true)
    (hTables : ∀ keys ∈ keyModules, '\x60' ∉ keys.table.toList) {className : String}
    (hClass : OneLine className) {rest : List Char} (hRest : keyModule rest = none) :
    (all keyModule).Takes
      (keyModules.flatMap fun keys => followingLines (keys.lines shown className)) keyModules
      rest := by
  refine takes_all (fun keys hMem rest => ?_) (fun keys _ => ?_) hRest
  · obtain ⟨hName, hConstants⟩ := hNames keys hMem
    exact takes_keyModule hName hConstants (hTables keys hMem) hClass rest
  · simp [KeyModule.lines, followingLines]

/-! ## Whole modules -/

/-- What a module of versions declares by its description. -/
def ofLookup (generated : GeneratedModule) (lookup : Lookup) : DeclaredModule where
  className := generated.className
  constants := generated.constants
  defaultVersion := lookup.defaultVersion
  versionCount := lookup.allowedVersions.length
  versions := lookup.allowedVersions
  width := lookup.table.identifiers.length
  height := lookup.table.rows.length
  rows := lookup.table.rows.map (·.values)
  keyModules := generated.keyModules

theorem followingLines_table (lookup : Lookup) (rest : List Char) :
    followingLines ([""] ++ lookup.tableLines shown) ++ rest =
      followingLines ["", "    const DEFAULT_VERSION: &'static str = " ++
          quote shown lookup.defaultVersion ++ ";"] ++
        (followingLines ["    const ALLOWED_VERSIONS: [&'static str; " ++
            toString lookup.allowedVersions.length ++ "] = [" ++
            ", ".intercalate (lookup.allowedVersions.map (quote shown)) ++ "];"] ++
          (followingLines (["    const VALUES: [[&'static str; " ++
              toString lookup.table.identifiers.length ++ "]; " ++
              toString lookup.table.rows.length ++ "] = ["] ++
            lookup.table.rows.flatMap (VersionRow.lines shown) ++ ["    ];"]) ++ rest)) := by
  rw [← List.append_assoc, ← List.append_assoc, ← followingLines_append, ← followingLines_append,
    Lookup.tableLines]
  rfl

/-- The body of a module of versions, in the pieces that are read one after the other. -/
theorem toList_bodyShowing {generated : GeneratedModule} {lookup : Lookup}
    (hLookup : generated.lookup? = some lookup) :
    (generated.bodyShowing shown).toList =
      (("/// Versioned resource values".toList ++ '\n' :: "pub struct".toList) ++
        spellType generated.className) ++
      (followingLines (generated.constants.map (Constant.line shown)) ++
        (followingLines ([""] ++ lookup.tableLines shown) ++
          (followingLines ([""] ++ lookupFunctions ++ ["\x7d"]) ++
            ((generated.keyModules.flatMap fun keys =>
                followingLines (keys.lines shown generated.className)) ++ ['\n'])))) := by
  have hKeys : followingLines (generated.keyModules.flatMap fun keys =>
      keys.lines shown generated.className) = generated.keyModules.flatMap fun keys =>
        followingLines (keys.lines shown generated.className) := by
    rw [followingLines, List.flatMap_assoc]
    rfl
  have hLines : generated.bodyLinesShowing shown = "/// Versioned resource values" ::
      (["pub struct " ++ generated.className ++ ";", "", "impl " ++ generated.className ++
          " \x7b"] ++ (generated.constants.map (Constant.line shown) ++
        (([""] ++ lookup.tableLines shown) ++ (([""] ++ lookupFunctions ++ ["\x7d"]) ++
          generated.keyModules.flatMap fun keys => keys.lines shown generated.className)))) := by
    rw [GeneratedModule.bodyLinesShowing, GeneratedModule.membersShowing, implementation, hLookup]
    simp
  rw [GeneratedModule.bodyShowing, hLines, toList_unlines_cons, followingLines_append,
    followingLines_append, followingLines_append (_ ++ _), followingLines_append (_ ++ _), hKeys]
  -- The lines of the table and the functions are not taken apart here.
  generalize followingLines ([""] ++ lookup.tableLines shown) = table
  generalize followingLines ([""] ++ lookupFunctions ++ ["\x7d"]) = functions
  unfold spellType
  simp [followingLines]

/-- The body of a module of versions is read as what its description holds, whichever characters its
literals show. -/
theorem run?_reader_bodyShowing {generated : GeneratedModule} {lookup : Lookup}
    (hLookup : generated.lookup? = some lookup) (hNamed : generated.WellNamed)
    (hWidth : ∀ row ∈ lookup.table.rows, row.values.length = lookup.table.identifiers.length)
    (hTables : ∀ keys ∈ generated.keyModules, '\x60' ∉ keys.table.toList) :
    reader.run? (generated.bodyShowing shown).toList = some (ofLookup generated lookup) := by
  have hOpening : ∀ rest, (tokens ["pub", "struct"]).Takes
      ("/// Versioned resource values".toList ++ '\n' :: "pub struct".toList) () (' ' :: rest) :=
    fun _ => rfl
  have hFunctions := takes_given
    (String.ofList (followingLines ([""] ++ lookupFunctions ++ ["\x7d"])))
  rw [String.toList_ofList] at hFunctions
  have hFeed : keyModule ['\n'] = none := rfl
  have hKeys : (all keyModule).Takes
      (generated.keyModules.flatMap fun keys =>
        followingLines (keys.lines shown generated.className)) generated.keyModules ['\n'] :=
    takes_keyModules hNamed.keyModules hTables (oneLine_of_isIdentifier hNamed.className) hFeed
  have hGap : gap.Takes ['\n'] () [] := rfl
  have hFinish : finish.Takes [] () [] := rfl
  have hReader :
      reader.Takes (generated.bodyShowing shown).toList (ofLookup generated lookup) [] := by
    rw [toList_bodyShowing hLookup, followingLines_table]
    -- The parts of the reader take the parts of the body, one after the other.
    refine Takes.bind (takes_typeHead hOpening hNamed.className _) ?_
    refine Takes.bind (takes_constants hNamed.constants ?_) ?_
    · rw [List.append_assoc]
      exact constant_defaultVersion _ _
    refine Takes.bind (takes_defaultVersionItem _ _) (Takes.bind (takes_versionsItem _ _) ?_)
    refine Takes.bind (takes_valuesItem (hNamed.versions lookup hLookup) hWidth _) ?_
    refine Takes.bind (hFunctions _) (Takes.bind hKeys ?_)
    exact Takes.bind_nil hGap (Takes.bind_nil hFinish (takes_pure _ _))
  rw [Takes, List.append_nil] at hReader
  rw [run?, hReader]
  rfl

end DeclaredModule

end ResourceTables
