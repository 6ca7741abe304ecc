import ResourceTables.Text.Blank
import ResourceTables.Text.Casing

/-!
# Spellings of a key

The spellings that names of a generated module take from raw keys: constants are in upper case,
types run words together, files have words apart.

## Main definitions

* `constantCase`: `full-name` as `FULL_NAME`.
* `camelCase`, `pascalCase`: `full_name` as `fullName` and as `FullName`.
* `snakeCase`: `PageTitles` as `page_titles`.
-/

namespace ResourceTables

open Text

/-- A key in upper case, with underscores for dashes. -/
def constantCase (key : String) : String :=
  toUpper (String.ofList (key.toList.map fun c => if c = '-' then '_' else c))

/-- A character that parts two words. -/
def isWordBreak (c : Char) : Bool :=
  c = '_' || c = '-' || isBlank c

/-- The text goes on with a letter or digit once word breaks are skipped. -/
def joinsWord (text : List Char) : Bool :=
  (text.dropWhile isWordBreak).head?.any Char.isAlphanum

/-- Words run together: a word break in front of a letter or digit vanishes, and that letter is
raised. The flag tells that a word break has just vanished. -/
def joinWords : Bool → List Char → List Char
  | _, [] => []
  | raised, c :: rest =>
    if isWordBreak c && joinsWord rest then
      joinWords true rest
    else
      (if raised then c.toUpper else c) :: joinWords false rest

/-- Words run together, each but the first with a capital. -/
def camelCase (key : String) : String :=
  String.ofList (joinWords false key.toList)

/-- Words run together, each with a capital. -/
def pascalCase (key : String) : String :=
  match joinWords false key.toList with
  | [] => ""
  | c :: rest => String.ofList (upperChar c ++ rest)

/-- Words apart: a capital becomes small, with an underscore in front of it after a small letter or
digit, which the flag tells; dashes and spaces become underscores. -/
def partWords : Bool → List Char → List Char
  | _, [] => []
  | afterSmall, c :: rest =>
    if c.isUpper then
      if afterSmall then '_' :: c.toLower :: partWords false rest
      else c.toLower :: partWords false rest
    else if c = '-' || c = ' ' then
      '_' :: partWords false rest
    else
      c :: partWords (c.isLower || c.isDigit) rest

/-- Words apart, in small letters. -/
def snakeCase (name : String) : String :=
  String.ofList (partWords false name.toList)

end ResourceTables
