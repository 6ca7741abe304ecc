import ResourceTables.Text.CaseTable

/-!
# Upper and lower case

Case mappings of characters and of texts. The upper case of a character is a sequence, because a
few characters grow: the upper case of `ß` is `SS`.

## Main definitions

* `upperChar`, `lowerChar`: the mappings of one character.
* `toUpper`, `toLower`: a text, mapped character by character.
-/

namespace ResourceTables.Text

/-- The image of a code point under the first of the runs that contains it. -/
def imageIn? (runs : List CaseRun) (code : Nat) : Option Nat :=
  runs.findSome? fun run => run.image? code

/-- The upper case of a character. -/
def upperChar (c : Char) : List Char :=
  if c.toNat < 0x80 then
    [c.toUpper]
  else
    match upperSequences.lookup c.toNat with
    | some codes => codes.map Char.ofNat
    | none => [((imageIn? upperRuns c.toNat).map Char.ofNat).getD c]

/-- The lower case of a character; only `İ` has two characters. -/
def lowerChar (c : Char) : List Char :=
  if c.toNat < 0x80 then
    [c.toLower]
  else if c.toNat = 0x130 then
    ['i', Char.ofNat 0x307]
  else
    [((imageIn? lowerRuns c.toNat).map Char.ofNat).getD c]

/-- The upper case of a text. -/
def toUpper (text : String) : String :=
  String.ofList (text.toList.flatMap upperChar)

/-- The lower case of a text, each character for itself. -/
def toLower (text : String) : String :=
  String.ofList (text.toList.flatMap lowerChar)

end ResourceTables.Text
