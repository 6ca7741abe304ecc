import ResourceTables.Document.Value

/-!
# Writing JSON texts

Document values as JSON texts over several lines, indented by two spaces a level. Empty arrays and
maps are written on one line.

## Main definitions

* `jsonString`: a string in quotes.
* `Value.toJson`: the JSON text of a value.
-/

namespace ResourceTables

/-- The characters that stand for a character in a JSON string. -/
def jsonEscape (c : Char) : List Char :=
  if c = '"' then ['\\', '"']
  else if c = '\\' then ['\\', '\\']
  else if c = '\x08' then ['\\', 'b']
  else if c = '\x0c' then ['\\', 'f']
  else if c = '\n' then ['\\', 'n']
  else if c = '\r' then ['\\', 'r']
  else if c = '\t' then ['\\', 't']
  else if c.toNat < 0x20 then
    let digits := Nat.toDigits 16 c.toNat
    ['\\', 'u'] ++ List.replicate (4 - digits.length) '0' ++ digits
  else [c]

/-- A string in quotes. -/
def jsonString (text : String) : String :=
  String.ofList ('"' :: (text.toList.flatMap jsonEscape ++ ['"']))

/-- The start of a line at a level. -/
def indent (level : Nat) : String :=
  String.ofList (List.replicate (2 * level) ' ')

/-- Parts between brackets, each on lines of its own at the next level. -/
def bracketed (opening closing : String) (level : Nat) (parts : List String) : String :=
  if parts.isEmpty then opening ++ closing
  else
    opening ++ "\n" ++ ",\n".intercalate (parts.map (indent (level + 1) ++ ·)) ++ "\n" ++
      indent level ++ closing

mutual

/-- The JSON text of a value at a level. -/
def Value.toJsonAt (level : Nat) : Value → String
  | .null => "null"
  | .boolean value => writeBool value
  | .number value => value.write
  | .string text => jsonString text
  | .array items => bracketed "[" "]" level (jsonItems (level + 1) items)
  | .map entries => bracketed "\x7b" "\x7d" level (jsonEntries (level + 1) entries)

/-- The JSON texts of the items of an array. -/
def jsonItems (level : Nat) : List Value → List String
  | [] => []
  | item :: rest => item.toJsonAt level :: jsonItems level rest

/-- The JSON texts of the entries of a map. -/
def jsonEntries (level : Nat) : List (String × Value) → List String
  | [] => []
  | (key, value) :: rest =>
    (jsonString key ++ ": " ++ value.toJsonAt level) :: jsonEntries level rest

end

/-- The JSON text of a value. -/
def Value.toJson (value : Value) : String :=
  value.toJsonAt 0

end ResourceTables
