import ResourceTables.Decimal.Word
import ResourceTables.Document.Json
import ResourceTables.Document.Toml
import ResourceTables.Entries
import ResourceTables.Text.Casing

/-!
# Settings

The settings of a manifest, before it is known what they mean: scalars, lists and tables. Keys do
not tell small letters from capitals. A setting is addressed by an expression such as
`naming.separator` or `values[0]`, and whatever is in the way of the address is replaced.

## Main definitions

* `Setting`: a value of the settings.
* `Address`: a key and the steps from its value on.
* `Address.ofText?`: the address that a text is.
* `Setting.put`: a setting at an address.
-/

namespace ResourceTables

open Text

/-- A value of the settings. -/
inductive Setting where
  | null
  | boolean (value : Bool)
  | number (value : Number)
  | text (text : String)
  | list (items : List Setting)
  | table (entries : List (String × Setting))

namespace Setting

/-- The entries of a table; other settings have none. -/
def entries : Setting → List (String × Setting)
  | .table entries => entries
  | _ => []

/-- The items of a list; other settings have none. -/
def items : Setting → List Setting
  | .list items => items
  | _ => []

/-- The text of a scalar. Numbers are written in full. -/
def asText? : Setting → Option String
  | .text content => some content
  | .boolean value => some (writeBool value)
  | .number (.integer value) => some (toString value)
  | .number (.real value) => some (value.write .plain)
  | _ => none

mutual

/-- Gives a key of a table a value. A table as a value is merged into the one there, key by key. -/
def assign (settings : Setting) (key : String) (value : Setting) : Setting :=
  let key := toLower key
  match value with
  | .table added =>
    let target := (settings.entries.lookup key).getD (.table [])
    .table (putEntry key (target.assignAll added) settings.entries)
  | scalar => .table (putEntry key scalar settings.entries)

/-- Gives the keys of a table values, one after the other. -/
def assignAll (settings : Setting) : List (String × Setting) → Setting
  | [] => settings
  | (key, value) :: rest => (settings.assign key value).assignAll rest

end

end Setting

/-- A step from a table or a list to what it holds. -/
inductive AddressStep where
  | key (name : String)
  /-- A negative place counts from the end. -/
  | place (index : Int)
deriving DecidableEq

/-- Where a setting is: a key and the steps from its value on. -/
structure Address where
  front : String
  steps : List AddressStep := []
deriving DecidableEq

namespace Address

open Reader

/-- A character of a key in an address. -/
def isKeyChar (c : Char) : Bool :=
  c.isAlphanum || c == ' ' || c == '_' || c == '-'

/-- A key in an address. -/
def readName : Reader String := do
  return String.ofList (← takeWhile1 isKeyChar)

/-- A place in brackets. -/
def readPlace : Reader Int := do
  let blanks := discard (takeWhile fun c => c == ' ' || c == '\t')
  char '['
  blanks
  let negative := (← optional (char '-')).isSome
  let size : Int := readDigits 10 (← takeWhile1 Char.isDigit)
  blanks
  char ']'
  if fitsSigned size then return if negative then -size else size else failure

/-- The steps of an address, of which there are fewer than `fuel`. -/
def readSteps : (fuel : Nat) → Reader (List AddressStep)
  | 0 => failure
  | fuel + 1 => do
    match ← peek with
    | none => return []
    | some '.' => do
      char '.'
      let name ← readName
      return .key name :: (← readSteps fuel)
    | some '[' => do
      let place ← readPlace
      return .place place :: (← readSteps fuel)
    | some _ => failure

/-- The address that a text is. -/
def ofText? (text : String) : Option Address :=
  let address : Reader Address := do
    let front ← readName
    return ⟨front, ← readSteps (text.length + 1)⟩
  address.run? text.toList

end Address

namespace Setting

/-- The item that a place stands for in a list of a length. -/
def itemIndex (length : Nat) (place : Int) : Nat :=
  if 0 ≤ place then place.toNat else length - place.natAbs

/-- Changes an item of a list; items before it that are absent are null. -/
def changeItem (index : Nat) (change : Setting → Setting) (items : List Setting) : List Setting :=
  let filled := items ++ List.replicate (index + 1 - items.length) .null
  filled.modify index change

/-- Puts a setting where the steps lead to. What is no table or list where the steps need one is
replaced by an empty one. -/
def putAt (settings : Setting) : List AddressStep → Setting → Setting
  | [], value => value
  | [.key name], value => settings.assign name value
  | .key name :: rest, value =>
    let key := toLower name
    let inner := ((settings.entries.lookup key).getD .null).putAt rest value
    .table (putEntry key inner settings.entries)
  | .place place :: rest, value =>
    let index := itemIndex settings.items.length place
    .list (changeItem index (fun item => item.putAt rest value) settings.items)

/-- Puts a setting at an address. -/
def put (settings : Setting) (address : Address) (value : Setting) : Setting :=
  settings.putAt (.key address.front :: address.steps) value

/-- Puts a setting under a key, which is taken as an address if it is one. -/
def putNamed (settings : Setting) (name : String) (value : Setting) : Setting :=
  match Address.ofText? name with
  | some address => settings.put address value
  | none => settings.assign name value

mutual

/-- A document value as a setting. Integers have 64 bits. -/
def ofValue : Value → Setting
  | .null => .null
  | .boolean value => .boolean value
  | .number (.integer value) =>
    .number (if fitsSigned value then .integer value else .real (.ofNat value.toNat))
  | .number (.real value) => .number (.real value)
  | .string content => .text content
  | .array items => .list (ofValues items)
  | .map entries => .table (ofValueEntries entries)

/-- Document values as settings. -/
def ofValues : List Value → List Setting
  | [] => []
  | value :: rest => ofValue value :: ofValues rest

/-- The entries of a map as entries of a table. -/
def ofValueEntries : List (String × Value) → List (String × Setting)
  | [] => []
  | (key, value) :: rest => (key, ofValue value) :: ofValueEntries rest

end

mutual

/-- A TOML value as a setting. -/
def ofToml : TomlValue → Setting
  | .string content => .text content
  | .integer value => .number (.integer value)
  | .real value => .number (.real value)
  | .boolean value => .boolean value
  | .moment content => .text content
  | .array items => .list (ofTomlItems items)
  | .table entries => .table (ofTomlEntries entries)

/-- TOML values as settings. -/
def ofTomlItems : List TomlValue → List Setting
  | [] => []
  | value :: rest => ofToml value :: ofTomlItems rest

/-- The entries of a TOML table as entries of a table. -/
def ofTomlEntries : List (String × TomlValue) → List (String × Setting)
  | [] => []
  | (key, value) :: rest => (key, ofToml value) :: ofTomlEntries rest

end

end Setting

end ResourceTables
