import ResourceTables.Text.Reader

/-!
# JSON terms

The grammar of JSON texts. A term is a value as it was written: numbers by their digits, strings by
their characters and code units. What the digits and units mean, and whether they mean anything, is
decided later.

## Main definitions

* `JsonTerm`: a value as it was written.
* `JsonTerm.read`: the term at the front of a text.
* `JsonTerm.ofText?`: the term that a whole text is.
-/

namespace ResourceTables

open Text

/-- A number as it was written. -/
structure JsonNumber where
  negative : Bool
  whole : List Char
  fraction? : Option (List Char)
  exponent? : Option (Bool × List Char)

/-- A part of a string: a character, or a code unit of sixteen bits written by its number. -/
inductive JsonUnit where
  | char (c : Char)
  | unit (code : Nat)

/-- A value as it was written. -/
inductive JsonTerm where
  | null
  | boolean (value : Bool)
  | number (value : JsonNumber)
  | string (units : List JsonUnit)
  | array (items : List JsonTerm)
  | object (members : List (List JsonUnit × JsonTerm))

namespace JsonTerm

open Reader

/-- Blanks between the parts of a term. -/
def blanks : Reader Unit :=
  discard (takeWhile fun c => c == ' ' || c == '\t' || c == '\n' || c == '\r')

/-- The sign and digits of an exponent, after its letter. -/
def readExponent : Reader (Bool × List Char) := do
  let sign ← optional (satisfy fun c => c == '+' || c == '-')
  let digits ← takeWhile1 Char.isDigit
  return (sign == some '-', digits)

/-- A number; a zero at its front stands alone. -/
def readNumber : Reader JsonNumber := do
  let negative := (← optional (char '-')).isSome
  let whole ← takeWhile1 Char.isDigit
  if whole.length > 1 && whole.head? == some '0' then failure
  let fraction? ← if (← peek) == some '.' then
      char '.'
      some <$> takeWhile1 Char.isDigit
    else pure none
  let exponent? ← if (← peek).any fun c => c == 'e' || c == 'E' then
      discard take
      some <$> readExponent
    else pure none
  return { negative, whole, fraction?, exponent? }

/-- The part of a string after a backslash. -/
def readEscape : Reader JsonUnit := do
  match ← take with
  | '"' => return .char '"'
  | '\\' => return .char '\\'
  | '/' => return .char '/'
  | 'b' => return .char '\x08'
  | 'f' => return .char '\x0c'
  | 'n' => return .char '\n'
  | 'r' => return .char '\r'
  | 't' => return .char '\t'
  | 'u' => return .unit (readDigits 16 (← exactly 4 isHexDigit))
  | _ => failure

/-- The parts of a string up to its closing quote, of which there are fewer than `fuel`. -/
def readUnits : (fuel : Nat) → Reader (List JsonUnit)
  | 0 => failure
  | fuel + 1 => do
    let c ← take
    if c == '"' then
      return []
    else if c == '\\' then
      return (← readEscape) :: (← readUnits fuel)
    else if c.toNat < 0x20 then
      failure
    else
      return .char c :: (← readUnits fuel)

/-- A string. -/
def readString : Reader (List JsonUnit) := do
  char '"'
  readUnits ((← get).length + 1)

mutual

/-- A term without blanks around it, made of fewer than `fuel` parts. -/
def read : (fuel : Nat) → Reader JsonTerm
  | 0 => failure
  | fuel + 1 => do
    match ← peek with
    | some 'n' => do word "null"; return .null
    | some 't' => do word "true"; return .boolean true
    | some 'f' => do word "false"; return .boolean false
    | some '"' => return .string (← readString)
    | some '[' => do
      char '['
      blanks
      if (← peek) == some ']' then
        char ']'
        return .array []
      else
        return .array (← readItems fuel)
    | some '\x7b' => do
      char '\x7b'
      blanks
      if (← peek) == some '\x7d' then
        char '\x7d'
        return .object []
      else
        return .object (← readMembers fuel)
    | _ => return .number (← readNumber)

/-- The items of an array that has some, up to its closing bracket. -/
def readItems : (fuel : Nat) → Reader (List JsonTerm)
  | 0 => failure
  | fuel + 1 => do
    blanks
    let item ← read fuel
    blanks
    match ← take with
    | ',' => return item :: (← readItems fuel)
    | ']' => return [item]
    | _ => failure

/-- The members of an object that has some, up to its closing brace. -/
def readMembers : (fuel : Nat) → Reader (List (List JsonUnit × JsonTerm))
  | 0 => failure
  | fuel + 1 => do
    blanks
    let key ← readString
    blanks
    char ':'
    blanks
    let item ← read fuel
    blanks
    match ← take with
    | ',' => return (key, item) :: (← readMembers fuel)
    | '\x7d' => return [(key, item)]
    | _ => failure

end

/-- The term that a whole text is. -/
def ofText? (text : String) : Option JsonTerm :=
  let whole : Reader JsonTerm := do
    blanks
    let term ← read (2 * text.length + 2)
    blanks
    finish
    return term
  whole.run? text.toList

end JsonTerm

end ResourceTables
