import ResourceTables.Decimal.Word
import ResourceTables.Document.Toml.Moment
import ResourceTables.Document.Toml.Node

/-!
# Keys and values of a TOML text

The grammar of what stands on the two sides of an equals sign.

## Main definitions

* `Toml.readKey`: a dotted key.
* `Toml.readValue`: a value.
* `Toml.lineEnd`: blanks, a comment and the end of a line.
-/

namespace ResourceTables.Toml

open Text Text.Reader

/-- A space or a tab. -/
def isSpace (c : Char) : Bool :=
  c == ' ' || c == '\t'

/-- Spaces and tabs. -/
def spaces : Reader Unit :=
  discard (takeWhile isSpace)

/-- A line feed, alone or after a carriage return. -/
def newline : Reader Unit :=
  char '\n' <|> do char '\r'; char '\n'

/-- A character that may stand in a comment or literal string: a tab or no control. -/
def isShown (c : Char) : Bool :=
  c == '\t' || (0x20 ≤ c.toNat && c.toNat != 0x7F)

/-- A comment. -/
def comment : Reader Unit := do
  char '#'
  discard (takeWhile isShown)

/-- Spaces, a comment if there is one, and the end of the line or of the text. -/
def lineEnd : Reader Unit := do
  spaces
  if (← peek) == some '#' then comment
  newline <|> finish

/-- Spaces, newlines and comments, of which there are fewer than `fuel`. -/
def filler : (fuel : Nat) → Reader Unit
  | 0 => pure ()
  | fuel + 1 => do
    spaces
    match ← peek with
    | some '#' => do
      comment
      newline
      filler fuel
    | some '\n' => do newline; filler fuel
    | some '\r' => do newline; filler fuel
    | _ => pure ()

/-- Newlines and spaces after a newline, of which there are fewer than `fuel`. -/
def blankLines : (fuel : Nat) → Reader Unit
  | 0 => pure ()
  | fuel + 1 => do
    spaces
    (do newline; blankLines fuel) <|> pure ()

/-- A character given by so many hexadecimal digits. -/
def readCode (width : Nat) : Reader Char := do
  let code := readDigits 16 (← exactly width isHexDigit)
  if code < 0x110000 ∧ ¬(0xD800 ≤ code ∧ code < 0xE000) then return Char.ofNat code else failure

/-- The part of a string after a backslash. -/
def readEscape : Reader Char := do
  match ← take with
  | 'b' => return '\x08'
  | 'f' => return '\x0c'
  | 'n' => return '\n'
  | 'r' => return '\r'
  | 't' => return '\t'
  | '\\' => return '\\'
  | '"' => return '"'
  | 'u' => readCode 4
  | 'U' => readCode 8
  | _ => failure

/-- The rest of a basic string on one line, which is shorter than `fuel`. -/
def readBasicRest : (fuel : Nat) → Reader (List Char)
  | 0 => failure
  | fuel + 1 => do
    let c ← take
    if c == '"' then return []
    else if c == '\\' then return (← readEscape) :: (← readBasicRest fuel)
    else if isShown c then return c :: (← readBasicRest fuel)
    else failure

/-- A basic string on one line. -/
def readBasic : Reader String := do
  char '"'
  return String.ofList (← readBasicRest ((← get).length + 1))

/-- A literal string on one line. -/
def readLiteral : Reader String := do
  char '\''
  let text ← takeWhile fun c => isShown c && c != '\''
  char '\''
  return String.ofList text

/-- Three quotes of a kind. -/
def tripleQuote (quote : Char) : Reader Unit := do
  char quote
  char quote
  char quote

/-- The quotes at a place of a text of several lines: up to two belong to the text, three close it,
and up to two more in front of these belong to the text. -/
def readQuotes (quote : Char) : Reader (List Char × Bool) := do
  let run ← takeWhile (· == quote)
  if run.length < 3 then return (run, false)
  else if run.length ≤ 5 then return (run.drop 3, true)
  else failure

/-- The rest of a string of several lines, which is shorter than `fuel`. Only basic strings have
escapes; a backslash at the end of a line takes all blanks after it away. -/
def readLongRest (quote : Char) : (fuel : Nat) → Reader (List Char)
  | 0 => failure
  | fuel + 1 => do
    match ← peek with
    | none => failure
    | some c =>
      if c == quote then
        let (quotes, closed) ← readQuotes quote
        if closed then return quotes else return quotes ++ (← readLongRest quote fuel)
      else if c == '\n' || c == '\r' then
        newline
        return '\n' :: (← readLongRest quote fuel)
      else if c == '\\' && quote == '"' then
        discard take
        (do
          spaces
          newline
          blankLines fuel
          readLongRest quote fuel) <|>
        (do return (← readEscape) :: (← readLongRest quote fuel))
      else if isShown c then
        discard take
        return c :: (← readLongRest quote fuel)
      else failure

/-- A string of several lines; a newline right after its opening quotes is no part of it. -/
def readLong (quote : Char) : Reader String := do
  tripleQuote quote
  newline <|> pure ()
  return String.ofList (← readLongRest quote ((← get).length + 1))

/-- A string. -/
def readString : Reader String :=
  readLong '"' <|> readBasic <|> readLong '\'' <|> readLiteral

/-- A character of a bare key. -/
def isBare (c : Char) : Bool :=
  c.isAlphanum || c == '_' || c == '-'

/-- A key without dots. -/
def readSimpleKey : Reader String := do
  match ← peek with
  | some '"' => readBasic
  | some '\'' => readLiteral
  | _ => return String.ofList (← takeWhile1 isBare)

/-- The parts of a dotted key after the first, of which there are fewer than `fuel`. -/
def readKeyRest : (fuel : Nat) → Reader (List String)
  | 0 => failure
  | fuel + 1 => do
    if (← peek) == some '.' then
      char '.'
      spaces
      let part ← readSimpleKey
      spaces
      return part :: (← readKeyRest fuel)
    else return []

/-- Arrays and inline tables in one another, and parts of a key, are fewer than this. -/
def nestingBound : Nat := 80

/-- A dotted key with the spaces around it: its path and its last part. -/
def readKey : Reader (List String × String) := do
  spaces
  let front ← readSimpleKey
  spaces
  let parts := front :: (← readKeyRest ((← get).length + 1))
  match parts.getLast? with
  | some last => if parts.length < nestingBound then return (parts.dropLast, last) else failure
  | none => failure

/-- Digits of a base, with single underscores between them. -/
def readSpacedDigits (isDigit : Char → Bool) : Reader (List Char) := do
  let text ← takeWhile1 fun c => isDigit c || c == '_'
  let wellSpaced := text.head? != some '_' && text.getLast? != some '_' &&
    (text.zip (text.drop 1)).all fun pair => pair != ('_', '_')
  if wellSpaced then return text.filter (· != '_') else failure

/-- A sign; none is positive. -/
def readSign : Reader Bool :=
  (do char '-'; return true) <|> (do char '+'; return false) <|> pure false

/-- Decimal digits of an integer: no zero in front of others. -/
def readWhole : Reader (List Char) := do
  let digits ← readSpacedDigits Char.isDigit
  if digits.length > 1 && digits.head? == some '0' then failure else return digits

/-- An integer. -/
def readInteger : Reader TomlValue := do
  let based : Reader Int :=
    (do word "0x"; return readDigits 16 (← readSpacedDigits isHexDigit)) <|>
    (do word "0o"; return readDigits 8 (← readSpacedDigits fun c => '0' ≤ c && c ≤ '7')) <|>
    (do word "0b"; return readDigits 2 (← readSpacedDigits fun c => c == '0' || c == '1'))
  let plain : Reader Int := do
    let negative ← readSign
    let size : Int := readDigits 10 (← readWhole)
    return if negative then -size else size
  let value ← based <|> plain
  if fitsSigned value then return .integer value else failure

/-- The exponent of a real. -/
def readExponent : Reader Int := do
  discard (satisfy fun c => c == 'e' || c == 'E')
  let negative ← readSign
  let size : Int := readDigits 10 (← readSpacedDigits Char.isDigit)
  return if negative then -size else size

/-- A real that is written with digits. -/
def readDigitReal : Reader Binary := do
  let negative ← readSign
  let whole ← readWhole
  let fraction ← (do char '.'; readSpacedDigits Char.isDigit) <|> pure []
  let exponent? ← some <$> readExponent <|> pure none
  if fraction.isEmpty && exponent?.isNone then failure
  let digits := readDigits 10 (whole ++ fraction)
  let value := Binary.ofDecimal negative digits (exponent?.getD 0 - fraction.length)
  if value = .infinite false then failure else return value

/-- A real that is written as a word. -/
def readWordReal : Reader Binary := do
  let negative ← readSign
  (do word "inf"; return .infinite negative) <|> (do word "nan"; return .notANumber)

/-- A number, a date or a time. -/
def readNumber : Reader TomlValue :=
  .moment <$> readMoment <|> .real <$> readDigitReal <|> .real <$> readWordReal <|> readInteger

mutual

/-- A value made of fewer than `fuel` parts, in which arrays and inline tables nest at most
`levels` deep. -/
def readValueIn : (fuel levels : Nat) → Reader TomlValue
  | 0, _ => failure
  | fuel + 1, levels => do
    match ← peek with
    | some '"' => return .string (← readString)
    | some '\'' => return .string (← readString)
    | some 't' => do word "true"; return .boolean true
    | some 'f' => do word "false"; return .boolean false
    | some '[' =>
      match levels with
      | 0 => failure
      | levels + 1 => do
        char '['
        return .array (← readItems fuel levels)
    | some '\x7b' =>
      match levels with
      | 0 => failure
      | levels + 1 => do
        char '\x7b'
        spaces
        if (← peek) == some '\x7d' then
          char '\x7d'
          return .table []
        else
          return .table (finishFields (← readEntries fuel levels []))
    | _ => readNumber

/-- The items of an array up to its closing bracket; a comma may follow the last. -/
def readItems : (fuel levels : Nat) → Reader (List TomlValue)
  | 0, _ => failure
  | fuel + 1, levels => do
    filler fuel
    if (← peek) == some ']' then
      char ']'
      return []
    else
      let item ← readValueIn fuel levels
      filler fuel
      match ← take with
      | ',' => return item :: (← readItems fuel levels)
      | ']' => return [item]
      | _ => failure

/-- The entries of an inline table that has some, up to its closing brace. -/
def readEntries : (fuel levels : Nat) → TomlFields → Reader TomlFields
  | 0, _, _ => failure
  | fuel + 1, levels, fields => do
    let (path, key) ← readKey
    char '='
    spaces
    let value ← readValueIn fuel levels
    spaces
    match fields.assign? path key value with
    | none => failure
    | some fields =>
      match ← take with
      | ',' => readEntries fuel levels fields
      | '\x7d' => return fields
      | _ => failure

end

/-- A value. -/
def readValue : Reader TomlValue := do
  readValueIn (2 * (← get).length + 2) (nestingBound - 1)

end ResourceTables.Toml
