import ResourceTables.Text.Reader

/-!
# Dates and times

The dates and times of a TOML text and their normal form: a date and a time are parted by `T`, a
fraction of a second has at most nine digits and does not end in zero, and an offset of zero is
positive.

## Main definitions

* `readMoment`: a date, a time, or both, in the normal form.
-/

namespace ResourceTables

open Text Text.Reader

/-- Exactly so many digits that stand for a number in a range. -/
def readField (width least greatest : Nat) : Reader (List Char) := do
  let digits ← exactly width Char.isDigit
  let value := readDigits 10 digits
  if least ≤ value ∧ value ≤ greatest then return digits else failure

/-- The number of days of a month. -/
def daysIn (year month : Nat) : Nat :=
  if month = 2 then
    if year % 4 = 0 ∧ (year % 100 ≠ 0 ∨ year % 400 = 0) then 29 else 28
  else if month = 4 ∨ month = 6 ∨ month = 9 ∨ month = 11 then 30
  else 31

/-- A date. -/
def readDate : Reader (List Char) := do
  let year ← readField 4 0 9999
  char '-'
  let month ← readField 2 1 12
  char '-'
  let day ← readField 2 1 31
  if readDigits 10 day ≤ daysIn (readDigits 10 year) (readDigits 10 month) then
    return year ++ '-' :: month ++ '-' :: day
  else failure

/-- The digits of a fraction of a second, at most nine and without zeros at the end. -/
def shortFraction (digits : List Char) : List Char :=
  ((digits.take 9).reverse.dropWhile (· == '0')).reverse

/-- A time of day, with seconds. -/
def readTime : Reader (List Char) := do
  let hour ← readField 2 0 23
  char ':'
  let minute ← readField 2 0 59
  char ':'
  let second ← readField 2 0 60
  let fraction ← (do char '.'; takeWhile1 Char.isDigit) <|> pure []
  let shown := shortFraction fraction
  return hour ++ ':' :: minute ++ ':' :: second ++ (if shown.isEmpty then [] else '.' :: shown)

/-- An offset from universal time. -/
def readOffset : Reader (List Char) := do
  match ← take with
  | 'Z' => return ['Z']
  | 'z' => return ['Z']
  | sign =>
    if sign ≠ '+' ∧ sign ≠ '-' then failure
    let hour ← readField 2 0 23
    char ':'
    let minute ← readField 2 0 59
    let shown := hour ++ ':' :: minute
    return (if shown = "00:00".toList then '+' else sign) :: shown

/-- A time after a date, with an offset if it has one. -/
def readTimeAfterDate : Reader (List Char) := do
  discard (satisfy fun c => c == 'T' || c == 't' || c == ' ')
  let time ← readTime
  let offset ← readOffset <|> pure []
  return 'T' :: time ++ offset

/-- A date, a time, or both. -/
def readMoment : Reader String :=
  (do
    let date ← readDate
    let time ← readTimeAfterDate <|> pure []
    return String.ofList (date ++ time)) <|>
  String.ofList <$> readTime

end ResourceTables
