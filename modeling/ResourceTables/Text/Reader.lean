/-!
# Reading a text

Readers take something off the front of a text, or refuse it. They are combined with `do` blocks and
`<|>`; a reader that refuses has taken nothing.

## Main definitions

* `Reader`: takes a value off the front of a text, or refuses.
* `Reader.peek`, `Reader.take`, `Reader.char`, `Reader.word`: single characters and fixed words.
* `Reader.takeWhile`: the longest front of a text whose characters pass a test.
-/

namespace ResourceTables.Text

/-- Takes a value off the front of a text, or refuses. -/
abbrev Reader (α : Type) := StateT (List Char) Option α

namespace Reader

variable {α : Type}

/-- The next character, which stays. -/
def peek : Reader (Option Char) :=
  fun text => some (text.head?, text)

/-- The next character. -/
def take : Reader Char
  | [] => none
  | c :: rest => some (c, rest)

/-- The next character, if it passes a test. -/
def satisfy (test : Char → Bool) : Reader Char
  | [] => none
  | c :: rest => if test c then some (c, rest) else none

/-- A given character. -/
def char (c : Char) : Reader Unit :=
  discard (satisfy (· == c))

/-- A given word. -/
def word (expected : String) : Reader Unit :=
  expected.toList.forM char

/-- The longest front whose characters pass a test. -/
def takeWhile (test : Char → Bool) : Reader (List Char) :=
  fun text => some (text.takeWhile test, text.dropWhile test)

/-- As `takeWhile`, but at least one character. -/
def takeWhile1 (test : Char → Bool) : Reader (List Char) := do
  let front ← takeWhile test
  if front.isEmpty then failure else return front

/-- Exactly so many characters that pass a test. -/
def exactly (count : Nat) (test : Char → Bool) : Reader (List Char) :=
  fun text =>
    let front := text.take count
    if front.length = count && front.all test then some (front, text.drop count) else none

/-- The end of the text. -/
def finish : Reader Unit
  | [] => some ((), [])
  | _ :: _ => none

/-- What a reader makes of a whole text. -/
def run? (reader : Reader α) (text : List Char) : Option α :=
  (reader text).map (·.1)

end Reader

/-- The digit that a character stands for, up to a base of 36. -/
def digitValue (c : Char) : Nat :=
  if c.isDigit then c.toNat - '0'.toNat
  else if c.isLower then c.toNat - 'a'.toNat + 10
  else c.toNat - 'A'.toNat + 10

/-- A digit of base 16. -/
def isHexDigit (c : Char) : Bool :=
  c.isDigit || ('a' ≤ c && c ≤ 'f') || ('A' ≤ c && c ≤ 'F')

/-- The number that digits stand for. -/
def readDigits (base : Nat) (digits : List Char) : Nat :=
  digits.foldl (fun n c => n * base + digitValue c) 0

end ResourceTables.Text
