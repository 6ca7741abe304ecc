/-!
# Quoted literals

A text as a string literal of a generated module: between double quotes and on one line. A literal
shows the characters of a given set as they are and spells all others by an escape.

## Main definitions

* `escapeChar`: the characters of a literal that stand for one character.
* `quote`: a text as a literal, quotes included.
-/

namespace ResourceTables.Text

/-- The characters of a literal that stand for one character. Line ends, tabs, quotes and
backslashes have escapes of their own, whether or not they are among the characters that are
shown. -/
def escapeChar (shown : Char → Bool) (c : Char) : List Char :=
  if c = '\x00' then ['\\', '0']
  else if c = '\t' then ['\\', 't']
  else if c = '\r' then ['\\', 'r']
  else if c = '\n' then ['\\', 'n']
  else if c = '"' then ['\\', '"']
  else if c = '\\' then ['\\', '\\']
  else if shown c then [c]
  else ['\\', 'u', '\x7b'] ++ Nat.toDigits 16 c.toNat ++ ['\x7d']

/-- The inside of the literal of a text. -/
def escape (shown : Char → Bool) (text : List Char) : List Char :=
  text.flatMap (escapeChar shown)

/-- A text as a literal, quotes included. -/
def quote (shown : Char → Bool) (text : String) : String :=
  String.ofList ('"' :: (escape shown text.toList ++ ['"']))

end ResourceTables.Text
