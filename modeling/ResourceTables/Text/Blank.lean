/-!
# Blank characters

The characters that count as white space, and the text that is left when they are taken off an end.

## Main definitions

* `isBlank`: the characters with the Unicode property White_Space.
* `trimStart`, `trimEnd`, `trim`: the text without its blank ends.
-/

namespace ResourceTables.Text

/-- A character with the Unicode property White_Space. -/
def isBlank (c : Char) : Bool :=
  let code := c.toNat
  (0x09 ≤ code && code ≤ 0x0D) || code == 0x20 || code == 0x85 || code == 0xA0 ||
    code == 0x1680 || (0x2000 ≤ code && code ≤ 0x200A) || code == 0x2028 || code == 0x2029 ||
    code == 0x202F || code == 0x205F || code == 0x3000

/-- The text from its first character that is not blank. -/
def trimStart (text : List Char) : List Char :=
  text.dropWhile isBlank

/-- The text up to its last character that is not blank. -/
def trimEnd (text : List Char) : List Char :=
  (text.reverse.dropWhile isBlank).reverse

/-- The text without its blank ends. -/
def trim (text : List Char) : List Char :=
  trimEnd (trimStart text)

end ResourceTables.Text
