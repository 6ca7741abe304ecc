/-!
# Identifiers

The names that a generated module can spell.

## Main definitions

* `reservedWords`: the words that a module cannot use as names.
* `isIdentifier`: an ASCII word that is not reserved.
-/

namespace ResourceTables

/-- The words that a generated module cannot use as names. -/
def reservedWords : List String :=
  ["Self", "abstract", "as", "async", "await", "become", "box", "break", "const", "continue",
   "crate", "do", "dyn", "else", "enum", "extern", "false", "final", "fn", "for", "if", "impl",
   "in", "let", "loop", "macro", "match", "mod", "move", "mut", "override", "priv", "pub", "ref",
   "return", "self", "static", "struct", "super", "trait", "true", "try", "type", "typeof",
   "unsafe", "unsized", "use", "virtual", "where", "while", "yield"]

/-- A character that an identifier may begin with. -/
def isWordStart (c : Char) : Bool :=
  c = '_' || c.isAlpha

/-- A character that an identifier may go on with. -/
def isWordPart (c : Char) : Bool :=
  c = '_' || c.isAlphanum

/-- A name that a generated module can spell: a letter or an underscore, then letters, digits and
underscores, and neither a lone underscore nor a reserved word. -/
def isIdentifier (name : String) : Bool :=
  match name.toList with
  | [] => false
  | c :: rest =>
    isWordStart c && rest.all isWordPart && name != "_" && !reservedWords.contains name

end ResourceTables
