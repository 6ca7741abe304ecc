import ResourceTables.Fingerprint.Sha256
import ResourceTables.Text.Blank
import ResourceTables.Text.Split

/-!
# Fingerprints

A generated file carries the hash of its body in its header. A body that does not have the hash that
its header tells has been changed after it was written.

## Main definitions

* `Fingerprint`: a hash in hexadecimal digits.
* `Fingerprint.of`, `Fingerprint.verifies`: the fingerprint of a text, and the test of a text.
* `Fingerprint.headerLine`: the line that carries it.
* `Fingerprint.extract?`: the fingerprint that a file tells and the body it is about.
-/

namespace ResourceTables

/-- A hash in hexadecimal digits. -/
structure Fingerprint where
  hex : String
deriving DecidableEq

namespace Fingerprint

/-- What stands before the digits in a header line. -/
def marker : String := "// fingerprint: sha256:"

/-- The fingerprint of some bytes. -/
def ofBytes (bytes : List UInt8) : Fingerprint :=
  ⟨Sha256.hex bytes⟩

/-- The fingerprint of a text. -/
def of (text : String) : Fingerprint :=
  ofBytes text.toUTF8.toList

/-- A text has a fingerprint. -/
def verifies (fingerprint : Fingerprint) (text : String) : Bool :=
  of text == fingerprint

/-- A fingerprint with the name of the hash. -/
def display (fingerprint : Fingerprint) : String :=
  "sha256:" ++ fingerprint.hex

/-- The line that carries a fingerprint. -/
def headerLine (fingerprint : Fingerprint) : String :=
  marker ++ fingerprint.hex

/-- The fingerprint that the first marker in a file is followed by, and the body, which starts after
the next empty line. A file without a marker, or that ends on the line of the marker, tells none. -/
def extract? (file : String) : Option (Fingerprint × String) := do
  let (_, rest) ← Text.cutAround? marker.toList file.toList
  let (line, _) ← Text.cutAt? '\n' rest
  let body := ((Text.cutAround? ['\n', '\n'] rest).map (·.2)).getD []
  return (⟨String.ofList (Text.trim line)⟩, String.ofList body)

end Fingerprint

end ResourceTables
