import ResourceTables.Text.Blank
import ResourceTables.Text.Split

/-!
# Module paths

The segments of a module path, which may be parted by double colons or by backslashes.

## Main definitions

* `namespaceSegments`: the segments of a module path.
-/

namespace ResourceTables

open Text

/-- The segments of a module path: the pieces between `::` and between backslashes, without blank
ends; empty ones are dropped. -/
def namespaceSegments (path : String) : List String :=
  ((splitOnColons path.toList).flatMap fun part =>
    ((splitOnChar '\\' part).map trim).filter fun segment => !segment.isEmpty).map String.ofList

end ResourceTables
