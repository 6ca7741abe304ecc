/-!
# Registry of identifiers

Which raw key each identifier of one scope was made from. A scope holds an identifier once: the
second key that claims it is refused, and the refusal names both keys.

## Main definitions

* `Clash`: an identifier and the two keys that claim it.
* `Registry`: the identifiers of a scope with their keys, in the order they were claimed.
* `Registry.claim`: adds an identifier, if no key has it yet.
-/

namespace ResourceTables

/-- An identifier that two raw keys claim. -/
structure Clash where
  identifier : String
  first : String
  second : String
deriving DecidableEq

/-- The identifiers of one scope, each with the raw key that claimed it. -/
structure Registry where
  owners : List (String × String) := []

namespace Registry

/-- The scope without identifiers. -/
def empty : Registry := {}

/-- The raw key that has claimed an identifier. -/
def owner? (scope : Registry) (identifier : String) : Option String :=
  scope.owners.lookup identifier

/-- Claims an identifier for a raw key; fails if it is taken. -/
def claim (scope : Registry) (identifier key : String) : Except Clash Registry :=
  match scope.owner? identifier with
  | some first => .error ⟨identifier, first, key⟩
  | none => .ok ⟨scope.owners ++ [(identifier, key)]⟩

/-- The number of identifiers claimed. -/
def size (scope : Registry) : Nat :=
  scope.owners.length

/-- No identifier has been claimed. -/
def isEmpty (scope : Registry) : Bool :=
  scope.owners.isEmpty

end Registry

end ResourceTables
