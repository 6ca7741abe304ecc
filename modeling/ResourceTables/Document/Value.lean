import ResourceTables.Decimal.Layout

/-!
# Document values

What a definition document holds: scalars, arrays, and maps whose entries keep the order in which
they were written.

## Main definitions

* `Number`: an integer or a real.
* `Value`: a value of a document.
* `Value.same`: two values are the same, which can be decided.
-/

namespace ResourceTables

/-- A number of a document. -/
inductive Number where
  | integer (value : Int)
  | real (value : Binary)
deriving DecidableEq

/-- The text of a number in a document. -/
def Number.write : Number → String
  | .integer value => toString value
  | .real value => value.write .document

/-- A value of a document. -/
inductive Value where
  | null
  | boolean (value : Bool)
  | number (value : Number)
  | string (text : String)
  | array (items : List Value)
  | map (entries : List (String × Value))
deriving Inhabited

namespace Value

/-- The value is a map. -/
def isMap : Value → Bool
  | .map _ => true
  | _ => false

/-- A text as a value. -/
def texts (items : List String) : Value :=
  .array (items.map .string)

mutual

/-- Two values are the same, scalar by scalar. -/
def same : Value → Value → Bool
  | .null, .null => true
  | .boolean a, .boolean b => a == b
  | .number a, .number b => a == b
  | .string a, .string b => a == b
  | .array as, .array bs => sameItems as bs
  | .map as, .map bs => sameEntries as bs
  | _, _ => false

/-- Two arrays have the same items. -/
def sameItems : List Value → List Value → Bool
  | [], [] => true
  | a :: as, b :: bs => same a b && sameItems as bs
  | _, _ => false

/-- Two maps have the same entries, in the same order. -/
def sameEntries : List (String × Value) → List (String × Value) → Bool
  | [], [] => true
  | (k, a) :: as, (l, b) :: bs => k == l && same a b && sameEntries as bs
  | _, _ => false

end

mutual

theorem same_iff : ∀ a b : Value, same a b = true ↔ a = b
  | .null, b => by cases b <;> simp [same]
  | .boolean _, b => by cases b <;> simp [same]
  | .number _, b => by cases b <;> simp [same]
  | .string _, b => by cases b <;> simp [same]
  | .array as, b => by cases b <;> simp [same, sameItems_iff as]
  | .map as, b => by cases b <;> simp [same, sameEntries_iff as]

theorem sameItems_iff : ∀ as bs : List Value, sameItems as bs = true ↔ as = bs
  | [], bs => by cases bs <;> simp [sameItems]
  | a :: as, bs => by cases bs <;> simp [sameItems, same_iff a, sameItems_iff as]

theorem sameEntries_iff :
    ∀ as bs : List (String × Value), sameEntries as bs = true ↔ as = bs
  | [], bs => by cases bs <;> simp [sameEntries]
  | (k, a) :: as, bs => by
    rcases bs with _ | ⟨⟨l, b⟩, bs⟩ <;> simp [sameEntries, same_iff a, sameEntries_iff as]

end

instance : DecidableEq Value :=
  fun a b => decidable_of_iff (same a b = true) (same_iff a b)

end Value

/-- The text of a truth value. -/
def writeBool (value : Bool) : String :=
  if value then "true" else "false"

end ResourceTables
