import ResourceTables.Decimal.Word
import ResourceTables.Document.Json.Term
import ResourceTables.Document.Value
import ResourceTables.Entries

/-!
# Values of JSON texts

What a JSON term means. Strings must pair their surrogates, numbers must be finite, nesting is
limited, and of two members with one key the place of the first and the value of the second count.

## Main definitions

* `JsonUnit.decode?`: the text of a string.
* `JsonNumber.value?`: the value of a number.
* `JsonTerm.value?`: the value of a term.
* `Value.ofJson?`: the value of a text.
-/

namespace ResourceTables

open Text

/-- The characters that the parts of a string stand for. A high surrogate must be followed by a low
one, and no low surrogate stands alone. -/
def JsonUnit.decode? : List JsonUnit → Option (List Char)
  | [] => some []
  | .char c :: rest => (decode? rest).map (c :: ·)
  | .unit high :: .unit low :: rest =>
    if 0xD800 ≤ high ∧ high < 0xDC00 then
      if 0xDC00 ≤ low ∧ low < 0xE000 then
        (decode? rest).map
          (Char.ofNat (0x10000 + (high - 0xD800) * 0x400 + (low - 0xDC00)) :: ·)
      else none
    else if 0xDC00 ≤ high ∧ high < 0xE000 then none
    else (decode? (.unit low :: rest)).map (Char.ofNat high :: ·)
  | .unit code :: rest =>
    if 0xD800 ≤ code ∧ code < 0xE000 then none
    else (decode? rest).map (Char.ofNat code :: ·)

/-- The text that the parts of a string stand for. -/
def JsonUnit.text? (units : List JsonUnit) : Option String :=
  (decode? units).map String.ofList

namespace JsonNumber

/-- Appends digits to a significand of 64 bits until one does not fit; the rest is counted. -/
def appendDigits (significand : Nat) : List Char → Nat × Nat
  | [] => (significand, 0)
  | c :: rest =>
    let longer := significand * 10 + digitValue c
    if longer < wordLimit then appendDigits longer rest
    else (significand, rest.length + 1)

/-- The greatest exponent that is worked with; a number with a greater one is zero or none. -/
def greatestExponent : Nat := 2147483647

/-- The greatest power of ten that a scaling step uses. -/
def greatestPower : Int := 308

/-- `value * 10 ^ exponent`, rounded after one multiplication or division by a power of ten, or
after several divisions if the exponent is below `-308`. -/
def scale? (value : Binary) (exponent : Int) : Option Binary :=
  if exponent > greatestPower then
    if value.isZero then some value else none
  else if 0 ≤ exponent then
    let scaled := value.product (.ofNat (tenTo exponent.toNat))
    if scaled.isInfinite then none else some scaled
  else if -greatestPower ≤ exponent then
    some (value.quotient (.ofNat (tenTo (-exponent).toNat)))
  else if value.isZero then
    some value
  else
    scale? (value.quotient (.ofNat (tenTo 308))) (exponent + 308)
termination_by (-exponent).toNat
decreasing_by simp only [greatestPower] at *; omega

/-- The real that a number with a fraction, an exponent or too many digits stands for. -/
def real? (number : JsonNumber) (significand dropped : Nat) : Option Binary :=
  let (significand, fractionKept) :=
    match number.fraction? with
    | none => (significand, 0)
    | some digits =>
      let (longer, left) := appendDigits significand digits
      (longer, digits.length - left)
  let start : Int := dropped - fractionKept
  let value := Binary.ofNat significand
  let magnitude? :=
    match number.exponent? with
    | none => scale? value start
    | some (below, digits) =>
      let size := readDigits 10 digits
      if size > greatestExponent then
        if significand ≠ 0 ∧ below = false then none else some (.ofNat 0)
      else scale? value (start + (if below then -(size : Int) else size))
  magnitude?.map fun magnitude => if number.negative then magnitude.negate else magnitude

/-- The value of a number: an integer if it is written as one and has 64 bits, else a real. A
negative zero is a real. -/
def value? (number : JsonNumber) : Option Number :=
  let (significand, dropped) := appendDigits 0 number.whole
  if dropped = 0 ∧ number.fraction?.isNone ∧ number.exponent?.isNone then
    if number.negative = false then
      some (.integer significand)
    else if significand ≠ 0 ∧ significand ≤ signedLimit then
      some (.integer (-significand))
    else
      some (.real (Binary.ofNat significand).negate)
  else
    (number.real? significand dropped).map .real

end JsonNumber

namespace JsonTerm

mutual

/-- The value of a term, if arrays and objects nest in it at most so many levels deep. -/
def value? (levels : Nat) : JsonTerm → Option Value
  | .null => some .null
  | .boolean value => some (.boolean value)
  | .number written => written.value?.map .number
  | .string units => (JsonUnit.text? units).map .string
  | .array items =>
    match levels with
    | 0 => none
    | levels + 1 => (itemValues? levels items).map .array
  | .object members =>
    match levels with
    | 0 => none
    | levels + 1 => (memberValues? levels members).map fun entries => .map (putEntries entries)

/-- The values of the items of an array. -/
def itemValues? (levels : Nat) : List JsonTerm → Option (List Value)
  | [] => some []
  | item :: rest => do return (← value? levels item) :: (← itemValues? levels rest)

/-- The keys and values of the members of an object, as often as they are written. -/
def memberValues? (levels : Nat) :
    List (List JsonUnit × JsonTerm) → Option (List (String × Value))
  | [] => some []
  | (key, item) :: rest => do
    let entry := (← JsonUnit.text? key, ← value? levels item)
    return entry :: (← memberValues? levels rest)

end

end JsonTerm

/-- The number of levels that a JSON text may nest. -/
def jsonLevels : Nat := 127

/-- The value of a JSON text. -/
def Value.ofJson? (text : String) : Option Value :=
  (JsonTerm.ofText? text).bind (JsonTerm.value? jsonLevels)

end ResourceTables
