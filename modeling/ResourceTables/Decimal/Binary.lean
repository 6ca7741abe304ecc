/-!
# Binary reals

The reals that a document can hold: 53 binary digits and an exponent of two, infinities, and a value
that is no number. Results of operations are rounded to the nearest such real, a tie to the one with
an even significand. All arithmetic is exact on natural numbers before the one rounding.

## Main definitions

* `twoTo`, `tenTo`: powers.
* `Binary`: a sign, a significand and an exponent, or no finite value.
* `Binary.ofRatio`: the real nearest to a quotient.
* `Binary.ofDecimal`: the real nearest to a decimal fraction.
* `Binary.product`, `Binary.quotient`: products and quotients.
-/

namespace ResourceTables

/-- A real with 53 binary digits, or one of the values that are no finite number. -/
inductive Binary where
  /-- `significand * 2 ^ exponent`, or its negative. -/
  | finite (negative : Bool) (significand : Nat) (exponent : Int)
  | infinite (negative : Bool)
  | notANumber
deriving DecidableEq

/-- A power of two. -/
def twoTo (exponent : Nat) : Nat :=
  Nat.pow 2 exponent

/-- A power of ten. -/
def tenTo (exponent : Nat) : Nat :=
  Nat.pow 10 exponent

namespace Binary

/-- The integer nearest to a quotient, a tie going to the even one. -/
def nearest (numerator denominator : Nat) : Nat :=
  let quotient := numerator / denominator
  let rest := numerator % denominator
  if 2 * rest > denominator || (2 * rest == denominator && quotient % 2 == 1) then quotient + 1
  else quotient

/-- The least exponent of a significand. -/
def leastExponent : Int := -1074

/-- The greatest exponent of a significand. -/
def greatestExponent : Int := 971

/-- `numerator / (denominator * 2 ^ exponent)` as a quotient of natural numbers. -/
def scaled (numerator denominator : Nat) (exponent : Int) : Nat × Nat :=
  if 0 ≤ exponent then (numerator, denominator * twoTo exponent.toNat)
  else (numerator * twoTo (-exponent).toNat, denominator)

/-- The exponent at which the significand of a quotient has 53 digits, or the least one. -/
def exponentOf (numerator denominator : Nat) : Int :=
  let guess : Int := (numerator.log2 : Int) - (denominator.log2 : Int) - 52
  let (n, d) := scaled numerator denominator guess
  max leastExponent (if n < twoTo 52 * d then guess - 1 else guess)

/-- The real nearest to a quotient with a positive denominator. -/
def ofRatio (negative : Bool) (numerator denominator : Nat) : Binary :=
  if numerator = 0 then
    .finite negative 0 leastExponent
  else
    let exponent := exponentOf numerator denominator
    let (n, d) := scaled numerator denominator exponent
    let significand := nearest n d
    let (significand, exponent) :=
      if significand = twoTo 53 then (twoTo 52, exponent + 1) else (significand, exponent)
    if exponent > greatestExponent then .infinite negative
    else .finite negative significand exponent

/-- The real nearest to a natural number. -/
def ofNat (n : Nat) : Binary :=
  ofRatio false n 1

/-- The real nearest to `digits * 10 ^ exponent`. Exponents so far out that the result is an
infinity or zero are not raised to a power. -/
def ofDecimal (negative : Bool) (digits : Nat) (exponent : Int) : Binary :=
  let magnitude : Int := (Nat.toDigits 10 digits).length + exponent
  if digits = 0 || magnitude < -400 then .finite negative 0 leastExponent
  else if magnitude > 400 then .infinite negative
  else if 0 ≤ exponent then ofRatio negative (digits * tenTo exponent.toNat) 1
  else ofRatio negative digits (tenTo (-exponent).toNat)

/-- A finite real without its sign, as a quotient. -/
def ratio (significand : Nat) (exponent : Int) : Nat × Nat :=
  scaled significand 1 (-exponent)

/-- The product of two reals that are not negative. -/
def product : Binary → Binary → Binary
  | .finite _ m e, .finite _ m' e' =>
    let (n, d) := ratio (m * m') (e + e')
    ofRatio false n d
  | .notANumber, _ => .notANumber
  | _, .notANumber => .notANumber
  | _, _ => .infinite false

/-- The quotient of two finite reals, the first not negative and the second positive. -/
def quotient : Binary → Binary → Binary
  | .finite _ m e, .finite _ m' e' =>
    let (n, d) := ratio m (e - e')
    ofRatio false n (d * m')
  | .infinite _, _ => .infinite false
  | _, _ => .notANumber

/-- The value is zero, of either sign. -/
def isZero : Binary → Bool
  | .finite _ m _ => m == 0
  | _ => false

/-- The value is an infinity. -/
def isInfinite : Binary → Bool
  | .infinite _ => true
  | _ => false

/-- The value is a finite number. -/
def isFinite : Binary → Bool
  | .finite _ _ _ => true
  | _ => false

/-- The value with its sign turned. -/
def negate : Binary → Binary
  | .finite negative m e => .finite (!negative) m e
  | .infinite negative => .infinite (!negative)
  | .notANumber => .notANumber

end Binary

end ResourceTables
