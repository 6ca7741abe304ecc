import ResourceTables.Decimal.Binary

/-!
# The fewest digits that read back

The decimal digits of a binary real: as few as possible so that no other binary real is nearer, and
of these the digits nearest to the real.

## Main definitions

* `Decimal`: digits and an exponent of ten.
* `Binary.interval`: the reals that round to a binary real.
* `Binary.shortest`: the fewest digits in that interval.
-/

namespace ResourceTables

/-- `digits * 10 ^ exponent`. -/
structure Decimal where
  digits : Nat
  exponent : Int
deriving DecidableEq

namespace Binary

/-- A positive real and the ends of the interval that rounds to it, over a common denominator. -/
structure Interval where
  lower : Nat
  value : Nat
  upper : Nat
  denominator : Nat
  closed : Bool

/-- The reals that round to `significand * 2 ^ exponent`. The gap below is half as wide where the
exponent steps down; the ends round to it exactly if the significand is even. -/
def interval (significand : Nat) (exponent : Int) : Interval :=
  let below := if significand = twoTo 52 ∧ exponent > leastExponent then 1 else 2
  let up := (exponent - 2).toNat
  let down := (2 - exponent).toNat
  { lower := (4 * significand - below) * twoTo up
    value := 4 * significand * twoTo up
    upper := (4 * significand + 2) * twoTo up
    denominator := twoTo down
    closed := significand % 2 == 0 }

/-- A decimal lies in an interval. -/
def Interval.holds (span : Interval) (decimal : Decimal) : Bool :=
  let up := tenTo decimal.exponent.toNat
  let down := tenTo (-decimal.exponent).toNat
  let point := decimal.digits * up * span.denominator
  if span.closed then span.lower * down ≤ point && point ≤ span.upper * down
  else span.lower * down < point && point < span.upper * down

/-- The nearer of the value's two neighbours on the grid of multiples of `10 ^ exponent` that lie in
the interval; a tie goes to the even one. -/
def Interval.onGrid? (span : Interval) (exponent : Int) : Option Decimal :=
  let up := tenTo exponent.toNat
  let down := tenTo (-exponent).toNat
  let numerator := span.value * down
  let denominator := span.denominator * up
  let lower : Decimal := ⟨numerator / denominator, exponent⟩
  let upper : Decimal := ⟨numerator / denominator + 1, exponent⟩
  let nearer := if nearest numerator denominator = lower.digits then lower else upper
  let farther := if nearer = lower then upper else lower
  if span.holds nearer then some nearer
  else if span.holds farther then some farther
  else none

/-- The fewest digits that read back as `significand * 2 ^ exponent`, which is positive. The grids
are tried from coarse to fine; one with 17 digits always has a point in the interval. -/
def shortest (significand : Nat) (exponent : Int) : Decimal :=
  let span := interval significand exponent
  let magnitude : Int := ((significand.log2 : Int) + exponent) * 30103 / 100000 + 2
  ((List.range 24).findSome? fun (i : Nat) => span.onGrid? (magnitude - i)).getD ⟨0, 0⟩

end Binary

end ResourceTables
