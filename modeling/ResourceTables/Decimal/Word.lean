/-!
# Words of 64 bits

The integers that fit into 64 bits, with and without a sign.

## Main definitions

* `wordLimit`, `signedLimit`: the first natural numbers that do not fit.
* `fitsSigned`: an integer fits with its sign.
-/

namespace ResourceTables

/-- The first natural number that 64 bits do not hold. -/
def wordLimit : Nat := 0x10000000000000000

/-- The first natural number that 64 bits do not hold if one of them is for the sign. -/
def signedLimit : Nat := 0x8000000000000000

/-- An integer that 64 bits hold with its sign. -/
def fitsSigned (value : Int) : Bool :=
  -(signedLimit : Int) ≤ value && value < (signedLimit : Int)

end ResourceTables
