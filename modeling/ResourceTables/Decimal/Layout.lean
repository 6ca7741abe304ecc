import ResourceTables.Decimal.Shortest

/-!
# Writing reals

How the digits of a real are laid out as a text: where a point divides them, and when an exponent is
written instead of zeros.

## Main definitions

* `Layout`: the decisions.
* `Layout.document`, `Layout.plain`: those of values in a document, and of settings taken as text.
* `Binary.write`: the text of a real.
-/

namespace ResourceTables

/-- The decisions about the text of a real. The magnitude of a number is the exponent of ten of its
first digit. -/
structure Layout where
  /-- Numbers below this magnitude are written with an exponent. -/
  leastPositional? : Option Int
  /-- Numbers from this magnitude on are written with an exponent. -/
  leastScientific? : Option Int
  /-- What follows a number without fraction digits. -/
  wholeEnd : String

namespace Layout

/-- Values of a document: an exponent is written below `1e-5` and from `1e+16` on, and whole numbers
end in `.0`. -/
def document : Layout where
  leastPositional? := some (-5)
  leastScientific? := some 16
  wholeEnd := ".0"

/-- Settings: all digits are written, and whole numbers have no point. -/
def plain : Layout where
  leastPositional? := none
  leastScientific? := none
  wholeEnd := ""

end Layout

/-- The text of a positive decimal. -/
def Decimal.write (layout : Layout) (decimal : Decimal) : String :=
  let digits := Nat.toDigits 10 decimal.digits
  let magnitude : Int := digits.length + decimal.exponent - 1
  let scientific :=
    layout.leastPositional?.any (fun least => decide (magnitude < least)) ||
      layout.leastScientific?.any (fun least => decide (least ≤ magnitude))
  if scientific then
    let fraction := digits.drop 1
    String.ofList (digits.take 1) ++
      (if fraction.isEmpty then "" else "." ++ String.ofList fraction) ++
      (if magnitude < 0 then "e-" else "e+") ++ toString magnitude.natAbs
  else if 0 ≤ decimal.exponent then
    String.ofList (digits ++ List.replicate decimal.exponent.toNat '0') ++ layout.wholeEnd
  else if 0 ≤ magnitude then
    let whole := magnitude.toNat + 1
    String.ofList (digits.take whole) ++ "." ++ String.ofList (digits.drop whole)
  else
    "0." ++ String.ofList (List.replicate (-magnitude - 1).toNat '0' ++ digits)

/-- The text of a real. -/
def Binary.write (layout : Layout) : Binary → String
  | .finite negative significand exponent =>
    (if negative then "-" else "") ++
      (if significand = 0 then "0" ++ layout.wholeEnd
       else (shortest significand exponent).write layout)
  | .infinite negative => if negative then "-inf" else "inf"
  | .notANumber => "NaN"

end ResourceTables
