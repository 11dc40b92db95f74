import LoxCalc.Number.Decimal

/-!
# Printed numbers

A whole number is printed with all its digits and no point; any other finite number with the fewest
digits that read back.  Decimals are written positionally from a ten-thousandth up to ten to the
sixteenth, and with an exponent of at least two digits outside of that range.
-/

namespace LoxCalc.Number

open Binary64

/-- The smallest exponent of a leading digit that is still written positionally. -/
def leastPositional : Int := -4

/-- The smallest exponent of a leading digit that is no longer written positionally. -/
def positionalEnd : Int := 16

/-- A natural number with at least two digits. -/
def twoDigits (n : Nat) : String :=
  if n < 10 then "0" ++ toString n else toString n

/-- Digits with the point after the leading one, and the exponent of the leading digit. -/
def scientific (ds : List Char) (e : Int) : String :=
  String.ofList (ds.take 1)
    ++ (if ds.drop 1 = [] then "" else "." ++ String.ofList (ds.drop 1))
    ++ (if e < 0 then "e-" else "e+") ++ twoDigits e.natAbs

/-- Digits with the point where the exponent `e` of the leading digit puts it. -/
def positional (ds : List Char) (e : Int) : String :=
  if e < 0 then
    "0." ++ String.ofList (List.replicate (-e - 1).toNat '0' ++ ds)
  else
    let whole := (e + 1).toNat
    String.ofList (ds.take whole ++ List.replicate (whole - ds.length) '0') ++ "."
      ++ (if ds.drop whole = [] then "0" else String.ofList (ds.drop whole))

/-- A decimal number without trailing zeros. -/
def decimalText (d : Decimal) : String :=
  let all := Nat.toDigits 10 d.digits
  let ds := (all.reverse.dropWhile (· == '0')).reverse
  let e := d.exponent + all.length - 1
  if e < leastPositional ∨ positionalEnd ≤ e then scientific ds e else positional ds e

/-- A finite magnitude. -/
def magnitudeText (bits : Nat) : String :=
  if units bits % Nat.pow 2 1074 = 0 then toString (units bits / Nat.pow 2 1074)
  else decimalText (Decimal.shortest bits)

/-- A number as the interpreter prints it. -/
def text (x : Float) : String :=
  if infinityBits < magnitude x then "NaN"
  else (if isNegative x then "-" else "")
    ++ (if magnitude x = infinityBits then "inf" else magnitudeText (magnitude x))

end LoxCalc.Number
