import LoxCalc.Number.Binary64

/-!
# Decimal numbers

A decimal number is a natural number times a power of ten.  `Decimal.toBits` rounds it to a
binary64 magnitude, and `Decimal.shortest` goes back: of the decimals with the fewest digits that
round to a given magnitude it takes the one nearest to it.

The search tries grids of one digit, two digits and so on up to seventeen.  On each grid only the
two neighbours of the number can be nearest, and the nearer one is tried first.  Should no grid
answer, the exact decimal expansion does.
-/

namespace LoxCalc

/-- The number `digits * 10 ^ exponent`. -/
structure Decimal where
  digits : Nat
  exponent : Int
  deriving DecidableEq

namespace Decimal

open Binary64

/-- The magnitude nearest to a decimal number.  Exponents far outside the range of binary64 are
settled first, so that no enormous power is formed. -/
def toBits (d : Decimal) : Nat :=
  if d.digits = 0 then 0
  else if 400 < d.exponent then infinityBits
  else if d.exponent < -(400 + d.digits.log2 : Int) then 0
  else nearest (d.digits * Nat.pow 10 d.exponent.toNat) (Nat.pow 10 (-d.exponent).toNat)

/-- The exact decimal expansion of a finite magnitude. -/
def exact (bits : Nat) : Decimal :=
  ⟨units bits * Nat.pow 5 1074, -1074⟩

/-- The exponent of the leading digit of a positive finite magnitude. -/
def leadingExponent (bits : Nat) : Int :=
  ((Nat.toDigits 10 (units bits * Nat.pow 10 400 / Nat.pow 2 1074)).length : Int) - 401

/-- The multiple of `10 ^ k` that rounds to the given magnitude, if one of the two multiples
around it does. -/
def onGrid? (bits : Nat) (k : Int) : Option Decimal :=
  let a := units bits * Nat.pow 10 (-k).toNat
  let b := Nat.pow 2 1074 * Nat.pow 10 k.toNat
  let near := roundQuotient a b
  let far := if near = a / b then near + 1 else a / b
  [Decimal.mk near k, Decimal.mk far k].find? fun d => d.toBits == bits

/-- The decimal with the fewest digits that rounds to a positive finite magnitude. -/
def shortest (bits : Nat) : Decimal :=
  ((List.range 17).findSome? fun (n : Nat) =>
    onGrid? bits (leadingExponent bits - n)).getD (exact bits)

end Decimal

end LoxCalc
