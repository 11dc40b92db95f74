/-!
# Binary64 numbers as bit patterns

The magnitude of a double is the 63 bits below its sign.  Read as a natural number they order the
magnitudes, from zero through the subnormal and the normal numbers up to infinity.  Every finite
magnitude is a whole number of **units**, a unit being the smallest positive double `2 ^ (-1074)`.

* `units` gives the number of units of a finite magnitude;
* `nearest` rounds a positive rational to a magnitude, ties to even, and saturates at infinity.

Both work in exact natural-number arithmetic.
-/

namespace LoxCalc.Binary64

/-- The magnitude of infinity; the magnitudes below it are finite, those above it are not numbers. -/
def infinityBits : Nat :=
  0x7ff * Nat.pow 2 52

/-- A bit pattern that is not a number. -/
def nanBits : Nat :=
  0x7ff8 * Nat.pow 2 48

/-- Does the sign bit stand? -/
def isNegative (x : Float) : Bool :=
  Nat.pow 2 63 ≤ x.toBits.toNat

/-- The bits below the sign. -/
def magnitude (x : Float) : Nat :=
  x.toBits.toNat % Nat.pow 2 63

/-- The double of a given sign and magnitude. -/
def ofMagnitude (negative : Bool) (bits : Nat) : Float :=
  Float.ofBits (UInt64.ofNat ((if negative then Nat.pow 2 63 else 0) + bits))

/-- The magnitude of one double with the sign of another. -/
def copySign (x y : Float) : Float :=
  ofMagnitude (isNegative y) (magnitude x)

/-- The power of two that a finite magnitude's significand is scaled by, in units. -/
def scale (bits : Nat) : Nat :=
  bits / Nat.pow 2 52 - 1

/-- The significand of a finite magnitude, with the leading bit of a normal number restored. -/
def significand (bits : Nat) : Nat :=
  if bits < Nat.pow 2 52 then bits else Nat.pow 2 52 + bits % Nat.pow 2 52

/-- A finite magnitude in units of `2 ^ (-1074)`. -/
def units (bits : Nat) : Nat :=
  significand bits * Nat.pow 2 (scale bits)

/-- The whole number nearest to `a / b`, ties to even. -/
def roundQuotient (a b : Nat) : Nat :=
  if 2 * (a % b) < b then a / b
  else if b < 2 * (a % b) then a / b + 1
  else a / b + a / b % 2

/-- The magnitude nearest to `a / b`, ties to even; infinity from half a step above the largest
finite magnitude on.  The significand of a number with scale `s` fills the bits below it, so a
significand that rounds up to the next power of two carries into the scale by addition alone. -/
def nearest (a b : Nat) : Nat :=
  let s := Nat.log2 (a * Nat.pow 2 1074 / b) - 52
  min (s * Nat.pow 2 52 + roundQuotient (a * Nat.pow 2 1074) (b * Nat.pow 2 s)) infinityBits

end LoxCalc.Binary64
