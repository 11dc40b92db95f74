import LoxCalc.Number.Decimal
import LoxCalc.Text.Blank
import LoxCalc.Text.DecimalDigit

/-!
# Numerals

The texts that denote a number: an optional sign, then decimal digits with an optional fraction and
an optional exponent, or one of the words `inf`, `infinity` and `nan` in any case.  Blanks around
the numeral are ignored, a single underscore may separate two digits, and the decimal digits of
every script count.  The value is the nearest double.
-/

namespace LoxCalc

/-- What a numeral denotes, its sign apart. -/
inductive Numeral.Magnitude
  | decimal (d : Decimal)
  | infinity
  | notANumber

/-- A numeral: a sign and a magnitude. -/
structure Numeral where
  negative : Bool
  magnitude : Numeral.Magnitude

namespace Numeral

open Text

/-- The plain form of a character: a digit of any script becomes the digit of the same value, a
blank outside ASCII becomes a space. -/
def plain (c : Char) : Char :=
  if c.toNat < 0x80 then c
  else match digitValue? c with
    | some d => Nat.digitChar d
    | none => if isBlank c then ' ' else c

/-- The blanks that may stand around a numeral: the space and the controls from tab to carriage
return. -/
def isMargin (c : Char) : Bool :=
  c == ' ' || (0x9 ≤ c.toNat && c.toNat ≤ 0xd)

/-- Removes the underscores, each of which has to stand between two digits.  The flag says whether
the character before was a digit. -/
def joinDigits? : Bool → List Char → Option (List Char)
  | _, [] => some []
  | after, c :: cs =>
    if c = '_' then
      if after && cs.head?.any Char.isDigit then joinDigits? false cs else none
    else (joinDigits? c.isDigit cs).map (c :: ·)

/-- The value of a sequence of digits. -/
def digitsValue (ds : List Char) : Nat :=
  ds.foldl (fun n c => 10 * n + (c.toNat - 0x30)) 0

/-- Splits off a sign. -/
def splitSign : List Char → Bool × List Char
  | '-' :: cs => (true, cs)
  | '+' :: cs => (false, cs)
  | cs => (false, cs)

/-- The digits of an exponent with an optional sign. -/
def exponentDigits? (cs : List Char) : Option Int :=
  let (negative, ds) := splitSign cs
  if ds ≠ [] ∧ ds.all Char.isDigit then
    some (if negative then -(digitsValue ds : Int) else digitsValue ds)
  else none

/-- What follows the digits and the fraction: nothing, or an exponent. -/
def exponent? : List Char → Option Int
  | [] => some 0
  | c :: cs => if c = 'e' ∨ c = 'E' then exponentDigits? cs else none

/-- Splits off a fraction. -/
def splitFraction : List Char → List Char × List Char
  | '.' :: cs => (cs.takeWhile Char.isDigit, cs.dropWhile Char.isDigit)
  | cs => ([], cs)

/-- Digits with an optional fraction and an optional exponent. -/
def decimal? (cs : List Char) : Option Decimal :=
  let whole := cs.takeWhile Char.isDigit
  let (fraction, rest) := splitFraction (cs.dropWhile Char.isDigit)
  if whole = [] ∧ fraction = [] then none
  else (exponent? rest).map fun e => ⟨digitsValue (whole ++ fraction), e - fraction.length⟩

/-- A numeral after its sign. -/
def magnitude? (cs : List Char) : Option Magnitude :=
  let word := String.ofList (cs.map Char.toLower)
  if word = "inf" ∨ word = "infinity" then some .infinity
  else if word = "nan" then some .notANumber
  else (decimal? cs).map .decimal

/-- Reads a numeral. -/
def ofChars? (cs : List Char) : Option Numeral := do
  let joined ← joinDigits? false (strip isMargin (cs.map plain))
  let (negative, rest) := splitSign joined
  let m ← magnitude? rest
  return ⟨negative, m⟩

/-- The double nearest to the number that a numeral denotes. -/
def toFloat (n : Numeral) : Float :=
  Binary64.ofMagnitude n.negative <|
    match n.magnitude with
    | .decimal d => d.toBits
    | .infinity => Binary64.infinityBits
    | .notANumber => Binary64.nanBits

/-- The number that a text denotes, if it is a numeral. -/
def read? (s : String) : Option Float :=
  (ofChars? s.toList).map toFloat

end Numeral

end LoxCalc
