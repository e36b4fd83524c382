import TensorProgram.Decimal
import TensorProgram.ElementType

/-!
# Binary formats

The real formats as sets of numbers.  The bits of a magnitude are an exponent
field and a fraction field.  `RealFormat.decode` gives the number
`significand * 2 ^ exponent` of a finite magnitude, and `RealFormat.nearest` the
magnitude nearest to a quotient, with ties to the even one.

`RealFormat.text` writes the bits of a number.  A number that is not finite is
written as its bits.  A single or a double is written as the shortest decimal that
reads back to its bits.  A number of a narrow format is written as the shortest
double that is converted back to it, and how numbers are converted is left open:
`NarrowConversions`.
-/

namespace TensorProgram

/-- The quotient rounded to a whole number, with ties to the even one. -/
def roundHalfEven (num den : Nat) : Nat :=
  let quotient := num / den
  let remainder := num % den
  if 2 * remainder < den then quotient
  else if den < 2 * remainder then quotient + 1
  else quotient + quotient % 2

/-- The number `significand * 2 ^ exponent`. -/
structure Dyadic where
  significand : Nat
  exponent : Int
  deriving DecidableEq, Repr

namespace Dyadic

/-- The number as numerator and denominator. -/
def ratio (d : Dyadic) : Nat × Nat :=
  if 0 ≤ d.exponent then (d.significand <<< d.exponent.toNat, 1)
  else (d.significand, 1 <<< (-d.exponent).toNat)

end Dyadic

namespace RealFormat

def bias (f : RealFormat) : Nat :=
  (1 <<< (f.exponentBits - 1)) - 1

/-- The exponent of the last bit of the smallest magnitudes. -/
def leastExponent (f : RealFormat) : Int :=
  1 - f.bias - f.fractionBits

/-- The magnitude of infinity, which is above all finite ones. -/
def infinity (f : RealFormat) : Nat :=
  ((1 <<< f.exponentBits) - 1) <<< f.fractionBits

/-- The magnitude of the bits of a number, which is all of them but the sign. -/
def magnitude (f : RealFormat) (bits : Nat) : Nat :=
  bits % (1 <<< (f.bits - 1))

def isNegative (f : RealFormat) (bits : Nat) : Bool :=
  1 <<< (f.bits - 1) ≤ bits

def isFinite (f : RealFormat) (bits : Nat) : Bool :=
  f.magnitude bits < f.infinity

/-- The number that a finite magnitude stands for.  The smallest magnitudes have no
hidden leading bit. -/
def decode (f : RealFormat) (magnitude : Nat) : Dyadic :=
  let field := magnitude >>> f.fractionBits
  let fraction := magnitude % (1 <<< f.fractionBits)
  if field = 0 then ⟨fraction, f.leastExponent⟩
  else ⟨(1 <<< f.fractionBits) + fraction, f.leastExponent + (field - 1 : Nat)⟩

/-- The exponent of the last bit of the magnitudes around `num / den`. -/
def gridExponent (f : RealFormat) (num den : Nat) : Int :=
  let place : Int := (num.log2 : Int) - den.log2
  let place :=
    if 0 ≤ place then (if den <<< place.toNat ≤ num then place else place - 1)
    else (if den ≤ num <<< (-place).toNat then place else place - 1)
  max f.leastExponent (place - f.fractionBits)

/-- The magnitude nearest to `num / den`, with ties to the even one.  Numbers that
round past the greatest finite magnitude give infinity. -/
def nearest (f : RealFormat) (num den : Nat) : Nat :=
  if num = 0 then 0
  else
    let grid := f.gridExponent num den
    let significand :=
      if 0 ≤ grid then roundHalfEven num (den <<< grid.toNat)
      else roundHalfEven (num <<< (-grid).toNat) den
    min f.infinity (((grid - f.leastExponent).toNat <<< f.fractionBits) + significand)

/-- The magnitude that a decimal reads as. -/
def read (f : RealFormat) (d : Decimal) : Nat :=
  f.nearest d.ratio.1 d.ratio.2

/-- Of the two numbers with `count` digits around `num / den`, the ones that read
back, and of two such the nearer one or else the greater one. -/
def shortestOf? (f : RealFormat) (magnitude num den count : Nat) : Option Decimal :=
  let exponent := Decimal.leadingPlace num den + 1 - count
  let (n, d) := Decimal.scaled num den (-exponent)
  let below : Decimal := ⟨n / d, exponent⟩
  let above : Decimal := ⟨n / d + 1, exponent⟩
  let belowReads := f.read below == magnitude
  let aboveReads := f.read above == magnitude
  if belowReads && (!aboveReads || 2 * (n % d) < d) then some below
  else if aboveReads then some above
  else none

/-- The exact value of a dyadic number. -/
def exactDecimal (d : Dyadic) : Decimal :=
  if 0 ≤ d.exponent then ⟨d.significand <<< d.exponent.toNat, 0⟩
  else ⟨d.significand * Nat.pow 5 (-d.exponent).toNat, d.exponent⟩

/-- The decimal with the fewest digits that reads back to a finite magnitude. -/
def shortest (f : RealFormat) (magnitude : Nat) : Decimal :=
  let value := f.decode magnitude
  let (num, den) := value.ratio
  if num = 0 then ⟨0, 0⟩
  else
    ((List.range' 1 17).findSome? (f.shortestOf? magnitude num den)).getD (exactDecimal value)

/-- Numbers are written positionally from a ten-thousandth up to, but not including,
ten quadrillions. -/
def positionalRange : Decimal.PositionalRange :=
  ⟨-4, 15⟩

/-- The decimal with `count` digits nearest to `num / den`, with ties to the even
one. -/
def roundedDecimal (num den count : Nat) : Decimal :=
  let exponent := Decimal.leadingPlace num den + 1 - count
  let (n, d) := Decimal.scaled num den (-exponent)
  ⟨roundHalfEven n d, exponent⟩

/-- The bits of a number with a sign and a magnitude. -/
def withSign (f : RealFormat) (negative : Bool) (magnitude : Nat) : Nat :=
  if negative then (1 <<< (f.bits - 1)) + magnitude else magnitude

/-- The double that is read from the decimal with `count` digits nearest to a double.
A double that is not finite has no digits and is read back. -/
def roundedDouble (double count : Nat) : Nat :=
  if f64.isFinite double then
    let (num, den) := (f64.decode (f64.magnitude double)).ratio
    f64.withSign (f64.isNegative double) (f64.read (roundedDecimal num den count))
  else double

end RealFormat

/-- The conversions of formats narrower than single precision to and from double
precision, on bits.  A number loses nothing on its way to a double, and a double is
rounded to a narrow format. -/
class NarrowConversions where
  toDouble : RealFormat → Nat → Nat
  ofDouble : RealFormat → Nat → Nat

namespace RealFormat

/-- The double that stands for a number of a narrow format in text: the one with the
fewest digits that is converted back to the number. -/
def shortestDouble [NarrowConversions] (f : RealFormat) (bits : Nat) : Nat :=
  let double := NarrowConversions.toDouble f bits
  let rounded? (count : Nat) : Option Nat :=
    let rounded := roundedDouble double count
    if NarrowConversions.ofDouble f rounded = bits then some rounded else none
  ((List.range' 1 17).findSome? rounded?).getD double

def upperHexDigit (n : Nat) : Char :=
  if n < 10 then Char.ofNat ('0'.toNat + n) else Char.ofNat ('A'.toNat + (n - 10))

/-- A number in base sixteen with the given number of digits. -/
def hexDigits (count n : Nat) : List Char :=
  (List.range count).map fun i => upperHexDigit ((n >>> (4 * (count - 1 - i))) % 16)

/-- The text of a number that is not finite: all its bits in base sixteen. -/
def bitText (f : RealFormat) (bits : Nat) : List Char :=
  '0' :: 'x' :: hexDigits (f.bits / 4) bits

def signText (f : RealFormat) (bits : Nat) : List Char :=
  if f.isNegative bits then ['-'] else []

/-- The text of a finite number, which may lack a decimal point. -/
def plainText (f : RealFormat) (bits : Nat) : List Char :=
  f.signText bits ++ (f.shortest (f.magnitude bits)).text positionalRange

/-- The text of any double, which may lack a decimal point. -/
def doubleText (double : Nat) : List Char :=
  if f64.isFinite double then f64.plainText double
  else if f64.magnitude double = f64.infinity then f64.signText double ++ ['i', 'n', 'f']
  else ['N', 'a', 'N']

/-- The text of a finite number.  Numbers of narrow formats are written as doubles. -/
def finiteText [NarrowConversions] (f : RealFormat) (bits : Nat) : List Char :=
  if f = f32 ∨ f = f64 then f.plainText bits else doubleText (f.shortestDouble bits)

/-- The text of the number with the given bits. -/
def text [NarrowConversions] (f : RealFormat) (bits : Nat) : String :=
  .ofList (if f.isFinite bits then Decimal.withPoint (f.finiteText bits) else f.bitText bits)

end RealFormat

end TensorProgram
