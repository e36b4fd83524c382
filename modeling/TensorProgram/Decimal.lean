/-!
# Decimal numbers

A decimal number is `digits * 10 ^ exponent`.  `Decimal.text` writes it with the
fewest digits: positionally when its leading digit stands in a middle range of
places, and otherwise with an exponent.  `Decimal.withPoint` gives every text a
decimal point, in front of the exponent if there is one.
-/

namespace TensorProgram

/-- The number `digits * 10 ^ exponent`. -/
structure Decimal where
  digits : Nat
  exponent : Int
  deriving DecidableEq, Repr

namespace Decimal

/-- The quotient of two numbers when the first is scaled by a power of ten, as
numerator and denominator. -/
def scaled (num den : Nat) (power : Int) : Nat × Nat :=
  if 0 ≤ power then (num * Nat.pow 10 power.toNat, den)
  else (num, den * Nat.pow 10 (-power).toNat)

/-- The number as numerator and denominator. -/
def ratio (d : Decimal) : Nat × Nat :=
  scaled d.digits 1 d.exponent

/-- The place of the leading digit of `num / den`: the greatest `k` such that
`10 ^ k ≤ num / den`. -/
def leadingPlace (num den : Nat) : Int :=
  let place : Int := (Nat.toDigits 10 num).length - (Nat.toDigits 10 den).length
  let (n, d) := scaled num den (-place)
  if d ≤ n then place else place - 1

/-- The same number without trailing zeros in its digits. -/
def strip : (fuel : Nat) → Decimal → Decimal
  | 0, d => d
  | fuel + 1, d =>
    if d.digits % 10 = 0 ∧ d.digits ≠ 0 then strip fuel ⟨d.digits / 10, d.exponent + 1⟩ else d

/-- The number with the fewest digits. -/
def stripped (d : Decimal) : Decimal :=
  strip (Nat.toDigits 10 d.digits).length d

/-- The places of the leading digit for which a number is written positionally. -/
structure PositionalRange where
  least : Int
  greatest : Int
  deriving DecidableEq, Repr

/-- The digits of a number with the decimal point after the digit number `whole`,
counted from one.  Zeros fill the places that the digits do not reach. -/
def positional (digits : List Char) (whole : Int) : List Char :=
  if whole ≤ 0 then
    ['0', '.'] ++ List.replicate (-whole).toNat '0' ++ digits
  else if digits.length ≤ whole.toNat then
    digits ++ List.replicate (whole.toNat - digits.length) '0' ++ ['.', '0']
  else
    digits.take whole.toNat ++ '.' :: digits.drop whole.toNat

/-- The digits of a number with the point after the first one, if more follow, and
the place of the first one. -/
def exponential (digits : List Char) (place : Int) : List Char :=
  let fraction := if digits.length ≤ 1 then [] else '.' :: digits.drop 1
  digits.take 1 ++ fraction ++ 'e' :: (toString place).toList

/-- The text of a number, written positionally in the given range.  Zero has no
leading digit and is written as if it were in the range. -/
def text (range : PositionalRange) (d : Decimal) : List Char :=
  if d.digits = 0 then ['0', '.', '0']
  else
    let s := d.stripped
    let digits := Nat.toDigits 10 s.digits
    let place := s.exponent + digits.length - 1
    if range.least ≤ place ∧ place ≤ range.greatest then positional digits (place + 1)
    else exponential digits place

/-- The text with a decimal point.  A text without one gets `.0` at the end of its
digits, which is in front of the exponent if there is one. -/
def withPoint (text : List Char) : List Char :=
  if text.contains '.' then text
  else text.takeWhile (· != 'e') ++ ['.', '0'] ++ text.dropWhile (· != 'e')

end Decimal

end TensorProgram
