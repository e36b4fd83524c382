import TensorProgram.Binary

/-!
# Conversions to the nearest number

The conversions that programs are written with: a number is rounded to the nearest one
of the other format, with ties to the even one.
-/

namespace TensorProgram

namespace RealFormat

/-- The bits of a number in another format.  What is not a number has the highest bit
of its fraction set. -/
def converted (source target : RealFormat) (bits : Nat) : Nat :=
  let magnitude :=
    if source.isFinite bits then
      let (num, den) := (source.decode (source.magnitude bits)).ratio
      target.nearest num den
    else if source.magnitude bits = source.infinity then target.infinity
    else target.infinity + (1 <<< (target.fractionBits - 1))
  target.withSign (source.isNegative bits) magnitude

/-- A double without the lower half of its bits. -/
def upperHalf (double : Nat) : Nat :=
  (double >>> 32) <<< 32

end RealFormat

/-- A double is cut to its upper half before it is rounded to `bf16`. -/
instance nearestConversions : NarrowConversions where
  toDouble f bits := f.converted .f64 bits
  ofDouble f double :=
    RealFormat.f64.converted f (if f = .bf16 then RealFormat.upperHalf double else double)

end TensorProgram
