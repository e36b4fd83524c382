/-!
# Element types

The types that the elements of a tensor can have.  An element type is a
boolean, an integer of one of six widths, a real number in one of fifteen
binary formats, or a complex number with single or double precision parts.

`ElementType.token` is the spelling in program text and `ElementType.name` the
spelling in messages.  `ElementType.promotableTo` is the widening order that
update computations of a scatter may use.
-/

namespace TensorProgram

/-- The widths of the integer types. -/
inductive IntegerWidth
  | w2 | w4 | w8 | w16 | w32 | w64
  deriving DecidableEq, Repr

namespace IntegerWidth

def bits : IntegerWidth → Nat
  | w2 => 2
  | w4 => 4
  | w8 => 8
  | w16 => 16
  | w32 => 32
  | w64 => 64

end IntegerWidth

/-- The binary formats of the real types, each named by its sign-exponent-fraction
layout or by its customary short name. -/
inductive RealFormat
  | f4E2M1FN
  | f6E2M3FN
  | f6E3M2FN
  | f8E3M4
  | f8E4M3
  | f8E4M3FN
  | f8E4M3FNUZ
  | f8E4M3B11FNUZ
  | f8E5M2
  | f8E5M2FNUZ
  | f8E8M0FNU
  | bf16
  | f16
  | f32
  | f64
  deriving DecidableEq, Repr

namespace RealFormat

def exponentBits : RealFormat → Nat
  | f4E2M1FN | f6E2M3FN => 2
  | f6E3M2FN | f8E3M4 => 3
  | f8E4M3 | f8E4M3FN | f8E4M3FNUZ | f8E4M3B11FNUZ => 4
  | f8E5M2 | f8E5M2FNUZ | f16 => 5
  | f8E8M0FNU | bf16 | f32 => 8
  | f64 => 11

def fractionBits : RealFormat → Nat
  | f8E8M0FNU => 0
  | f4E2M1FN => 1
  | f6E3M2FN | f8E5M2 | f8E5M2FNUZ => 2
  | f6E2M3FN | f8E4M3 | f8E4M3FN | f8E4M3FNUZ | f8E4M3B11FNUZ => 3
  | f8E3M4 => 4
  | bf16 => 7
  | f16 => 10
  | f32 => 23
  | f64 => 52

def bits : RealFormat → Nat
  | f4E2M1FN => 4
  | f6E2M3FN | f6E3M2FN => 6
  | f8E3M4 | f8E4M3 | f8E4M3FN | f8E4M3FNUZ | f8E4M3B11FNUZ | f8E5M2 | f8E5M2FNUZ
  | f8E8M0FNU => 8
  | bf16 | f16 => 16
  | f32 => 32
  | f64 => 64

def token : RealFormat → String
  | f4E2M1FN => "f4E2M1FN"
  | f6E2M3FN => "f6E2M3FN"
  | f6E3M2FN => "f6E3M2FN"
  | f8E3M4 => "f8E3M4"
  | f8E4M3 => "f8E4M3"
  | f8E4M3FN => "f8E4M3FN"
  | f8E4M3FNUZ => "f8E4M3FNUZ"
  | f8E4M3B11FNUZ => "f8E4M3B11FNUZ"
  | f8E5M2 => "f8E5M2"
  | f8E5M2FNUZ => "f8E5M2FNUZ"
  | f8E8M0FNU => "f8E8M0FNU"
  | bf16 => "bf16"
  | f16 => "f16"
  | f32 => "f32"
  | f64 => "f64"

def name : RealFormat → String
  | f4E2M1FN => "f4e2m1fn"
  | f6E2M3FN => "f6e2m3fn"
  | f6E3M2FN => "f6e3m2fn"
  | f8E3M4 => "f8e3m4"
  | f8E4M3 => "f8e4m3"
  | f8E4M3FN => "f8e4m3fn"
  | f8E4M3FNUZ => "f8e4m3fnuz"
  | f8E4M3B11FNUZ => "f8e4m3b11fnuz"
  | f8E5M2 => "f8e5m2"
  | f8E5M2FNUZ => "f8e5m2fnuz"
  | f8E8M0FNU => "f8e8m0fnu"
  | bf16 => "bf16"
  | f16 => "f16"
  | f32 => "f32"
  | f64 => "f64"

/-- A format can be widened to one that loses neither exponent nor fraction bits.
Formats of at most eight bits can also be widened to every format of sixteen
bits or more. -/
def promotableTo (source target : RealFormat) : Bool :=
  (source.bits ≤ 8 && 16 ≤ target.bits) ||
    (source.exponentBits ≤ target.exponentBits && source.fractionBits ≤ target.fractionBits)

end RealFormat

/-- The precision of the two parts of a complex number. -/
inductive ComplexPrecision
  | single
  | double
  deriving DecidableEq, Repr

namespace ComplexPrecision

/-- The format of the real and of the imaginary part. -/
def part : ComplexPrecision → RealFormat
  | single => .f32
  | double => .f64

end ComplexPrecision

/-- The type of the elements of a tensor. -/
inductive ElementType
  | boolean
  | signed (width : IntegerWidth)
  | unsigned (width : IntegerWidth)
  | real (format : RealFormat)
  | complex (precision : ComplexPrecision)
  deriving DecidableEq, Repr

namespace ElementType

def isBoolean : ElementType → Bool
  | boolean => true
  | _ => false

def isSigned : ElementType → Bool
  | signed _ => true
  | _ => false

def isUnsigned : ElementType → Bool
  | unsigned _ => true
  | _ => false

/-- Booleans are not integers. -/
def isInteger (t : ElementType) : Bool :=
  t.isSigned || t.isUnsigned

def isReal : ElementType → Bool
  | real _ => true
  | _ => false

def isComplex : ElementType → Bool
  | complex _ => true
  | _ => false

/-- Every type but the booleans counts as numeric. -/
def isNumeric (t : ElementType) : Bool :=
  !t.isBoolean

/-- The storage width of one element.  A boolean takes a whole byte. -/
def bits : ElementType → Nat
  | boolean => 8
  | signed w => w.bits
  | unsigned w => w.bits
  | real f => f.bits
  | complex p => 2 * p.part.bits

/-- The type of the parts of a complex type. -/
def realPart? : ElementType → Option ElementType
  | complex p => some (real p.part)
  | _ => none

/-- The complex type with parts of this type.  Only two formats have one. -/
def complexOf? : ElementType → Option ElementType
  | real .f32 => some (complex .single)
  | real .f64 => some (complex .double)
  | _ => none

/-- The widening order.  Booleans widen to everything.  Integers widen to wider
integers (signed ones only to signed ones) and to every real or complex type.
Real formats widen by `RealFormat.promotableTo`, and to the complex types with
parts that they widen to. -/
def promotableTo (source target : ElementType) : Bool :=
  source == target ||
    match source, target with
    | boolean, _ => true
    | signed v, signed w => v.bits < w.bits
    | unsigned v, signed w => v.bits < w.bits
    | unsigned v, unsigned w => v.bits < w.bits
    | signed _, real _ | signed _, complex _ => true
    | unsigned _, real _ | unsigned _, complex _ => true
    | real f, real g => f.promotableTo g
    | real f, complex p => f.promotableTo p.part
    | complex p, complex q => p.part.promotableTo q.part
    | _, _ => false

/-- The spelling in program text. -/
def token : ElementType → String
  | boolean => "i1"
  | signed w => "i" ++ toString w.bits
  | unsigned w => "ui" ++ toString w.bits
  | real f => f.token
  | complex p => "complex<" ++ p.part.token ++ ">"

/-- The spelling in messages. -/
def name : ElementType → String
  | boolean => "bool"
  | signed w => "i" ++ toString w.bits
  | unsigned w => "u" ++ toString w.bits
  | real f => f.name
  | complex .single => "c64"
  | complex .double => "c128"

instance : ToString ElementType := ⟨name⟩

end ElementType

end TensorProgram
