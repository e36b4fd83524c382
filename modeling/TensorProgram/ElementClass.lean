import TensorProgram.ElementType

/-!
# Classes of element types

The sets of element types that operations ask for.  `ElementClass.contains`
decides membership and `ElementClass.describe` names the set in messages.
-/

namespace TensorProgram

inductive ElementClass
  | boolean
  | integer
  | booleanOrInteger
  | real
  | complex
  | realOrComplex
  | integerOrReal
  | signedRealOrComplex
  | nonBoolean
  | nonComplex
  | singleOrDouble
  | generatorState
  | integerOrLiteralReal
  deriving DecidableEq, Repr

namespace ElementClass

def contains (c : ElementClass) (t : ElementType) : Bool :=
  match c with
  | boolean => t.isBoolean
  | integer => t.isInteger
  | booleanOrInteger => t.isBoolean || t.isInteger
  | real => t.isReal
  | complex => t.isComplex
  | realOrComplex => t.isReal || t.isComplex
  | integerOrReal => t.isInteger || t.isReal
  | signedRealOrComplex => t.isSigned || t.isReal || t.isComplex
  | nonBoolean => !t.isBoolean
  | nonComplex => !t.isComplex
  | singleOrDouble => t.complexOf?.isSome
  | generatorState => t == .unsigned .w32 || t == .unsigned .w64
  | integerOrLiteralReal =>
    t.isInteger || t == .real .f16 || t == .real .bf16 || t == .real .f32 || t == .real .f64

def describe : ElementClass → String
  | boolean => "'bool'"
  | integer => "an integer type"
  | booleanOrInteger => "a boolean or integer type"
  | real => "a floating-point type"
  | complex => "a complex type"
  | realOrComplex => "a floating-point or complex type"
  | integerOrReal => "an integer or floating-point type"
  | signedRealOrComplex => "a signed integer, floating-point, or complex type"
  | nonBoolean => "a non-boolean type"
  | nonComplex => "a non-complex type"
  | singleOrDouble => "'f32' or 'f64'"
  | generatorState => "'ui32' or 'ui64'"
  | integerOrLiteralReal => "an integer type or one of 'f16', 'bf16', 'f32', and 'f64'"

end ElementClass

end TensorProgram
