import TensorProgram.ElementType

/-!
# Operation modes

The closed choices that some operations take: the direction and the order of a
comparison, the kind of a Fourier transform, and the algorithm of a random bit
generator.  Each choice has a token, and an attribute text that wraps the token
in the name of the choice.
-/

namespace TensorProgram

inductive ComparisonDirection
  | equal
  | notEqual
  | greaterThanOrEqual
  | greaterThan
  | lessThanOrEqual
  | lessThan
  deriving DecidableEq, Repr

/-- The order that a comparison uses, which has to suit the element type. -/
inductive ComparisonType
  | float
  | totalOrder
  | signed
  | unsigned
  deriving DecidableEq, Repr

inductive FftType
  | fft
  | ifft
  | rfft
  | irfft
  deriving DecidableEq, Repr

inductive RngAlgorithm
  | default
  | threeFry
  | philox
  deriving DecidableEq, Repr

/-- The attribute text of a choice. -/
def modeAttribute (choice token : String) : String :=
  "#stablehlo<" ++ choice ++ " " ++ token ++ ">"

namespace ComparisonDirection

def token : ComparisonDirection → String
  | equal => "EQ"
  | notEqual => "NE"
  | greaterThanOrEqual => "GE"
  | greaterThan => "GT"
  | lessThanOrEqual => "LE"
  | lessThan => "LT"

def render (d : ComparisonDirection) : String :=
  modeAttribute "comparison_direction" d.token

/-- Equality and inequality need no order on the elements. -/
def isEquality : ComparisonDirection → Bool
  | equal | notEqual => true
  | _ => false

end ComparisonDirection

namespace ComparisonType

def token : ComparisonType → String
  | float => "FLOAT"
  | totalOrder => "TOTALORDER"
  | signed => "SIGNED"
  | unsigned => "UNSIGNED"

def render (c : ComparisonType) : String :=
  modeAttribute "comparison_type" c.token

/-- The order that a comparison uses when none is asked for. -/
def defaultFor : ElementType → ComparisonType
  | .real _ | .complex _ => float
  | .signed _ => signed
  | .unsigned _ | .boolean => unsigned

/-- Whether the order is defined on an element type. -/
def suits (c : ComparisonType) (t : ElementType) : Bool :=
  match c with
  | float => t.isReal || t.isComplex
  | totalOrder => t.isReal
  | signed => t.isSigned
  | unsigned => t.isUnsigned || t.isBoolean

end ComparisonType

namespace FftType

def token : FftType → String
  | fft => "FFT"
  | ifft => "IFFT"
  | rfft => "RFFT"
  | irfft => "IRFFT"

def render (f : FftType) : String :=
  modeAttribute "fft_type" f.token

end FftType

namespace RngAlgorithm

def token : RngAlgorithm → String
  | default => "DEFAULT"
  | threeFry => "THREE_FRY"
  | philox => "PHILOX"

def render (a : RngAlgorithm) : String :=
  modeAttribute "rng_algorithm" a.token

end RngAlgorithm

end TensorProgram
