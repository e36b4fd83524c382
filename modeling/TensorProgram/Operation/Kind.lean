import TensorProgram.ElementClass
import TensorProgram.Identifier

/-!
# Operation kinds

The kinds of operations that a statement can hold: elementwise operations on
one operand, elementwise operations on two operands, and the operations with
rules of their own.  Every kind has a name, a spelling in program text that is
derived from the name, and a list of capabilities.  A capability may restrict
the element types of the operands to an `ElementClass`.
-/

namespace TensorProgram

/-- Elementwise operations on one operand. -/
inductive UnaryOp
  | abs
  | cbrt
  | ceil
  | countLeadingZeros
  | cosine
  | exponential
  | exponentialMinusOne
  | floor
  | imag
  | isFinite
  | log
  | logPlusOne
  | logistic
  | negate
  | not
  | popcnt
  | real
  | roundNearestAfz
  | roundNearestEven
  | rsqrt
  | sign
  | sine
  | sqrt
  | tan
  | tanh
  deriving DecidableEq, Repr

/-- Elementwise operations on two operands. -/
inductive BinaryOp
  | add
  | and
  | atan2
  | complex
  | divide
  | maximum
  | minimum
  | multiply
  | or
  | power
  | remainder
  | shiftLeft
  | shiftRightArithmetic
  | shiftRightLogical
  | subtract
  | xor
  deriving DecidableEq, Repr

/-- The kinds of operations.  `regionReturn` ends the body of a closure and
`functionReturn` the body of a function. -/
inductive OpKind
  | unary (op : UnaryOp)
  | binary (op : BinaryOp)
  | compare
  | select
  | clamp
  | constant
  | iota
  | convert
  | bitcastConvert
  | reshape
  | broadcastInDim
  | transpose
  | slice
  | dynamicSlice
  | dynamicUpdateSlice
  | concatenate
  | gather
  | scatter
  | reduce
  | reduceWindow
  | convolution
  | dotGeneral
  | pad
  | fft
  | reducePrecision
  | rngBitGenerator
  | allGather
  | allToAll
  | allReduce
  | collectivePermute
  | collectiveBroadcast
  | customCall
  | regionReturn
  | functionReturn
  | argMinMax
  deriving DecidableEq, Repr

/-- The families and element type restrictions that an operation kind can have. -/
inductive Capability
  | standardUnary
  | standardBinary
  | comparison
  | floatOnly
  | floatOrComplex
  | bitwise
  | logical
  | signedOrFloat
  | nonBoolean
  | complexParts
  | collective
  | hasClosures
  deriving DecidableEq, Repr

namespace UnaryOp

def name : UnaryOp → String
  | abs => "Abs"
  | cbrt => "Cbrt"
  | ceil => "Ceil"
  | countLeadingZeros => "CountLeadingZeros"
  | cosine => "Cosine"
  | exponential => "Exponential"
  | exponentialMinusOne => "ExponentialMinusOne"
  | floor => "Floor"
  | imag => "Imag"
  | isFinite => "IsFinite"
  | log => "Log"
  | logPlusOne => "LogPlusOne"
  | logistic => "Logistic"
  | negate => "Negate"
  | not => "Not"
  | popcnt => "Popcnt"
  | real => "Real"
  | roundNearestAfz => "RoundNearestAfz"
  | roundNearestEven => "RoundNearestEven"
  | rsqrt => "Rsqrt"
  | sign => "Sign"
  | sine => "Sine"
  | sqrt => "Sqrt"
  | tan => "Tan"
  | tanh => "Tanh"

/-- The restriction on the element type of the operand. -/
def restriction : UnaryOp → Capability
  | abs | sign => .signedOrFloat
  | ceil | floor | isFinite | roundNearestAfz | roundNearestEven => .floatOnly
  | countLeadingZeros | popcnt => .bitwise
  | imag | real => .complexParts
  | negate => .nonBoolean
  | not => .logical
  | cbrt | cosine | exponential | exponentialMinusOne | log | logPlusOne | logistic | rsqrt | sine
  | sqrt | tan | tanh => .floatOrComplex

def all : List UnaryOp :=
  [abs, cbrt, ceil, countLeadingZeros, cosine, exponential, exponentialMinusOne, floor, imag,
    isFinite, log, logPlusOne, logistic, negate, not, popcnt, real, roundNearestAfz,
    roundNearestEven, rsqrt, sign, sine, sqrt, tan, tanh]

end UnaryOp

namespace BinaryOp

def name : BinaryOp → String
  | add => "Add"
  | and => "And"
  | atan2 => "Atan2"
  | complex => "Complex"
  | divide => "Divide"
  | maximum => "Maximum"
  | minimum => "Minimum"
  | multiply => "Multiply"
  | or => "Or"
  | power => "Power"
  | remainder => "Remainder"
  | shiftLeft => "ShiftLeft"
  | shiftRightArithmetic => "ShiftRightArithmetic"
  | shiftRightLogical => "ShiftRightLogical"
  | subtract => "Subtract"
  | xor => "Xor"

/-- The restriction on the element type of the operands, if there is one. -/
def restriction? : BinaryOp → Option Capability
  | add | maximum | minimum | multiply => none
  | and | or | xor => some .logical
  | atan2 => some .floatOrComplex
  | complex => some .floatOnly
  | divide | power | remainder | subtract => some .nonBoolean
  | shiftLeft | shiftRightArithmetic | shiftRightLogical => some .bitwise

def all : List BinaryOp :=
  [add, and, atan2, complex, divide, maximum, minimum, multiply, or, power, remainder, shiftLeft,
    shiftRightArithmetic, shiftRightLogical, subtract, xor]

end BinaryOp

namespace Capability

/-- The element types that a capability asks for.  The capabilities that only
name a family ask for nothing. -/
def elementClass? : Capability → Option ElementClass
  | floatOnly => some .real
  | floatOrComplex | complexParts => some .realOrComplex
  | bitwise => some .integer
  | logical => some .booleanOrInteger
  | signedOrFloat => some .signedRealOrComplex
  | nonBoolean => some .nonBoolean
  | standardUnary | standardBinary | comparison | collective | hasClosures => none

/-- Whether an element type is admitted, where the capability has a say. -/
def admits? (c : Capability) (t : ElementType) : Option Bool :=
  c.elementClass?.map (·.contains t)

def describe (c : Capability) : String :=
  c.elementClass?.elim "any type" ElementClass.describe

end Capability

namespace OpKind

def name : OpKind → String
  | unary op => op.name
  | binary op => op.name
  | compare => "Compare"
  | select => "Select"
  | clamp => "Clamp"
  | constant => "Constant"
  | iota => "Iota"
  | convert => "Convert"
  | bitcastConvert => "BitcastConvert"
  | reshape => "Reshape"
  | broadcastInDim => "BroadcastInDim"
  | transpose => "Transpose"
  | slice => "Slice"
  | dynamicSlice => "DynamicSlice"
  | dynamicUpdateSlice => "DynamicUpdateSlice"
  | concatenate => "Concatenate"
  | gather => "Gather"
  | scatter => "Scatter"
  | reduce => "Reduce"
  | reduceWindow => "ReduceWindow"
  | convolution => "Convolution"
  | dotGeneral => "DotGeneral"
  | pad => "Pad"
  | fft => "Fft"
  | reducePrecision => "ReducePrecision"
  | rngBitGenerator => "RngBitGenerator"
  | allGather => "AllGather"
  | allToAll => "AllToAll"
  | allReduce => "AllReduce"
  | collectivePermute => "CollectivePermute"
  | collectiveBroadcast => "CollectiveBroadcast"
  | customCall => "CustomCall"
  | regionReturn => "Return"
  | functionReturn => "FuncReturn"
  | argMinMax => "ArgMinMax"

def capabilities : OpKind → List Capability
  | unary op => [.standardUnary, op.restriction]
  | binary op => .standardBinary :: op.restriction?.toList
  | compare => [.comparison]
  | clamp | iota | convolution | argMinMax => [.nonBoolean]
  | scatter | reduce | reduceWindow => [.hasClosures]
  | reducePrecision => [.floatOnly]
  | allGather | allToAll | collectivePermute | collectiveBroadcast => [.collective]
  | allReduce => [.collective, .hasClosures]
  | select | constant | convert | bitcastConvert | reshape | broadcastInDim | transpose | slice
  | dynamicSlice | dynamicUpdateSlice | concatenate | gather | dotGeneral | pad | fft
  | rngBitGenerator | customCall | regionReturn | functionReturn => []

def hasCapability (op : OpKind) (c : Capability) : Bool :=
  op.capabilities.contains c

/-- The kinds that end a body. -/
def isReturn : OpKind → Bool
  | regionReturn | functionReturn => true
  | _ => false

/-- The spelling in program text.  A function return belongs to another dialect
than the rest, and an arg-min or arg-max is spelled as the reduction that
carries it out. -/
def wireName : OpKind → String
  | functionReturn => "func.return"
  | argMinMax => "stablehlo.reduce"
  | op => "stablehlo." ++ Identifier.snakeCase op.name

instance : ToString OpKind := ⟨wireName⟩

def all : List OpKind :=
  UnaryOp.all.map unary ++ BinaryOp.all.map binary ++
    [compare, select, clamp, constant, iota, convert, bitcastConvert, reshape, broadcastInDim,
      transpose, slice, dynamicSlice, dynamicUpdateSlice, concatenate, gather, scatter, reduce,
      reduceWindow, convolution, dotGeneral, pad, fft, reducePrecision, rngBitGenerator, allGather,
      allToAll, allReduce, collectivePermute, collectiveBroadcast, customCall, regionReturn,
      functionReturn, argMinMax]

def ofName? (name : String) : Option OpKind :=
  all.find? (·.name == name)

end OpKind

end TensorProgram
