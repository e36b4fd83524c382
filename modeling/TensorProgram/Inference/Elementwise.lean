import TensorProgram.Inference.Arithmetic

/-!
# Elementwise operations

Operations that work on each element by itself: arithmetic on one or two
operands, comparisons, selections, clamps and conversions.

Two operands are broadcast against each other by `broadcastDimensions`: a scalar
takes the dimensions of the other operand, and otherwise two extents on one axis
have to be equal unless one of them is one.
-/

namespace TensorProgram.Inference

open ShapeError (Cause)

def unary (op : OpKind) (operand : Shape) : Check Shape :=
  match op with
  | .unary u => do
    let t ← elementType operand
    requireCapabilities op t
    match u with
    | .abs | .real | .imag => return operand.withElementType (t.realPart?.getD t)
    | .isFinite => return operand.withElementType .boolean
    | _ => return operand
  | _ => .error (.notApplicable .unary)

/-- The extent that two extents on one axis are broadcast to. -/
def broadcastExtent? (m n : Nat) : Option Nat :=
  if m = n then some m else if m = 1 then some n else if n = 1 then some m else none

/-- The dimensions that two shapes are broadcast to, if there are any. -/
def broadcastDimensions? (lhs rhs : List Nat) : Option (List Nat) :=
  if lhs = [] then some rhs
  else if rhs = [] then some lhs
  else if lhs.length = rhs.length then
    (lhs.zip rhs).mapM fun (m, n) => broadcastExtent? m n
  else none

def broadcastDimensions (lhs rhs : Shape) : Check (List Nat) :=
  match broadcastDimensions? lhs.dimensions rhs.dimensions with
  | some dimensions => .ok dimensions
  | none => .error (.incompatibleShapes lhs rhs)

/-- The element type of the result of an operation on two operands. -/
def binaryElementType (op : BinaryOp) (t : ElementType) : Check ElementType :=
  match op with
  | .complex =>
    match t.complexOf? with
    | some c => .ok c
    | none => .error (.unsupportedElementType t .singleOrDouble)
  | _ => .ok t

def binary (op : OpKind) (lhs rhs : Shape) : Check Shape :=
  match op with
  | .binary b => do
    let t ← commonElementType lhs rhs
    requireCapabilities op t
    let t ← binaryElementType b t
    return .of t (← broadcastDimensions lhs rhs)
  | _ => .error (.notApplicable .binary)

/-- Without a comparison type the comparison uses the default one of the element
type.  Complex numbers are only compared for equality. -/
def compare (lhs rhs : Shape) (direction : ComparisonDirection) (type? : Option ComparisonType) :
    Check Shape := do
  let t ← commonElementType lhs rhs
  let type := type?.getD (.defaultFor t)
  require (type.suits t) (.invalidParameter "compare_type" (.comparisonTypeUnsuited type t))
  require (!t.isComplex || direction.isEquality)
    (.invalidParameter "comparison_direction" (.complexOrder direction))
  return .of .boolean (← broadcastDimensions lhs rhs)

/-- The predicate is a boolean for each element or one for all. -/
def select (predicate onTrue onFalse : Shape) : Check Shape := do
  requireClass (← elementType predicate) .boolean
  let _ ← commonElementType onTrue onFalse
  require (onTrue.dimensions == onFalse.dimensions) (.incompatibleShapes onTrue onFalse)
  require (predicate.rank == 0 || predicate.dimensions == onTrue.dimensions)
    (.incompatibleShapes predicate onTrue)
  return onTrue

/-- A bound of a clamp is a scalar or has the dimensions of the operand. -/
def requireBound (operand bound : Shape) : Check Unit := do
  let _ ← commonElementType bound operand
  require (bound.rank == 0 || bound.dimensions == operand.dimensions)
    (.incompatibleShapes bound operand)

def clamp (min operand max : Shape) : Check Shape := do
  let t ← elementType operand
  requireCapabilities .clamp t
  requireClass t .nonComplex
  requireBound operand min
  requireBound operand max
  return operand

def convert (operand : Shape) (target : ElementType) : Check Shape := do
  let _ ← elementType operand
  return operand.withElementType target

/-- A narrower target adds a last axis that numbers the parts of an element.  A
wider target takes away such an axis. -/
def bitcastConvert (operand : Shape) (target : ElementType) : Check Shape := do
  let sourceBits := (← elementType operand).bits
  let targetBits := target.bits
  if targetBits < sourceBits then
    require ((← Size.mod sourceBits targetBits) == 0)
      (.invalidParameter "data_type" (.unevenSplit sourceBits target))
    return .of target (operand.dimensions ++ [← Size.div sourceBits targetBits])
  else if sourceBits < targetBits then
    let extent ← Size.div targetBits sourceBits
    require ((← Size.mod targetBits sourceBits) == 0 && operand.dimensions.getLast? == some extent)
      (.invalidParameter "data_type" (.wideningAxisMissing operand target extent))
    return .of target operand.dimensions.dropLast
  else
    return .of target operand.dimensions

def reducePrecision (operand : Shape) (exponentBits mantissaBits : Nat) : Check Shape := do
  requireCapabilities .reducePrecision (← elementType operand)
  require (0 < exponentBits)
    (.invalidParameter "exponent_bits" (.exponentBitsTooFew exponentBits mantissaBits))
  return operand

end TensorProgram.Inference
