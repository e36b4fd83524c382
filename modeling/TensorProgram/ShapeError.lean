import TensorProgram.Operation.Kind
import TensorProgram.Operation.Mode
import TensorProgram.Shape

/-!
# Shape errors

Why an operation is rejected.  A `ShapeError` is the kind of the rejected
operation together with a cause.  `ShapeError.message` words it.

A cause of the form `fault f` is no verdict on the request.  It says that a
computation on sizes ran into a limit of 64-bit arithmetic or of a list, and
that no answer was found.  A fault is worded by itself, without the operation.
-/

namespace TensorProgram

/-- The operations of 64-bit arithmetic that can leave its range. -/
inductive Arithmetic
  | add
  | subtract
  | multiply
  | divide
  deriving DecidableEq, Repr

namespace Arithmetic

def verb : Arithmetic → String
  | add => "add"
  | subtract => "subtract"
  | multiply => "multiply"
  | divide => "divide"

end Arithmetic

/-- Why a computation on sizes stopped without an answer. -/
inductive Fault
  | overflow (operation : Arithmetic)
  | negativeSize
  | divisionByZero
  | remainderByZero
  | outOfBounds (length position : Nat)
  deriving DecidableEq, Repr

namespace Fault

/-- A difference of sizes below zero is worded like any other overflow. -/
def message : Fault → String
  | overflow operation => s!"attempt to {operation.verb} with overflow"
  | negativeSize => s!"attempt to {Arithmetic.subtract.verb} with overflow"
  | divisionByZero => "attempt to divide by zero"
  | remainderByZero => "attempt to calculate the remainder with a divisor of zero"
  | outOfBounds length position =>
    s!"index out of bounds: the len is {length} but the index is {position}"

end Fault

namespace ShapeError

/-- What is wrong with the value of a parameter. -/
inductive Problem
  | comparisonTypeUnsuited (type : ComparisonType) (elementType : ElementType)
  | complexOrder (direction : ComparisonDirection)
  | unevenSplit (sourceBits : Nat) (target : ElementType)
  | wideningAxisMissing (operand : Shape) (target : ElementType) (extent : Nat)
  | exponentBitsTooFew (exponentBits mantissaBits : Nat)
  | strideNotPositive (stride : Int) (axis : Nat)
  | rangeOutside (start limit : Int) (axis extent : Nat)
  | interiorPaddingNegative (padding : Int) (axis : Nat)
  | paddedSizeNegative (axis : Nat) (size : Int)
  | sliceSizeExceeds (sliceSize axis extent : Nat)
  | sliceSizeNotUnit (axis : Nat)
  | outputNotCovered
  | axesNotSorted
  | indexVectorAxis (axis : Nat)
  | batchingExtentsDiffer (operandAxis : Nat) (operand : Shape) (indicesAxis : Nat) (indices : Shape)
  | mappedAxisIsBatching (axis : Nat)
  | zeroWindow (axis : Nat)
  | windowExceeds (axis : Nat) (window padded : Int)
  | groupCountZero
  | groupCountsBothLarge
  | outputFeaturesIndivisible (features : Nat)
  | inputBatchIndivisible (batch batchGroups : Nat)
  | transformCount (most count : Nat)
  | transformLengthMismatch (length : Nat) (operand : Shape)
  | noReplicaGroup
  | replicaGroupEmpty
  | replicaGroupUneven (size : Nat) (group : List Int)
  | deviceNegative (device : Int)
  | deviceRepeated (device : Int)
  | splitCount (groupSize count : Nat)
  | extentIndivisible (extent count : Nat)
  | noPair
  | pairNegative (source target : Int)
  | pairReused (source target : Int)
  | storageMismatch (elementType : ElementType)
  | literalLength (expected : Nat) (shape : Shape) (actual : Nat)
  deriving DecidableEq, Repr

namespace Problem

/-- A list of numbers in messages, such as `[0, 1]`. -/
def describeList (xs : List Int) : String :=
  "[" ++ ", ".intercalate (xs.map toString) ++ "]"

def message : Problem → String
  | comparisonTypeUnsuited type elementType =>
    s!"comparison type '{type.token}' cannot be used with element type '{elementType}'"
  | complexOrder direction =>
    s!"complex values only support 'EQ' and 'NE' but got '{direction.token}'"
  | unevenSplit bits target => s!"{bits} bits cannot be split evenly into '{target}' elements"
  | wideningAxisMissing operand target extent =>
    s!"widening {operand} to '{target}' requires a trailing axis of size {extent}"
  | exponentBitsTooFew exponentBits mantissaBits =>
    s!"must be at least 1 but got {exponentBits} (mantissa bits: {mantissaBits})"
  | strideNotPositive stride axis => s!"stride {stride} of axis {axis} must be positive"
  | rangeOutside start limit axis extent =>
    s!"range [{start}, {limit}) of axis {axis} is not within [0, {extent}]"
  | interiorPaddingNegative padding axis =>
    s!"interior padding {padding} of axis {axis} must be non-negative"
  | paddedSizeNegative axis size => s!"padding of axis {axis} results in negative size {size}"
  | sliceSizeExceeds sliceSize axis extent =>
    s!"slice size {sliceSize} of axis {axis} exceeds the operand size {extent}"
  | sliceSizeNotUnit axis => s!"collapsed or batching axis {axis} must have slice size 1 or 0"
  | outputNotCovered => "offset and batch axes do not cover the output"
  | axesNotSorted => "axes must be sorted"
  | indexVectorAxis axis => s!"axis {axis} is the index vector axis"
  | batchingExtentsDiffer operandAxis operand indicesAxis indices =>
    s!"operand axis {operandAxis} of {operand} and indices axis {indicesAxis} of {indices} differ"
  | mappedAxisIsBatching axis => s!"axis {axis} is also a batching axis"
  | zeroWindow axis => s!"axis {axis} has a zero window size, stride, or dilation"
  | windowExceeds axis window padded =>
    s!"the dilated window of axis {axis} has size {window}, which exceeds the padded input size {padded}"
  | groupCountZero => "group counts must be positive"
  | groupCountsBothLarge => "at most one of the feature and batch group counts may exceed 1"
  | outputFeaturesIndivisible features =>
    s!"the kernel output feature size {features} is not divisible by the group counts"
  | inputBatchIndivisible batch groups =>
    s!"the input batch size {batch} is not divisible by the batch group count {groups}"
  | transformCount most count => s!"expected between 1 and {most} lengths but got {count}"
  | transformLengthMismatch length operand =>
    s!"length {length} does not match the transformed axes of {operand}"
  | noReplicaGroup => "expected at least one replica group"
  | replicaGroupEmpty => "replica groups must not be empty"
  | replicaGroupUneven size group =>
    s!"expected every replica group to have size {size} but got {describeList group}"
  | deviceNegative device => s!"device id {device} is negative"
  | deviceRepeated device => s!"device id {device} appears in more than one position"
  | splitCount groupSize count => s!"expected the replica group size {groupSize} but got {count}"
  | extentIndivisible extent count => s!"size {extent} is not divisible by {count}"
  | noPair => "expected at least one source-target pair"
  | pairNegative source target => s!"pair ({source}, {target}) contains a negative device id"
  | pairReused source target => s!"pair ({source}, {target}) reuses a source or a target"
  | storageMismatch elementType => s!"element storage does not match element type '{elementType}'"
  | literalLength expected shape actual =>
    s!"expected {expected} element(s) for {shape} but got {actual}"

end Problem

/-- What is wrong with the signature of a closure. -/
inductive ClosureProblem
  | counts (expectedInputs expectedOutputs inputs outputs : Nat)
  | notScalar (expected : ElementType) (position : Nat) (shape : Shape)
  deriving DecidableEq, Repr

namespace ClosureProblem

def message : ClosureProblem → String
  | counts expectedInputs expectedOutputs inputs outputs =>
    s!"expected {expectedInputs} input(s) and {expectedOutputs} output(s) but got " ++
      s!"{inputs} input(s) and {outputs} output(s)"
  | notScalar expected position shape =>
    s!"expected a scalar of type '{expected}' at position {position} but got {shape}"

end ClosureProblem

/-- The family that an operation had to belong to. -/
inductive Family
  | unary
  | binary
  deriving DecidableEq, Repr

namespace Family

def name : Family → String
  | unary => "unary"
  | binary => "binary"

end Family

inductive Cause
  | invalidShape
  | notApplicable (family : Family)
  | unsupportedElementType (elementType : ElementType) (expected : ElementClass)
  | elementTypeMismatch (lhs rhs : Shape)
  | incompatibleShapes (lhs rhs : Shape)
  | rankMismatch (expected : Nat) (shape : Shape)
  | notScalar (shape : Shape)
  | scalarOperand
  | axisOutOfRange (axis : Int) (rank : Nat)
  | duplicateAxis (parameter : String) (axis : Nat)
  | lengthMismatch (parameter : String) (expected actual : Nat)
  | operandCountMismatch (expected actual : Nat)
  | elementCountMismatch (source target : Shape)
  | invalidParameter (parameter : String) (problem : Problem)
  | invalidClosure (problem : ClosureProblem)
  | fault (fault : Fault)
  deriving DecidableEq, Repr

namespace Cause

/-- The wording of a cause, which follows the name of the operation unless it is a fault. -/
def message : Cause → String
  | invalidShape => "received an invalid shape"
  | notApplicable family => s!"is not a {family.name} operation"
  | unsupportedElementType elementType expected =>
    s!"does not support element type '{elementType}'; expected {expected.describe}"
  | elementTypeMismatch lhs rhs => s!"requires matching element types but got {lhs} and {rhs}"
  | incompatibleShapes lhs rhs => s!"received incompatible shapes {lhs} and {rhs}"
  | rankMismatch expected shape => s!"expected an operand of rank {expected} but got {shape}"
  | notScalar shape => s!"expected a scalar but got {shape}"
  | scalarOperand => "does not accept scalar operands"
  | axisOutOfRange axis rank => s!"got axis {axis} which is out of range for rank {rank}"
  | duplicateAxis parameter axis => s!"got axis {axis} more than once in '{parameter}'"
  | lengthMismatch parameter expected actual =>
    s!"expected '{parameter}' to have length {expected} but got {actual}"
  | operandCountMismatch expected actual => s!"expected {expected} operand(s) but got {actual}"
  | elementCountMismatch source target =>
    s!"cannot change the element count of {source} to {target}"
  | invalidParameter parameter problem => s!"has an invalid '{parameter}': {problem.message}"
  | invalidClosure problem => s!"has an invalid closure: {problem.message}"
  | fault f => f.message

end Cause

end ShapeError

/-- The rejection of an operation. -/
structure ShapeError where
  op : OpKind
  cause : ShapeError.Cause
  deriving DecidableEq, Repr

namespace ShapeError

def message (e : ShapeError) : String :=
  match e.cause with
  | .fault f => f.message
  | cause => s!"'{e.op}' " ++ cause.message

end ShapeError

end TensorProgram
