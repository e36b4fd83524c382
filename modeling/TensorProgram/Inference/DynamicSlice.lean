import TensorProgram.Inference.IndexedAxes

/-!
# Dynamic slices

Slices of a fixed size whose place is given by scalar operands, one per axis.
-/

namespace TensorProgram.Inference

open ShapeError (Cause)

/-- A start index is an integer scalar of the element type of the first one. -/
def requireStart (first start : Shape) : Check Unit := do
  let _ ← indexElementType start
  require (start.rank == 0) (.notScalar start)
  let _ ← commonElementType first start

def requireStarts (operand : Shape) (starts : List Shape) : Check Unit := do
  requireLength "start_indices" operand.rank starts.length
  starts.forM fun start => do requireStart (← entry starts 0) start

def dynamicSlice (operand : Shape) (starts : List Shape) (sliceSizes : List Nat) :
    Check Shape := do
  let t ← elementType operand
  requireStarts operand starts
  requireLength "slice_sizes" operand.rank sliceSizes.length
  requireSliceSizes sliceSizes operand.dimensions
  return .of t sliceSizes

/-- The update fits into the operand. -/
def dynamicUpdateSlice (operand update : Shape) (starts : List Shape) : Check Shape := do
  let _ ← commonElementType operand update
  require (update.rank == operand.rank &&
      (update.dimensions.zip operand.dimensions).all fun (m, n) => m ≤ n)
    (.incompatibleShapes operand update)
  requireStarts operand starts
  return operand

end TensorProgram.Inference
