import TensorProgram.Inference.Arithmetic

/-!
# Layout operations

Operations that rearrange a tensor without a look at its elements: broadcasts to
given dimensions, reshapes, transposes, static slices, concatenations and pads.
-/

namespace TensorProgram.Inference

open ShapeError (Cause)

/-- Operand axis `i` becomes output axis `axes[i]`, which has the same extent
unless the operand axis has extent one. -/
def broadcastInDim (operand : Shape) (dimensions : List Nat) (axes : List Int) : Check Shape := do
  let output := Shape.of (← elementType operand) dimensions
  require (operand.rank ≤ output.rank) (.rankMismatch output.rank operand)
  requireLength "broadcast_dimensions" operand.rank axes.length
  let axes ← normalizeAxes "broadcast_dimensions" axes output.rank
  (operand.dimensions.zip axes).forM fun (extent, axis) => do
    let target ← if extent = 1 then pure 1 else entry dimensions axis
    require (extent == target) (.incompatibleShapes operand output)
  return output

def reshape (operand : Shape) (dimensions : List Nat) : Check Shape := do
  let output := Shape.of (← elementType operand) dimensions
  let target ← Size.product output.dimensions
  let source ← Size.product operand.dimensions
  require (target == source) (.elementCountMismatch operand output)
  return output

/-- Output axis `i` is operand axis `permutation[i]`. -/
def transpose (operand : Shape) (permutation : List Int) : Check Shape := do
  let t ← elementType operand
  requireLength "permutation" operand.rank permutation.length
  let permutation ← normalizeAxes "permutation" permutation operand.rank
  return .of t (← permutation.mapM (entry operand.dimensions))

/-- The extent of one axis of a slice: the number of positions `start`,
`start + stride`, ... below `limit`. -/
def slicedExtent (axis extent : Nat) (start limit stride : Int) : Check Nat := do
  require (0 < stride) (.invalidParameter "strides" (.strideNotPositive stride axis))
  require (0 ≤ start && start ≤ limit && limit ≤ Offset.ofSize extent)
    (.invalidParameter "start_indices" (.rangeOutside start limit axis extent))
  let span ← Offset.sub limit start
  let rounded ← Offset.sub (← Offset.add span stride) 1
  return Offset.toSize (← Offset.div rounded stride)

def slice (operand : Shape) (starts limits strides : List Int) : Check Shape := do
  let t ← elementType operand
  requireLength "start_indices" operand.rank starts.length
  requireLength "limit_indices" operand.rank limits.length
  requireLength "strides" operand.rank strides.length
  let dimensions ← operand.dimensions.zipIdx.mapM fun (extent, axis) => do
    slicedExtent axis extent (← entry starts axis) (← entry limits axis) (← entry strides axis)
  return .of t dimensions

/-- The extents agree on every axis but one. -/
def agreeExcept (axis : Nat) (lhs rhs : List Nat) : Bool :=
  lhs.length == rhs.length &&
    (lhs.zip rhs).zipIdx.all fun ((m, n), index) => index == axis || m == n

/-- One more input of a concatenation, whose extent is added to the total. -/
def addInput (first : Shape) (axis total : Nat) (input : Shape) : Check Nat := do
  let _ ← commonElementType first input
  require (agreeExcept axis input.dimensions first.dimensions) (.incompatibleShapes first input)
  Size.add total (← entry input.dimensions axis)

def concatenate (inputs : List Shape) (axis : Int) : Check Shape :=
  match inputs with
  | [] => .error (.operandCountMismatch 1 0)
  | first :: rest => do
    let t ← elementType first
    require (first.rank != 0) .scalarOperand
    let axis ← normalizeAxis axis first.rank
    let total ← rest.foldlM (addInput first axis) (← entry first.dimensions axis)
    return .of t (← replaceEntry first.dimensions axis total)

/-- The extent of one padded axis.  Negative edge padding takes elements away, and
interior padding stands between neighbors. -/
def paddedExtent (axis extent : Nat) (low high interior : Int) : Check Nat := do
  require (0 ≤ interior)
    (.invalidParameter "interior_padding" (.interiorPaddingNegative interior axis))
  let extent := Offset.ofSize extent
  let edges ← Offset.add (← Offset.add low high) extent
  let gaps ← Offset.mul (max (← Offset.sub extent 1) 0) interior
  let padded ← Offset.add edges gaps
  require (0 ≤ padded) (.invalidParameter "edge_padding_low" (.paddedSizeNegative axis padded))
  return Offset.toSize padded

def pad (operand paddingValue : Shape) (low high interior : List Int) : Check Shape := do
  let t ← elementType operand
  let _ ← scalarElementType paddingValue
  let _ ← commonElementType operand paddingValue
  requireLength "edge_padding_low" operand.rank low.length
  requireLength "edge_padding_high" operand.rank high.length
  requireLength "interior_padding" operand.rank interior.length
  let dimensions ← operand.dimensions.zipIdx.mapM fun (extent, axis) => do
    paddedExtent axis extent (← entry low axis) (← entry high axis) (← entry interior axis)
  return .of t dimensions

end TensorProgram.Inference
