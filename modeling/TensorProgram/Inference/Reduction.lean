import TensorProgram.Inference.WindowedAxis
import TensorProgram.Window

/-!
# Reductions

Reductions over whole axes, over windows, and to the position of an extreme
element.  A reduction takes several inputs of the same dimensions at once, each
with a scalar that it starts from.
-/

namespace TensorProgram.Inference

open ShapeError (Cause)

/-- The part of a window on one axis. -/
def windowOnAxis (w : Window) (axis extent : Nat) : Check WindowedAxis := do
  let padding ← entry w.padding axis
  return {
    extent := extent
    window := ← entry w.dimensions axis
    stride := ← entry w.strides axis
    baseDilation := ← entry w.baseDilations axis
    windowDilation := ← entry w.windowDilations axis
    low := padding.1
    high := padding.2 }

/-- An input with its initial value, a scalar of the same element type. -/
def reducedElementType (first : Shape) (pair : Shape × Shape) : Check ElementType := do
  let (input, initial) := pair
  let t ← elementType input
  require (input.dimensions == first.dimensions) (.incompatibleShapes first input)
  require ((← scalarElementType initial) == t) (.elementTypeMismatch input initial)
  return t

/-- The element types of the inputs, which have the same dimensions. -/
def reducedElementTypes (inputs initials : List Shape) : Check (List ElementType) :=
  match inputs with
  | [] => .error (.operandCountMismatch 1 0)
  | first :: _ => do
    require (initials.length == inputs.length)
      (.operandCountMismatch inputs.length initials.length)
    (inputs.zip initials).mapM (reducedElementType first)

def reduce (inputs initials : List Shape) (axes : List Int) (combinator : Signature) :
    Check (List Shape) := do
  let types ← reducedElementTypes inputs initials
  let first ← entry inputs 0
  let reduced ← normalizeAxes "dimensions" axes first.rank
  requireCombinator (· == ·) combinator types
  let dimensions := extentsExcept first.dimensions reduced
  return types.map fun t => .of t dimensions

def reduceWindow (inputs initials : List Shape) (window : Window) (combinator : Signature) :
    Check (List Shape) := do
  let types ← reducedElementTypes inputs initials
  let first ← entry inputs 0
  requireLength "window_dimensions" first.rank window.dimensions.length
  requireLength "window_strides" first.rank window.strides.length
  requireLength "base_dilations" first.rank window.baseDilations.length
  requireLength "window_dilations" first.rank window.windowDilations.length
  requireLength "padding" first.rank window.padding.length
  requireCombinator (· == ·) combinator types
  let dimensions ← first.dimensions.zipIdx.mapM fun (extent, axis) => do
    windowedExtent axis (← windowOnAxis window axis extent)
  return types.map fun t => .of t dimensions

/-- The shape of the positions of extreme elements along an axis. -/
def argMinMax (operand : Shape) (axis : Int) (indexType : ElementType) : Check Shape := do
  requireCapabilities .argMinMax (← elementType operand)
  require (!operand.isScalar) .scalarOperand
  requireClass indexType .integer
  let axis ← normalizeAxis axis operand.rank
  let _ ← entry operand.dimensions axis
  return .of indexType (operand.dimensions.eraseIdx axis)

end TensorProgram.Inference
