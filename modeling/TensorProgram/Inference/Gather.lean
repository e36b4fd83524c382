import TensorProgram.DimensionNumbers
import TensorProgram.Inference.IndexedAxes

/-!
# Gathers and scatters

A gather reads a window of the operand for every index vector, and a scatter
combines a window of the updates into the inputs for every index vector.  The
output of a gather and the updates of a scatter have the same axes: the window
axes at the listed places, and the batch axes of the indices at the other places.
-/

namespace TensorProgram.Inference

open ShapeError (Cause)

namespace GatherAccess

def ofGather (d : GatherDimensions) : IndexedAccess where
  dropped := ⟨"collapsed_slice_dims", d.collapsed⟩
  batching := ⟨"operand_batching_dims", d.operandBatching⟩
  indicesBatching := ⟨"start_indices_batching_dims", d.indicesBatching⟩
  indexMap := ⟨"start_index_map", d.indexMap⟩
  indexVector := d.indexVector

def ofScatter (d : ScatterDimensions) : IndexedAccess where
  dropped := ⟨"inserted_window_dims", d.inserted⟩
  batching := ⟨"input_batching_dims", d.inputBatching⟩
  indicesBatching := ⟨"scatter_indices_batching_dims", d.indicesBatching⟩
  indexMap := ⟨"scatter_dims_to_operand_dims", d.operandMap⟩
  indexVector := d.indexVector

end GatherAccess

/-- Extents for a list of axes: the next window extent at a window axis and the
next batch extent at any other.  There is no answer when one of them runs out. -/
def interleave? (windowAxes : List Nat) : List Nat → List Nat → List Nat → Option (List Nat)
  | [], _, _ => some []
  | axis :: axes, window, batch =>
    if windowAxes.contains axis then
      match window with
      | [] => none
      | extent :: window => (interleave? windowAxes axes window batch).map (extent :: ·)
    else
      match batch with
      | [] => none
      | extent :: batch => (interleave? windowAxes axes window batch).map (extent :: ·)

def gather (operand indices : Shape) (d : GatherDimensions) (sliceSizes : List Nat) :
    Check Shape := do
  let t ← elementType operand
  let _ ← indexElementType indices
  requireLength "slice_sizes" operand.rank sliceSizes.length
  requireSliceSizes sliceSizes operand.dimensions
  let axes ← indexedAxes operand indices (GatherAccess.ofGather d)
  (axes.dropped ++ axes.batching).forM fun axis => do
    require ((← entry sliceSizes axis) ≤ 1)
      (.invalidParameter "slice_sizes" (.sliceSizeNotUnit axis))
  let windowExtents ← (axes.windowAxes operand.rank).mapM (entry sliceSizes)
  requireLength "offset_dims" windowExtents.length d.offset.length
  let outputRank := axes.batchExtents.length + windowExtents.length
  let offset ← sortedAxes "offset_dims" d.offset outputRank
  match interleave? offset (List.range outputRank) windowExtents axes.batchExtents with
  | some dimensions => return .of t dimensions
  | none => throw (.invalidParameter "offset_dims" .outputNotCovered)

/-- The extents of updates fit: at a window axis the extent is at most the next
bound, and at any other axis it is the next batch extent. -/
def updateFits (windowAxes : List Nat) : List (Nat × Nat) → List Nat → List Nat → Bool
  | [], _, _ => true
  | (extent, axis) :: rest, bounds, batch =>
    if windowAxes.contains axis then
      match bounds with
      | [] => false
      | bound :: bounds => extent ≤ bound && updateFits windowAxes rest bounds batch
    else
      match batch with
      | [] => false
      | expected :: batch => expected == extent && updateFits windowAxes rest bounds batch

/-- An input of a scatter with its update.  All inputs have the dimensions of the
first one, and so have all updates. -/
def scatterElementType (firstInput firstUpdate : Shape) (pair : Shape × Shape) :
    Check ElementType := do
  let (input, update) := pair
  let t ← commonElementType input update
  require (input.dimensions == firstInput.dimensions) (.incompatibleShapes firstInput input)
  require (update.dimensions == firstUpdate.dimensions) (.incompatibleShapes firstUpdate update)
  return t

/-- The results have the shapes of the inputs.  The update computation may work on
element types that those of the inputs can be widened to. -/
def scatter (inputs : List Shape) (indices : Shape) (updates : List Shape) (d : ScatterDimensions)
    (computation : Signature) : Check (List Shape) :=
  match inputs with
  | [] => .error (.operandCountMismatch 1 0)
  | input :: _ => do
    require (updates.length == inputs.length)
      (.operandCountMismatch inputs.length updates.length)
    let update ← entry updates 0
    let types ← (inputs.zip updates).mapM (scatterElementType input update)
    let _ ← indexElementType indices
    let axes ← indexedAxes input indices (GatherAccess.ofScatter d)
    let bounds ← (axes.windowAxes input.rank).mapM (entry input.dimensions)
    requireLength "update_window_dims" bounds.length d.updateWindow.length
    let updateRank := axes.batchExtents.length + bounds.length
    require (update.rank == updateRank) (.rankMismatch updateRank update)
    let windowAxes ← sortedAxes "update_window_dims" d.updateWindow update.rank
    require (updateFits windowAxes update.dimensions.zipIdx bounds axes.batchExtents)
      (.incompatibleShapes input update)
    requireCombinator ElementType.promotableTo computation types
    return inputs

end TensorProgram.Inference
