import TensorProgram.Inference.WindowedAxis
import TensorProgram.Window

/-!
# Convolutions

The input, the kernel and the output of a convolution each have two axes with a
role of their own and otherwise spatial axes.  Along a spatial axis the kernel is
a window on the input, with the input dilation as base dilation.
-/

namespace TensorProgram.Inference

open ShapeError (Cause)

/-- The roles of the axes of one tensor, counted from the front. -/
structure AxisRoles where
  batch : Nat
  feature : Nat
  spatial : List Nat
  deriving DecidableEq, Repr

/-- Every axis has exactly one role. -/
def axisRoles (parameter : String) (rank : Nat) (l : ConvolutionLayout) : Check AxisRoles := do
  requireLength parameter (← Size.sub rank 2) l.spatial.length
  let axes ← normalizeAxes parameter (l.batch :: l.feature :: l.spatial) rank
  return ⟨← entry axes 0, ← entry axes 1, axes.drop 2⟩

/-- Counts of groups are positive, and features or batches are grouped but not both. -/
def requireGroupCounts (featureGroups batchGroups : Nat) : Check Unit := do
  require (featureGroups != 0 && batchGroups != 0) (.invalidParameter "group_counts" .groupCountZero)
  require (featureGroups ≤ 1 || batchGroups ≤ 1)
    (.invalidParameter "group_counts" .groupCountsBothLarge)

/-- The feature and batch extents split evenly into the groups, and the features of
one input group are those that the kernel reads. -/
def requireGroups (lhs rhs : Shape) (input kernel : AxisRoles) (featureGroups batchGroups : Nat) :
    Check Unit := do
  let inputBatch ← entry lhs.dimensions input.batch
  let inputFeatures ← entry lhs.dimensions input.feature
  let kernelInputs ← entry rhs.dimensions kernel.batch
  let kernelOutputs ← entry rhs.dimensions kernel.feature
  require ((← Size.mod inputFeatures featureGroups) == 0 &&
      (← Size.div inputFeatures featureGroups) == kernelInputs)
    (.incompatibleShapes lhs rhs)
  require ((← Size.mod kernelOutputs featureGroups) == 0 &&
      (← Size.mod kernelOutputs batchGroups) == 0)
    (.invalidParameter "group_counts" (.outputFeaturesIndivisible kernelOutputs))
  require ((← Size.mod inputBatch batchGroups) == 0)
    (.invalidParameter "group_counts" (.inputBatchIndivisible inputBatch batchGroups))

/-- One spatial axis of the output, numbered by its position among the spatial axes. -/
def addSpatialExtent (lhs rhs : Shape) (c : ConvolutionConfiguration)
    (input kernel output : AxisRoles) (dimensions : List Nat) (position : Nat) :
    Check (List Nat) := do
  let inputAxis ← entry input.spatial position
  let padding ← entry c.padding position
  let extent ← windowedExtent inputAxis {
    extent := ← entry lhs.dimensions inputAxis
    window := ← entry rhs.dimensions (← entry kernel.spatial position)
    stride := ← entry c.windowStrides position
    baseDilation := ← entry c.lhsDilation position
    windowDilation := ← entry c.rhsDilation position
    low := padding.1
    high := padding.2 }
  replaceEntry dimensions (← entry output.spatial position) extent

def convolution (lhs rhs : Shape) (c : ConvolutionConfiguration) : Check Shape := do
  let t ← commonElementType lhs rhs
  requireCapabilities .convolution t
  let rank := lhs.rank
  require (2 ≤ rank) (.rankMismatch 2 lhs)
  require (rhs.rank == rank) (.rankMismatch rank rhs)
  let spatialRank ← Size.sub rank 2
  let input ← axisRoles "input_dimensions" rank c.dimensions.input
  let kernel ← axisRoles "kernel_dimensions" rank c.dimensions.kernel
  let output ← axisRoles "output_dimensions" rank c.dimensions.output
  requireLength "window_strides" spatialRank c.windowStrides.length
  requireLength "padding" spatialRank c.padding.length
  requireLength "lhs_dilation" spatialRank c.lhsDilation.length
  requireLength "rhs_dilation" spatialRank c.rhsDilation.length
  requireGroupCounts c.featureGroups c.batchGroups
  requireGroups lhs rhs input kernel c.featureGroups c.batchGroups
  let batch ← Size.div (← entry lhs.dimensions input.batch) c.batchGroups
  let dimensions ← replaceEntry (List.replicate rank 0) output.batch batch
  let features ← entry rhs.dimensions kernel.feature
  let dimensions ← replaceEntry dimensions output.feature features
  let dimensions ←
    (List.range spatialRank).foldlM (addSpatialExtent lhs rhs c input kernel output) dimensions
  return .of t dimensions

end TensorProgram.Inference
