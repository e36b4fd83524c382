import TensorProgram.Inference.Check

/-!
# Axes of indexed access

The bookkeeping that gathers and scatters share: which axes of the operand are
dropped from a window, which are paired with axes of the indices, and which the
index vectors point into.
-/

namespace TensorProgram.Inference

open ShapeError (Cause)

/-- A list of axes with the name of the parameter that it comes from. -/
structure NamedAxes where
  parameter : String
  axes : List Int

/-- The axis lists of an indexed access.  `dropped`, `batching` and `indexMap` list
operand axes, `indicesBatching` lists axes of the indices. -/
structure IndexedAccess where
  dropped : NamedAxes
  batching : NamedAxes
  indicesBatching : NamedAxes
  indexMap : NamedAxes
  indexVector : Int

/-- The axes that every window of an indexed access lacks, and the extents of the
axes of the indices other than the index vector axis. -/
structure IndexedAxes where
  dropped : List Nat
  batching : List Nat
  batchExtents : List Nat

namespace IndexedAxes

/-- The operand axes that a window keeps. -/
def windowAxes (a : IndexedAxes) (rank : Nat) : List Nat :=
  (List.range rank).filter fun axis => !a.dropped.contains axis && !a.batching.contains axis

end IndexedAxes

/-- A pair of batching axes.  The axis of the indices is not the index vector axis
and has the extent of the operand axis. -/
def requireBatchingPair (operand indices : Shape) (parameter : String) (indexVector : Nat)
    (pair : Nat × Nat) : Check Unit := do
  let (operandAxis, indicesAxis) := pair
  require (indicesAxis != indexVector)
    (.invalidParameter parameter (.indexVectorAxis indicesAxis))
  require ((← entry operand.dimensions operandAxis) == (← entry indices.dimensions indicesAxis))
    (.invalidParameter parameter (.batchingExtentsDiffer operandAxis operand indicesAxis indices))

/-- None of the axes is in the second list. -/
def requireDisjoint (axes others : List Nat) (otherwise : Nat → Cause) : Check Unit :=
  match axes.find? others.contains with
  | some axis => .error (otherwise axis)
  | none => .ok ()

def indexedAxes (operand indices : Shape) (access : IndexedAccess) : Check IndexedAxes := do
  let indexVector ← normalizeAxis access.indexVector (indices.rank + 1)
  let dropped ← normalizeAxes access.dropped.parameter access.dropped.axes operand.rank
  let batching ← normalizeAxes access.batching.parameter access.batching.axes operand.rank
  requireDisjoint dropped batching (.duplicateAxis access.batching.parameter)
  let indicesBatching ←
    normalizeAxes access.indicesBatching.parameter access.indicesBatching.axes indices.rank
  requireLength access.indicesBatching.parameter batching.length indicesBatching.length
  (batching.zip indicesBatching).forM
    (requireBatchingPair operand indices access.indicesBatching.parameter indexVector)
  requireLength access.indexMap.parameter (indices.dimensions[indexVector]?.getD 1)
    access.indexMap.axes.length
  let indexMap ← normalizeAxes access.indexMap.parameter access.indexMap.axes operand.rank
  requireDisjoint indexMap batching fun axis =>
    .invalidParameter access.indexMap.parameter (.mappedAxisIsBatching axis)
  return ⟨dropped, batching, extentsExcept indices.dimensions [indexVector]⟩

/-- Axes in increasing order. -/
def sortedAxes (parameter : String) (axes : List Int) (rank : Nat) : Check (List Nat) := do
  let axes ← normalizeAxes parameter axes rank
  require ((axes.zip axes.tail).all fun (a, b) => a ≤ b)
    (.invalidParameter parameter .axesNotSorted)
  return axes

/-- The element type of indices, which are integers. -/
def indexElementType (indices : Shape) : Check ElementType := do
  let t ← elementType indices
  requireClass t .integer
  return t

/-- A slice is no larger than what it is taken from. -/
def requireSliceSizes (sliceSizes dimensions : List Nat) : Check Unit :=
  (sliceSizes.zip dimensions).zipIdx.forM fun ((sliceSize, extent), axis) =>
    require (sliceSize ≤ extent)
      (.invalidParameter "slice_sizes" (.sliceSizeExceeds sliceSize axis extent))

end TensorProgram.Inference
