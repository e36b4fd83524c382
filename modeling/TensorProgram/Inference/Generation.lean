import TensorProgram.Inference.Check

/-!
# Generated tensors

Operations whose result shapes the caller gives: counters along an axis, random
bits, and calls to a target that the program knows nothing about.
-/

namespace TensorProgram.Inference

open ShapeError (Cause)

def iota (s : Shape) (axis : Int) : Check Shape := do
  requireCapabilities .iota (← elementType s)
  require (!s.isScalar) .scalarOperand
  let _ ← normalizeAxis axis s.rank
  return s

/-- The results are the next generator state and the bits. -/
def rngBitGenerator (initialState s : Shape) : Check (List Shape) := do
  requireClass (← elementType initialState) .generatorState
  require (initialState.rank == 1) (.rankMismatch 1 initialState)
  requireClass (← elementType s) .integerOrReal
  return [initialState, s]

def customCall (inputs outputs : List Shape) : Check (List Shape) := do
  (inputs ++ outputs).forM fun s => do
    let _ ← elementType s
  return outputs

end TensorProgram.Inference
