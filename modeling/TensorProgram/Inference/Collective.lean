import TensorProgram.Inference.Arithmetic

/-!
# Collectives

Operations that exchange data between devices.  The devices are split into
replica groups: nonempty lists of one length in which no device occurs twice.
-/

namespace TensorProgram.Inference

open ShapeError (Cause Problem)

def groupProblem (p : Problem) : Cause :=
  .invalidParameter "replica_groups" p

/-- One more device, added to the devices seen before. -/
def addDevice (seen : List Int) (device : Int) : Check (List Int) := do
  require (0 ≤ device) (groupProblem (.deviceNegative device))
  require (!seen.contains device) (groupProblem (.deviceRepeated device))
  return device :: seen

def addGroup (size : Nat) (seen : List Int) (group : List Int) : Check (List Int) := do
  require (group.length == size) (groupProblem (.replicaGroupUneven size group))
  group.foldlM addDevice seen

/-- The common length of the groups. -/
def replicaGroupSize (groups : List (List Int)) : Check Nat :=
  match groups with
  | [] => .error (groupProblem .noReplicaGroup)
  | first :: _ => do
    require (!first.isEmpty) (groupProblem .replicaGroupEmpty)
    let _ ← groups.foldlM (addGroup first.length) []
    return first.length

/-- There is an operand, and every operand is valid. -/
def operandElementTypes (operands : List Shape) : Check (List ElementType) := do
  require (!operands.isEmpty) (.operandCountMismatch 1 0)
  operands.mapM elementType

def gatheredShape (axis : Int) (groupSize : Nat) (operand : Shape) : Check Shape := do
  let axis ← normalizeAxis axis operand.rank
  let extent ← Size.mul (← entry operand.dimensions axis) groupSize
  return operand.withDimensions (← replaceEntry operand.dimensions axis extent)

/-- Every device receives the operands of its group, joined along an axis. -/
def allGather (operands : List Shape) (axis : Int) (groups : List (List Int)) :
    Check (List Shape) := do
  let _ ← operandElementTypes operands
  let groupSize ← replicaGroupSize groups
  operands.mapM (gatheredShape axis groupSize)

def exchangedShape (splitAxis concatAxis : Int) (count : Nat) (operand : Shape) : Check Shape := do
  let splitAxis ← normalizeAxis splitAxis operand.rank
  let concatAxis ← normalizeAxis concatAxis operand.rank
  let extent ← entry operand.dimensions splitAxis
  require ((← Size.mod extent count) == 0)
    (.invalidParameter "split_dimension" (.extentIndivisible extent count))
  let split ← replaceEntry operand.dimensions splitAxis (← Size.div extent count)
  let joined ← Size.mul (← entry split concatAxis) count
  return operand.withDimensions (← replaceEntry split concatAxis joined)

/-- Every operand is split along one axis, and the parts that a device receives are
joined along the other. -/
def allToAll (operands : List Shape) (splitAxis concatAxis : Int) (count : Nat)
    (groups : List (List Int)) : Check (List Shape) := do
  let _ ← operandElementTypes operands
  let groupSize ← replicaGroupSize groups
  require (count != 0 && count == groupSize)
    (.invalidParameter "split_count" (.splitCount groupSize count))
  operands.mapM (exchangedShape splitAxis concatAxis count)

def allReduce (operands : List Shape) (groups : List (List Int)) (computation : Signature) :
    Check (List Shape) := do
  let types ← operandElementTypes operands
  let _ ← replicaGroupSize groups
  requireCombinator (· == ·) computation types
  return operands

/-- One more pair, added to the sources and the targets seen before. -/
def addPair (seen : List Int × List Int) (pair : Int × Int) : Check (List Int × List Int) := do
  let (source, target) := pair
  require (0 ≤ source && 0 ≤ target)
    (.invalidParameter "source_target_pairs" (.pairNegative source target))
  require (!seen.1.contains source && !seen.2.contains target)
    (.invalidParameter "source_target_pairs" (.pairReused source target))
  return (source :: seen.1, target :: seen.2)

/-- No device is the source of two pairs or the target of two pairs. -/
def collectivePermute (operand : Shape) (pairs : List (Int × Int)) : Check Shape := do
  let _ ← elementType operand
  require (!pairs.isEmpty) (.invalidParameter "source_target_pairs" .noPair)
  let _ ← pairs.foldlM addPair ([], [])
  return operand

def collectiveBroadcast (operand : Shape) (groups : List (List Int)) : Check Shape := do
  let _ ← elementType operand
  let _ ← replicaGroupSize groups
  return operand

end TensorProgram.Inference
