import TensorProgram.Mesh.Error
import TensorProgram.ShapeError

/-!
# Build errors

Why a step of building a program is rejected.  A `ProgramError` is a breach of the rules
on functions, values, closures and meshes; an operation may also be rejected by shape
inference, and a sharding by its mesh.
-/

namespace TensorProgram

/-- The two ways to spread a program over devices, of which a program has one. -/
inductive DistributionKind
  | counts
  | meshes
  deriving DecidableEq, Repr

namespace DistributionKind

def describe : DistributionKind → String
  | counts => "replica and partition counts"
  | meshes => "device meshes"

end DistributionKind

inductive ProgramError
  | unknownFunction (id : Nat)
  | alreadyReturned (function : String)
  | valueOutOfScope (value function : String)
  | closureNotChild (closure function : String)
  | closureNotReturned (closure : String)
  | closureAlreadyUsed (closure : String)
  | duplicateFunctionName (name : String)
  | duplicateValueName (name function : String)
  | emptyFunctionName
  | emptyValueName
  | missingMain (program : String)
  | emptyBody (function : String)
  | missingReturn (function : String)
  | unknownMesh (mesh : String)
  | duplicateMesh (mesh : String)
  | meshDeviceCountMismatch (mesh : String) (expected actual : Nat)
  | distributionConflict (configured requested : DistributionKind)
  | unsupportedAttribute (key typeName : String)
  | shardingRankMismatch (shardingRank rank : Nat)
  | shardingCountMismatch (expected actual : Nat)
  deriving DecidableEq, Repr

namespace ProgramError

def message : ProgramError → String
  | unknownFunction id => s!"unknown function #{id}"
  | alreadyReturned function => s!"function '{function}' has already returned"
  | valueOutOfScope value function =>
    s!"value '{value}' is not in the scope of function '{function}'"
  | closureNotChild closure function =>
    s!"closure '{closure}' is not a direct child of function '{function}'"
  | closureNotReturned closure => s!"closure '{closure}' must return before it can be used"
  | closureAlreadyUsed closure =>
    s!"closure '{closure}' has already been used by another operation"
  | duplicateFunctionName name => s!"function name '{name}' is used more than once"
  | duplicateValueName name function =>
    s!"value name '{name}' is used more than once in function '{function}'"
  | emptyFunctionName => "function names must be non-empty"
  | emptyValueName => "value names must be non-empty"
  | missingMain program => s!"program '{program}' has no function named 'main'"
  | emptyBody function => s!"function '{function}' has no statements"
  | missingReturn function => s!"function '{function}' never returned"
  | unknownMesh mesh => s!"mesh '{mesh}' is not registered with the program"
  | duplicateMesh mesh => s!"mesh '{mesh}' is registered more than once"
  | meshDeviceCountMismatch mesh expected actual =>
    s!"mesh '{mesh}' has {actual} device(s) but the program is partitioned across {expected} device(s)"
  | distributionConflict configured requested =>
    s!"cannot configure {requested.describe} because the program already uses {configured.describe}"
  | unsupportedAttribute key typeName =>
    s!"attribute '{key}' has a value of unsupported type '{typeName}'"
  | shardingRankMismatch shardingRank rank =>
    s!"sharding with {shardingRank} axes cannot be attached to a value of rank {rank}"
  | shardingCountMismatch expected actual => s!"expected {expected} sharding(s) but got {actual}"

end ProgramError

inductive BuildError
  | shape (error : ShapeError)
  | program (error : ProgramError)
  | mesh (error : MeshError)
  deriving DecidableEq, Repr

namespace BuildError

def message : BuildError → String
  | shape error => error.message
  | program error => error.message
  | mesh error => error.message

end BuildError

end TensorProgram
