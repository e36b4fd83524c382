import TensorProgram.Program.Extremum

/-!
# Calls

All ways to build a program, as one type.  `Call.run` carries a call out; the programs
that can be built are those that some calls lead to from an empty program.
-/

namespace TensorProgram

inductive Call
  | function (name : String) (inputs : List Shape)
  | setReplicasAndPartitions (replicas partitions : Nat)
  | addMesh (mesh : Mesh)
  | closure (id : FunctionId)
  | input (id : FunctionId) (shape : Shape)
  | namedInput (id : FunctionId) (name : String) (shape : Shape)
  | inputWithSharding (id : FunctionId) (shape : Shape) (sharding : Sharding)
  | returnValues (id : FunctionId) (values : List Value)
  | returnSharded (id : FunctionId) (values : List Value) (shardings : List (Option Sharding))
  | append (id : FunctionId) (o : Operation Value FunctionId)
  | argExtremum (id : FunctionId) (e : Extremum) (operand : Value) (axis : Int)
      (positionType : ElementType)
  deriving DecidableEq, Repr

/-- What a successful call answers. -/
inductive Answer
  | done
  | function (id : FunctionId)
  | values (values : List Value)
  deriving DecidableEq, Repr

namespace Call

def run : Call → Builder Answer
  | function name inputs => return .function (← Builder.function name inputs)
  | setReplicasAndPartitions replicas partitions => do
    Builder.setReplicasAndPartitions replicas partitions
    return .done
  | addMesh mesh => do
    Builder.addMesh mesh
    return .done
  | closure id => return .function (← Builder.closure id)
  | input id shape => return .values [← Builder.input id shape]
  | namedInput id name shape => return .values [← Builder.namedInput id name shape]
  | inputWithSharding id shape sharding =>
    return .values [← Builder.inputWithSharding id shape sharding]
  | returnValues id values => do
    Builder.returnValues id values
    return .done
  | returnSharded id values shardings => do
    Builder.returnSharded id values shardings
    return .done
  | append id o => return .values (← Builder.append id o)
  | argExtremum id e operand axis positionType =>
    return .values [← Builder.argExtremum id e operand axis positionType]

end Call

namespace Program

/-- The program after one more call, whether the call succeeds or not. -/
def call (p : Program) (c : Call) : Program :=
  (c.run.run p).2

/-- The program after some calls. -/
def ofCalls (name : String) (calls : List Call) : Program :=
  calls.foldl call (.empty name)

end Program

end TensorProgram
