/-!
# Mesh errors

Why a mesh, a sharding over a mesh, or a request to group the devices of a mesh is
rejected.
-/

namespace TensorProgram

inductive MeshError
  | invalidMeshName (name : String)
  | invalidAxisName (name : String)
  | emptyAxis (name : String)
  | repeatedAxisName (name : String)
  | axisCountMismatch (names sizes : Nat)
  | deviceCountMismatch (expected actual : Nat)
  | deviceOutOfRange (device count : Nat)
  | repeatedDevice (device : Nat)
  | unknownAxis (mesh axis : String)
  | noReference (dimension : Nat)
  | axisReused (name : String)
  | indivisibleSubAxis (name : String) (preSize size axisSize : Nat)
  | deviceCountOverflow
  deriving DecidableEq, Repr

namespace MeshError

def message : MeshError → String
  | invalidMeshName name => s!"invalid mesh name '{name}'"
  | invalidAxisName name => s!"invalid mesh axis name '{name}'"
  | emptyAxis name => s!"mesh axis '{name}' must have size > 0"
  | repeatedAxisName name => s!"mesh axis '{name}' appears more than once"
  | axisCountMismatch names sizes => s!"got {names} mesh axis name(s) but {sizes} mesh axis size(s)"
  | deviceCountMismatch expected actual =>
    s!"mesh has {expected} device(s), but the device assignment has {actual}"
  | deviceOutOfRange device count =>
    s!"device id {device} is out of range for a mesh with {count} device(s)"
  | repeatedDevice device => s!"device id {device} appears more than once in the device assignment"
  | unknownAxis mesh axis => s!"mesh '{mesh}' has no axis named '{axis}'"
  | noReference dimension => s!"sharding of tensor axis #{dimension} has an empty mesh-axis list"
  | axisReused name => s!"mesh axis '{name}' is used more than once"
  | indivisibleSubAxis name preSize size axisSize =>
    s!"sub-axis '{name}':({preSize}){size} does not divide mesh axis size {axisSize}"
  | deviceCountOverflow => "overflow while computing mesh device count from axis sizes"

end MeshError

end TensorProgram
