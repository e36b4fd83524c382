import TensorProgram.Identifier
import TensorProgram.Mesh.Error
import TensorProgram.Quoted

/-!
# Device meshes

A mesh arranges devices in a grid with named axes.  `Mesh.ofAxes` accepts
identifiers as names and positive sizes with a product below `2 ^ 64`.  A mesh may
give its logical devices other ids; `Mesh.withDeviceIds` accepts exactly the
permutations of the logical indices.
-/

namespace TensorProgram

/-- A named axis of a mesh. -/
structure MeshAxis where
  name : String
  size : Nat
  deriving DecidableEq, Repr

namespace MeshAxis

def ofNameSize (name : String) (size : Nat) : Except MeshError MeshAxis :=
  if !Identifier.isIdentifier name then .error (.invalidAxisName name)
  else if size = 0 then .error (.emptyAxis name)
  else .ok ⟨name, size⟩

end MeshAxis

/-- A grid of devices.  `assignment?` holds the id of every logical device if ids
were given. -/
structure Mesh where
  name : String
  axes : List MeshAxis
  assignment? : Option (List Nat)
  deriving DecidableEq, Repr

namespace Mesh

/-- The number of devices. -/
def deviceCount (m : Mesh) : Nat :=
  (m.axes.map MeshAxis.size).foldl (· * ·) 1

/-- One more axis, with a name that no earlier axis has. -/
def addAxis (axes : List MeshAxis) (axis : String × Nat) : Except MeshError (List MeshAxis) := do
  let axis ← MeshAxis.ofNameSize axis.1 axis.2
  if axes.any (·.name == axis.name) then throw (.repeatedAxisName axis.name)
  return axes ++ [axis]

/-- The number of devices is below `2 ^ 64`. -/
def deviceLimit : Nat :=
  0x10000000000000000

/-- One more factor of the number of devices, which stays below the limit. -/
def addFactor (count : Nat) (axis : MeshAxis) : Except MeshError Nat :=
  if count * axis.size < deviceLimit then .ok (count * axis.size)
  else .error .deviceCountOverflow

def ofAxes (name : String) (axisNames : List String) (axisSizes : List Nat) :
    Except MeshError Mesh := do
  if !Identifier.isIdentifier name then throw (.invalidMeshName name)
  if axisNames.length ≠ axisSizes.length then
    throw (.axisCountMismatch axisNames.length axisSizes.length)
  let axes ← (axisNames.zip axisSizes).foldlM addAxis []
  let _ ← axes.foldlM addFactor 1
  return ⟨name, axes, none⟩

/-- One more device id, which is in range and new. -/
def addDeviceId (count : Nat) (seen : List Nat) (device : Nat) : Except MeshError (List Nat) :=
  if count ≤ device then .error (.deviceOutOfRange device count)
  else if seen.contains device then .error (.repeatedDevice device)
  else .ok (device :: seen)

/-- The mesh in which logical device `i` has the id `ids[i]`. -/
def withDeviceIds (m : Mesh) (ids : List Nat) : Except MeshError Mesh := do
  if ids.length ≠ m.deviceCount then throw (.deviceCountMismatch m.deviceCount ids.length)
  let _ ← ids.foldlM (addDeviceId m.deviceCount) []
  return { m with assignment? := some ids }

def axisIndex? (m : Mesh) (axisName : String) : Option Nat :=
  m.axes.findIdx? (·.name == axisName)

def axisSize? (m : Mesh) (axisName : String) : Option Nat :=
  (m.axes.find? (·.name == axisName)).map MeshAxis.size

/-- The ids of the devices in logical order. -/
def deviceIds (m : Mesh) : List Nat :=
  m.assignment?.getD (List.range m.deviceCount)

/-- Every device has its logical index as id. -/
def hasIdentityAssignment (m : Mesh) : Bool :=
  match m.assignment? with
  | none => true
  | some ids => ids == List.range ids.length

def axisText (axis : MeshAxis) : String :=
  Quoted.quote axis.name ++ "=" ++ toString axis.size

/-- The axes, and the device ids unless they are the logical indices. -/
def literal (m : Mesh) : String :=
  let axes := ", ".intercalate (m.axes.map axisText)
  let ids :=
    if m.hasIdentityAssignment then ""
    else ", device_ids=[" ++ ", ".intercalate (m.deviceIds.map toString) ++ "]"
  "<[" ++ axes ++ "]" ++ ids ++ ">"

/-- The declaration of the mesh in program text. -/
def declaration (m : Mesh) : String :=
  "sdy.mesh @" ++ m.name ++ " = " ++ m.literal

end Mesh

end TensorProgram
