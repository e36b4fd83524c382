import TensorProgram.Inference.Arithmetic
import TensorProgram.Mesh.Basic
import TensorProgram.Mesh.Coordinates

/-!
# Replica groups of a mesh

A collective over some axes of a mesh joins the devices that differ only along
those axes.  Groups are in the order of the coordinates that their members share,
and members are in logical order.
-/

namespace TensorProgram.Mesh

/-- One more listed axis: it exists and is not listed before. -/
def addListedAxis (m : Mesh) (listed : List Nat) (axisName : String) :
    Except MeshError (List Nat) :=
  match m.axisIndex? axisName with
  | none => .error (.unknownAxis m.name axisName)
  | some axis => if listed.contains axis then .error (.axisReused axisName) else .ok (axis :: listed)

/-- The entries of the axes that are listed, or of those that are not. -/
def selectAxes (listed : List Nat) (wanted : Bool) (xs : List α) : List α :=
  (xs.zipIdx.filter fun (_, axis) => listed.contains axis == wanted).map Prod.fst

/-- The number of the group of a logical device. -/
def groupIndex (sizes : List Nat) (listed : List Nat) (device : Nat) : Nat :=
  linearIndex (selectAxes listed false ((coordinates sizes device).zip sizes))

/-- The device ids of the groups of a collective over the named axes. -/
def replicaGroups (m : Mesh) (axisNames : List String) : Except MeshError (List (List Int)) := do
  let listed ← axisNames.foldlM (addListedAxis m) []
  let sizes := m.axes.map MeshAxis.size
  let groupSize := (selectAxes listed true sizes).foldl (· * ·) 1
  let members := m.deviceIds.zipIdx.map fun (id, device) =>
    (groupIndex sizes listed device, Inference.Offset.ofSize id)
  return (List.range (m.deviceCount / groupSize)).map fun group =>
    (members.filter fun (index, _) => index == group).map Prod.snd

end TensorProgram.Mesh
