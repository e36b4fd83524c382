import TensorProgram.Mesh.Basic

/-!
# Shardings

How the axes of a tensor are spread over the axes of a mesh.  `Sharding.validate`
checks the references to mesh axes: each names an axis of the mesh, no axis is used
twice, and the parts of an axis do not overlap.
-/

namespace TensorProgram

/-- A mesh axis, or the part of one that has `size` places after the first `preSize`
have been used. -/
inductive AxisReference
  | whole (name : String)
  | part (name : String) (preSize size : Nat)
  deriving DecidableEq, Repr

namespace AxisReference

def name : AxisReference → String
  | whole name => name
  | part name _ _ => name

def render : AxisReference → String
  | whole name => Quoted.quote name
  | part name preSize size => Quoted.quote name ++ s!":({preSize}){size}"

end AxisReference

/-- How one tensor axis is spread: not at all, in a way left to others, or over mesh
axes from major to minor. -/
inductive AxisSharding
  | replicated
  | undecided
  | sharded (references : List AxisReference)
  deriving DecidableEq, Repr

namespace AxisSharding

def references : AxisSharding → List AxisReference
  | sharded references => references
  | _ => []

def render : AxisSharding → String
  | replicated => "\x7b\x7d"
  | undecided => "\x7b?\x7d"
  | sharded references =>
    "\x7b" ++ ", ".intercalate (references.map AxisReference.render) ++ "\x7d"

end AxisSharding

/-- How a tensor is spread over a mesh.  Axes that are not listed are replicated. -/
structure Sharding where
  mesh : Mesh
  axes : List AxisSharding
  deriving DecidableEq, Repr

namespace Sharding

/-- The mesh axes that are used as a whole, and the parts that are used, each as the
range from its start to its end. -/
structure Usage where
  whole : List String
  parts : List (String × Nat × Nat)
  deriving DecidableEq, Repr

namespace Usage

/-- The ranges do not overlap. -/
def apart (a b : Nat × Nat) : Bool :=
  a.2 ≤ b.1 || b.2 ≤ a.1

/-- The use of a whole axis, of which nothing was used before. -/
def addWhole (u : Usage) (name : String) : Except MeshError Usage :=
  if u.parts.any (·.1 == name) || u.whole.contains name then .error (.axisReused name)
  else .ok { u with whole := name :: u.whole }

/-- The use of a part of an axis, which no part used before overlaps. -/
def addPart (u : Usage) (name : String) (axisSize preSize size : Nat) : Except MeshError Usage :=
  let product := preSize * size
  if preSize = 0 ∨ size = 0 ∨ axisSize % product ≠ 0 then
    .error (.indivisibleSubAxis name preSize size axisSize)
  else
    let range := (preSize, product)
    let others := u.parts.filter (·.1 == name)
    if u.whole.contains name || others.any (fun other => !apart range other.2) then
      .error (.axisReused name)
    else .ok { u with parts := (name, range) :: u.parts }

def addReference (m : Mesh) (u : Usage) (r : AxisReference) : Except MeshError Usage :=
  match m.axisSize? r.name with
  | none => .error (.unknownAxis m.name r.name)
  | some axisSize =>
    match r with
    | .whole name => u.addWhole name
    | .part name preSize size => u.addPart name axisSize preSize size

/-- The use by one tensor axis. -/
def addAxis (m : Mesh) (u : Usage) (axis : AxisSharding × Nat) : Except MeshError Usage :=
  match axis with
  | (.sharded [], dimension) => .error (.noReference dimension)
  | (.sharded references, _) => references.foldlM (addReference m) u
  | _ => .ok u

end Usage

def validate (s : Sharding) : Except MeshError Unit := do
  let _ ← s.axes.zipIdx.foldlM (Usage.addAxis s.mesh) ⟨[], []⟩

def ofAxes (mesh : Mesh) (axes : List AxisSharding) : Except MeshError Sharding := do
  let s : Sharding := ⟨mesh, axes⟩
  s.validate
  return s

/-- Every device holds the whole tensor. -/
def replicated (mesh : Mesh) : Sharding :=
  ⟨mesh, []⟩

def rank (s : Sharding) : Nat :=
  s.axes.length

/-- The attribute text for a tensor of the given rank.  Axes that are not listed are
filled up as replicated. -/
def attributeText (s : Sharding) (rank : Nat) : String :=
  let axes := s.axes ++ List.replicate (rank - s.axes.length) .replicated
  "#sdy.sharding<@" ++ s.mesh.name ++ ", [" ++ ", ".intercalate (axes.map AxisSharding.render) ++ "]>"

end Sharding

/-- How a program is spread over devices: by counts of replicas and partitions, or
over meshes of one number of devices. -/
inductive Distribution
  | replicated (replicas partitions : Nat)
  | meshes (meshes : List Mesh)
  deriving DecidableEq, Repr

namespace Distribution

/-- The number of replicas and the number of partitions. -/
def counts : Distribution → Nat × Nat
  | replicated replicas partitions => (replicas, partitions)
  | meshes [] => (1, 1)
  | meshes (mesh :: _) => (1, mesh.deviceCount)

end Distribution

end TensorProgram
