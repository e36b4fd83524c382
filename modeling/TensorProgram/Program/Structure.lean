import TensorProgram.Program.Statement

/-!
# Functions, inputs and returns

The steps that make up the frame of a program: top-level functions, how the program is
spread over devices, closures, inputs, and the return that ends a function.
-/

namespace TensorProgram

namespace Program

/-! ## Changes that cannot fail -/

/-- A new function at the end. -/
def addFunction (p : Program) (role : Role) : FunctionId × Program :=
  (p.functions.length, { p with functions := p.functions ++ [.ofRole role] })

/-- A new value of a function. -/
def addValue (p : Program) (id : FunctionId) (data : ValueData) : Value × Program :=
  let index := ((p.function? id).map (·.values.length)).getD 0
  (⟨id, index⟩, p.modify id fun f => { f with values := f.values ++ [data] })

/-- A new input of a function, whose name has been taken from the scope. -/
def addInput (p : Program) (id : FunctionId) (data : ValueData) : Value × Program :=
  let (v, p) := p.addValue id data
  (v, p.modify id fun f => { f with inputs := f.inputs ++ [v] })

/-- A new input with the first free position. -/
def addPositionalInput (p : Program) (id : FunctionId) (shape : Shape) : Value × Program :=
  let position := (p.scope id).freeArgument
  (p.modifyScope id (·.takeArgument position)).addInput id ⟨.argument position, shape, none⟩

/-- A sharding of a value. -/
def setSharding (p : Program) (v : Value) (sharding : Sharding) : Program :=
  p.modify v.function fun f =>
    { f with values := f.values.modify v.index fun data => { data with sharding? := some sharding } }

/-- The end of a function, after which it cannot change. -/
def markReturned (p : Program) (id : FunctionId) (outputs : List Output) : Program :=
  p.modify id fun f => { f with returned? := some outputs }

end Program

namespace Builder

/-! ## Program level -/

/-- The name of a new top-level function. -/
def newFunctionName (p : Program) (name : String) : Except BuildError String := do
  let name := Identifier.normalize name
  Program.require (name != "") .emptyFunctionName
  Program.require ((p.find? name).isNone) (.duplicateFunctionName name)
  return name

/-- Counts of replicas and partitions, unless the program has meshes. -/
def setReplicasAndPartitions (replicas partitions : Nat) : Builder Unit := do
  check fun p =>
    match p.distribution? with
    | some (.meshes _) => .error (.program (.distributionConflict .meshes .counts))
    | _ => .ok ()
  change fun p => ((), { p with distribution? := some (.replicated replicas partitions) })

/-- The mesh has a new name and as many devices as the meshes before it, and the program
has no counts of replicas and partitions. -/
def checkNewMesh (mesh : Mesh) (p : Program) : Except BuildError Unit := do
  match p.distribution? with
  | some (.replicated ..) => throw (.program (.distributionConflict .counts .meshes))
  | _ => pure ()
  Program.require ((p.mesh? mesh.name).isNone) (.duplicateMesh mesh.name)
  match p.meshes.head? with
  | some first =>
    Program.require (first.deviceCount == mesh.deviceCount)
      (.meshDeviceCountMismatch mesh.name first.deviceCount mesh.deviceCount)
  | none => pure ()

def addMesh (mesh : Mesh) : Builder Unit := do
  check (checkNewMesh mesh)
  change fun p => ((), { p with distribution? := some (.meshes (p.meshes ++ [mesh])) })

/-! ## Function level -/

/-- A new closure in an open function. -/
def closure (id : FunctionId) : Builder FunctionId := do
  let _ ← check (·.openFunction id)
  change fun p => p.addFunction (.closure id (p.root id))

/-- A new input with the first free position. -/
def input (id : FunctionId) (shape : Shape) : Builder Value := do
  let _ ← check (·.openFunction id)
  change (·.addPositionalInput id shape)

/-- A new top-level function with one positional input for each shape. -/
def function (name : String) (inputs : List Shape) : Builder FunctionId := do
  let name ← check (newFunctionName · name)
  let id ← change (·.addFunction (.topLevel name))
  inputs.forM fun shape => do
    let _ ← input id shape
  return id

/-- The name of a new named input, which no input in the scope has. -/
def newInputName (p : Program) (id : FunctionId) (name : String) : Except BuildError String := do
  let name := Identifier.normalize name
  Program.require (name != "") .emptyValueName
  Program.require (!(p.scope id).names.contains name)
    (.duplicateValueName name (p.describeFunction (p.root id)))
  return name

/-- A new input with a name of its own. -/
def namedInput (id : FunctionId) (name : String) (shape : Shape) : Builder Value := do
  let _ ← check (·.openFunction id)
  let name ← check (newInputName · id name)
  change fun p => (p.modifyScope id (·.takeName name)).addInput id ⟨.named name, shape, none⟩

/-- A new input with the first free position and a sharding. -/
def inputWithSharding (id : FunctionId) (shape : Shape) (sharding : Sharding) :
    Builder Value := do
  let _ ← check (·.openFunction id)
  check (·.checkSharding sharding shape)
  let v ← input id shape
  change fun p => (v, p.setSharding v sharding)

/-- The outputs of a return: the shapes of values in scope, each with its sharding. -/
def checkReturn (id : FunctionId) (values : List Value) (shardings : List (Option Sharding))
    (p : Program) : Except BuildError (List Output) := do
  let _ ← p.openFunction id
  let shapes ← values.mapM (p.shapeOf id)
  Program.require (shardings.length == values.length)
    (.shardingCountMismatch values.length shardings.length)
  (shapes.zip shardings).mapM fun (shape, sharding?) => do
    match sharding? with
    | some sharding => p.checkSharding sharding shape
    | none => pure ()
    return ⟨shape, sharding?⟩

/-- The kind of the last statement of a function. -/
def returnKind (p : Program) (id : FunctionId) : OpKind :=
  if (p.function? id).any (·.isClosure) then .regionReturn else .functionReturn

/-- The return of values with shardings, after which the function cannot change. -/
def returnSharded (id : FunctionId) (values : List Value) (shardings : List (Option Sharding)) :
    Builder Unit := do
  let outputs ← check (checkReturn id values shardings)
  let op ← check fun p => .ok (returnKind p id)
  let _ ← appendStatement id op values [] none []
  change fun p => ((), p.markReturned id outputs)

/-- The return of values without shardings. -/
def returnValues (id : FunctionId) (values : List Value) : Builder Unit :=
  returnSharded id values (values.map fun _ => none)

end Builder

end TensorProgram
