import TensorProgram.Program.Basic
import TensorProgram.Program.Error

/-!
# Builders

A builder is a step that changes a program and gives a value or an error.  A failed step
keeps the program that it has reached, so that a step which is to leave the program alone
on an error has to check everything before it changes anything.  The rest of this module
holds those checks: that a function is open, that values are in scope, that a closure is
ready to be used, and that a sharding fits a shape.
-/

namespace TensorProgram

def Builder (α : Type) : Type :=
  Program → Except BuildError α × Program

namespace Builder

def run (b : Builder α) (p : Program) : Except BuildError α × Program :=
  b p

instance : Monad Builder where
  pure a := fun p => (.ok a, p)
  bind b next := fun p =>
    match b p with
    | (.ok a, p) => next a p
    | (.error e, p) => (.error e, p)

/-- A question that leaves the program alone. -/
def check (question : Program → Except BuildError α) : Builder α :=
  fun p => (question p, p)

/-- A change that cannot fail. -/
def change (f : Program → α × Program) : Builder α :=
  fun p => ((.ok (f p).1), (f p).2)

end Builder

namespace Program

def require (condition : Bool) (otherwise : ProgramError) : Except BuildError Unit :=
  if condition then .ok () else .error (.program otherwise)

def getFunction (p : Program) (id : FunctionId) : Except BuildError Function :=
  match p.function? id with
  | some f => .ok f
  | none => .error (.program (.unknownFunction id))

/-- A function that has not returned. -/
def openFunction (p : Program) (id : FunctionId) : Except BuildError Function := do
  let f ← p.getFunction id
  require (!f.isReturned) (.alreadyReturned (f.describe id))
  return f

/-- The shape of a value that the function owns. -/
def shapeOf (p : Program) (id : FunctionId) (v : Value) : Except BuildError Shape := do
  let f ← p.getFunction id
  match if v.function = id then f.values[v.index]? else none with
  | some data => return data.shape
  | none => throw (.program (.valueOutOfScope (p.describeValue v) (f.describe id)))

/-- The signature of a closure that a statement of the function may use: a closure made
in that function, which has returned and serves no other statement. -/
def closureSignature (p : Program) (id closure : FunctionId) :
    Except BuildError Inference.Signature := do
  let f ← p.getFunction id
  let c ← p.getFunction closure
  require (c.parent? == some id) (.closureNotChild (c.describe closure) (f.describe id))
  require c.isReturned (.closureNotReturned (c.describe closure))
  require (!c.consumed) (.closureAlreadyUsed (c.describe closure))
  return ⟨c.inputs.filterMap p.shape?, c.outputs.map Output.shape⟩

/-- The sharding is over a mesh of the program and has no more axes than the shape. -/
def checkSharding (p : Program) (s : Sharding) (shape : Shape) : Except BuildError Unit := do
  require (p.mesh? s.mesh.name == some s.mesh) (.unknownMesh s.mesh.name)
  require (s.rank ≤ shape.rank) (.shardingRankMismatch s.rank shape.rank)
  s.validate.mapError .mesh

end Program

end TensorProgram
