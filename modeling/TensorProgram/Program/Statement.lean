import TensorProgram.Program.Builder

/-!
# Statements

`Builder.appendStatement` is the last step of everything that adds a statement: the
results are known, and only the parts of the statement are looked at once more before
it is recorded.  Recording takes the closure, gives the results the next numbers of the
scope and puts the statement at the end.
-/

namespace TensorProgram

namespace Program

/-! ## Changes that cannot fail -/

/-- A change of the scope that a function takes names from. -/
def modifyScope (p : Program) (id : FunctionId) (change : Scope → Scope) : Program :=
  p.modify (p.root id) fun f => { f with scope := change f.scope }

def consume (p : Program) (closure? : Option ClosureUse) : Program :=
  match closure? with
  | some use => p.modify use.function fun f => { f with consumed := true }
  | none => p

/-- Data of values with consecutive numbers. -/
def numberedData (first : Nat) (shapes : List Shape) : List ValueData :=
  shapes.zipIdx.map fun (shape, position) => ⟨.numbered (first + position), shape, none⟩

/-- Consecutive values of a function. -/
def consecutiveValues (id : FunctionId) (index count : Nat) : List Value :=
  (List.range count).map fun position => ⟨id, index + position⟩

/-- New values of a function with the next numbers of its scope. -/
def addOutputs (p : Program) (id : FunctionId) (shapes : List Shape) : List Value × Program :=
  let data := numberedData (p.scope id).valueCount shapes
  let index := ((p.function? id).map (·.values.length)).getD 0
  let p := p.modifyScope id (·.takeNumbers shapes.length)
  (consecutiveValues id index shapes.length,
    p.modify id fun f => { f with values := f.values ++ data })

/-- A new last statement of a function, with one new value for each shape. -/
def addStatement (p : Program) (id : FunctionId) (op : OpKind) (inputs : List Value)
    (attributes : List (String × Attribute)) (closure? : Option ClosureUse)
    (shapes : List Shape) : List Value × Program :=
  let (outputs, p) := (p.consume closure?).addOutputs id shapes
  let statement : Statement :=
    { op := op
      inputs := inputs
      attributes := .ofList attributes
      closure? := closure?
      outputs := outputs }
  (outputs, p.modify id fun f => { f with statements := f.statements ++ [statement] })

/-! ## The last check -/

/-- The function is open, the operands are in scope and the closure is ready. -/
def checkStatement (p : Program) (id : FunctionId) (inputs : List Value)
    (closure? : Option ClosureUse) : Except BuildError Unit := do
  let _ ← p.openFunction id
  let _ ← inputs.mapM (p.shapeOf id)
  match closure? with
  | some use => let _ ← p.closureSignature id use.function
  | none => pure ()

end Program

namespace Builder

/-- One more statement, with its outputs as new values. -/
def appendStatement (id : FunctionId) (op : OpKind) (inputs : List Value)
    (attributes : List (String × Attribute)) (closure? : Option ClosureUse)
    (shapes : List Shape) : Builder (List Value) := do
  check (·.checkStatement id inputs closure?)
  change (·.addStatement id op inputs attributes closure? shapes)

end Builder

end TensorProgram
