import TensorProgram.Inference.Outputs
import TensorProgram.Operation.Attributes
import TensorProgram.Program.Structure

/-!
# Appending operations

`Builder.append` adds one statement for an operation on values.  `Program.resolve` looks
the operands and the closure up and infers the outputs.  A collective then takes the next
channel of the program, and at last the statement is added.
-/

namespace TensorProgram

/-- The use of the computation of an operation. -/
def Operation.closureUse? (o : Operation ω FunctionId) : Option ClosureUse :=
  o.computation?.map fun (label, function) => ⟨label, function⟩

namespace Program

/-- The operation on shapes, and the shapes of its results.  An operation that takes no
operands is looked at before the state of the function is. -/
def resolve (p : Program) (id : FunctionId) (o : Operation Value FunctionId) :
    Except BuildError (Operation Shape Inference.Signature × List Shape) := do
  let _ ← if o.takesOperands then p.openFunction id else p.getFunction id
  let shaped ← o.traverse (p.shapeOf id) (p.closureSignature id)
  let outputs ← shaped.infer.mapError .shape
  return (shaped, outputs)

end Program

namespace Builder

/-- The next channel of the program. -/
def takeChannel : Builder Nat :=
  change fun p => (p.channelCount + 1, { p with channelCount := p.channelCount + 1 })

/-- The attribute that gives a collective a channel of its own. -/
def channelAttribute (collective : Bool) : Builder (List (String × Attribute)) := do
  if collective then
    let channel ← takeChannel
    return [("channel_handle", .verbatim (ChannelHandle.betweenDevices channel).render)]
  else return []

/-- One more statement for an operation, with its outputs as new values. -/
def append (id : FunctionId) (o : Operation Value FunctionId) : Builder (List Value) := do
  let (shaped, outputs) ← check (·.resolve id o)
  let channel ← channelAttribute o.isCollective
  appendStatement id o.kind o.operands ((shaped.explicit outputs).attributes ++ channel)
    o.closureUse? outputs

end Builder

end TensorProgram
