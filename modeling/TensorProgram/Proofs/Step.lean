import Mathlib.Logic.Relation
import TensorProgram.Proofs.Changes

/-!
# Steps

`Program.Step` lists everything that can happen to a program, each with what was checked
before: a new function, a new closure, a new distribution, a new input, a statement for an
operation, and a return.  Every call comes down to such steps, so an invariant of programs
is proved for each kind of step and then holds of every program that calls can lead to.
-/

namespace TensorProgram

namespace Program

/-! ## What can happen to a program -/

/-- The names that a new input of a function can be given. -/
inductive InputName (p : Program) (id : FunctionId) : ValueName → Prop
  | positional : InputName p id (.argument (p.scope id).freeArgument)
  | named {text name : String} (hname : Builder.newInputName p id text = .ok name) :
    InputName p id (.named name)

/-- The program after an operation has taken the channel it needs. -/
def withChannel (p : Program) (collective : Bool) : Program :=
  { p with channelCount := p.channelCount + if collective then 1 else 0 }

/-- The attribute with the channel that a collective takes. -/
def channelAttributes (p : Program) (collective : Bool) : List (String × Attribute) :=
  if collective then
    [("channel_handle", .verbatim (ChannelHandle.betweenDevices (p.channelCount + 1)).render)]
  else []

/-- The program after the statement of an operation. -/
def withOperation (p : Program) (id : FunctionId) (o : Operation Value FunctionId)
    (shaped : Operation Shape Inference.Signature) (outputs : List Shape) : Program :=
  ((p.withChannel o.isCollective).addStatement id o.kind o.operands
    ((shaped.explicit outputs).attributes ++ p.channelAttributes o.isCollective) o.closureUse?
    outputs).2

/-- The program after a return. -/
def withReturn (p : Program) (id : FunctionId) (values : List Value) (outputs : List Output) :
    Program :=
  (p.addStatement id (Builder.returnKind p id) values [] none []).2.markReturned id outputs

/-- One step in the life of a program, with what has been checked for it. -/
inductive Step (p : Program) : Program → Prop
  | function {text name : String} (hname : Builder.newFunctionName p text = .ok name) :
    Step p (p.addFunction (.topLevel name)).2
  | closure {id : FunctionId} {f : Function} (hf : p.function? id = some f)
      (hopen : f.returned? = none) :
    Step p (p.addFunction (.closure id (p.root id))).2
  | counts {replicas partitions : Nat} (hmeshes : ∀ ms, p.distribution? ≠ some (.meshes ms)) :
    Step p { p with distribution? := some (.replicated replicas partitions) }
  | mesh {mesh : Mesh} (hmesh : Builder.checkNewMesh mesh p = .ok ()) :
    Step p { p with distribution? := some (.meshes (p.meshes ++ [mesh])) }
  | input {id : FunctionId} {f : Function} {data : ValueData} (hf : p.function? id = some f)
      (hopen : f.returned? = none) (hname : InputName p id data.name)
      (hsharding : ∀ s, data.sharding? = some s → p.checkSharding s data.shape = .ok ()) :
    Step p (p.withInput id data)
  | operation {id : FunctionId} {f : Function} {o : Operation Value FunctionId}
      {shaped : Operation Shape Inference.Signature} {outputs : List Shape}
      (hf : p.function? id = some f) (hopen : f.returned? = none)
      (hresolve : p.resolve id o = .ok (shaped, outputs)) :
    Step p (p.withOperation id o shaped outputs)
  | return {id : FunctionId} {f : Function} {values : List Value}
      {shardings : List (Option Sharding)} {outputs : List Output}
      (hf : p.function? id = some f) (hopen : f.returned? = none)
      (hreturn : Builder.checkReturn id values shardings p = .ok outputs) :
    Step p (p.withReturn id values outputs)

/-- Any number of steps. -/
abbrev Steps : Program → Program → Prop :=
  Relation.ReflTransGen Step

theorem function?_withOperation {p : Program} {id : FunctionId} {f : Function}
    (hf : p.function? id = some f) (o : Operation Value FunctionId)
    (shaped : Operation Shape Inference.Signature) (outputs : List Shape) (j : FunctionId) :
    (p.withOperation id o shaped outputs).function? j = (p.function? j).map fun g =>
      { g with
        values :=
          if id = j then g.values ++ numberedData (p.scope id).valueCount outputs else g.values
        statements :=
          if id = j then
            g.statements ++ [newStatement id f.values o.kind o.operands
              ((shaped.explicit outputs).attributes ++ p.channelAttributes o.isCollective)
              o.closureUse? outputs]
          else g.statements
        consumed := g.consumed || o.closureUse?.any (·.function == j)
        scope := if p.root id = j then g.scope.takeNumbers outputs.length else g.scope } :=
  function?_addStatement (p := p.withChannel o.isCollective) hf _ _ _ _ _ j

end Program

end TensorProgram
