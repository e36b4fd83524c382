import TensorProgram.Inference.Collective
import TensorProgram.Inference.Contraction
import TensorProgram.Inference.Convolution
import TensorProgram.Inference.DynamicSlice
import TensorProgram.Inference.Elementwise
import TensorProgram.Inference.Fourier
import TensorProgram.Inference.Gather
import TensorProgram.Inference.Generation
import TensorProgram.Inference.Layout
import TensorProgram.Inference.Reduction
import TensorProgram.Operation.Basic

/-!
# Outputs of an operation

`Operation.infer` gives the shapes of the results of an operation on shapes, or its
rejection.
-/

namespace TensorProgram.Operation

open Inference

def one (result : Check Shape) : Check (List Shape) :=
  result.map ([·])

/-- The shapes of the results, by the rule of each operation. -/
def outputs : Operation Shape Signature → Check (List Shape)
  | unary op operand => one (Inference.unary op operand)
  | binary op lhs rhs => one (Inference.binary op lhs rhs)
  | compare lhs rhs direction type? => one (Inference.compare lhs rhs direction type?)
  | select predicate onTrue onFalse => one (Inference.select predicate onTrue onFalse)
  | clamp min operand max => one (Inference.clamp min operand max)
  | convert operand target => one (Inference.convert operand target)
  | bitcastConvert operand target => one (Inference.bitcastConvert operand target)
  | reducePrecision operand exponentBits mantissaBits =>
    one (Inference.reducePrecision operand exponentBits mantissaBits)
  | broadcastInDim operand dimensions axes => one (Inference.broadcastInDim operand dimensions axes)
  | reshape operand dimensions => one (Inference.reshape operand dimensions)
  | transpose operand permutation => one (Inference.transpose operand permutation)
  | slice operand starts limits strides => one (Inference.slice operand starts limits strides)
  | concatenate inputs axis => one (Inference.concatenate inputs axis)
  | pad operand paddingValue low high interior =>
    one (Inference.pad operand paddingValue low high interior)
  | gather operand indices d sliceSizes => one (Inference.gather operand indices d sliceSizes)
  | scatter inputs indices updates d computation =>
    Inference.scatter inputs indices updates d computation
  | dynamicSlice operand starts sliceSizes => one (Inference.dynamicSlice operand starts sliceSizes)
  | dynamicUpdateSlice operand update starts =>
    one (Inference.dynamicUpdateSlice operand update starts)
  | reduce inputs initials axes body => Inference.reduce inputs initials axes body
  | reduceWindow inputs initials window body => Inference.reduceWindow inputs initials window body
  | fft operand type lengths => one (Inference.fft operand type lengths)
  | dotGeneral lhs rhs d => one (Inference.dotGeneral lhs rhs d)
  | convolution lhs rhs c => one (Inference.convolution lhs rhs c)
  | allGather operands axis groups => Inference.allGather operands axis groups
  | allToAll operands splitAxis concatAxis count groups =>
    Inference.allToAll operands splitAxis concatAxis count groups
  | allReduce operands groups computation => Inference.allReduce operands groups computation
  | collectivePermute operand pairs => one (Inference.collectivePermute operand pairs)
  | collectiveBroadcast operand groups => one (Inference.collectiveBroadcast operand groups)
  | constant literal => .ok [literal.shape]
  | iota shape axis => one (Inference.iota shape axis)
  | rngBitGenerator initialState shape _ => Inference.rngBitGenerator initialState shape
  | customCall _ inputs outputs _ _ => Inference.customCall inputs outputs

def infer (o : Operation Shape Signature) : Except ShapeError (List Shape) :=
  o.outputs.mapError fun cause => ⟨o.kind, cause⟩

end TensorProgram.Operation
