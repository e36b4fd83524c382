import TensorProgram.Attribute
import TensorProgram.Inference.Check
import TensorProgram.Operation.Mode
import TensorProgram.Window

/-!
# Operations

An operation with its operands and parameters.  `Operation ω κ` has operands of type
`ω` and computations on elements of type `κ`: a program applies operations to values
and closures, and shape inference looks at the same operations with a shape for each
value and a signature for each closure.  `Operation.traverse` goes from one to the
other, and visits the operands in the order of `Operation.operands`.
-/

namespace TensorProgram

inductive Operation (ω κ : Type)
  | unary (op : OpKind) (operand : ω)
  | binary (op : OpKind) (lhs rhs : ω)
  | compare (lhs rhs : ω) (direction : ComparisonDirection) (type? : Option ComparisonType)
  | select (predicate onTrue onFalse : ω)
  | clamp (min operand max : ω)
  | convert (operand : ω) (target : ElementType)
  | bitcastConvert (operand : ω) (target : ElementType)
  | reducePrecision (operand : ω) (exponentBits mantissaBits : Nat)
  | broadcastInDim (operand : ω) (dimensions : List Nat) (axes : List Int)
  | reshape (operand : ω) (dimensions : List Nat)
  | transpose (operand : ω) (permutation : List Int)
  | slice (operand : ω) (starts limits strides : List Int)
  | concatenate (inputs : List ω) (axis : Int)
  | pad (operand paddingValue : ω) (low high interior : List Int)
  | gather (operand indices : ω) (d : GatherDimensions) (sliceSizes : List Nat)
  | scatter (inputs : List ω) (indices : ω) (updates : List ω) (d : ScatterDimensions)
      (computation : κ)
  | dynamicSlice (operand : ω) (starts : List ω) (sliceSizes : List Nat)
  | dynamicUpdateSlice (operand update : ω) (starts : List ω)
  | reduce (inputs initials : List ω) (axes : List Int) (body : κ)
  | reduceWindow (inputs initials : List ω) (window : Window) (body : κ)
  | fft (operand : ω) (type : FftType) (lengths : List Nat)
  | dotGeneral (lhs rhs : ω) (d : DotDimensions)
  | convolution (lhs rhs : ω) (c : ConvolutionConfiguration)
  | allGather (operands : List ω) (axis : Int) (groups : List (List Int))
  | allToAll (operands : List ω) (splitAxis concatAxis : Int) (count : Nat)
      (groups : List (List Int))
  | allReduce (operands : List ω) (groups : List (List Int)) (computation : κ)
  | collectivePermute (operand : ω) (pairs : List (Int × Int))
  | collectiveBroadcast (operand : ω) (groups : List (List Int))
  | constant (literal : Literal)
  | iota (shape : Shape) (axis : Int)
  | rngBitGenerator (initialState : ω) (shape : Shape) (algorithm : RngAlgorithm)
  | customCall (target : String) (inputs : List ω) (outputs : List Shape) (hasSideEffect : Bool)
      (attributes : List (String × Attribute))
  deriving DecidableEq, Repr

namespace Operation

def kind : Operation ω κ → OpKind
  | unary op _ => op
  | binary op _ _ => op
  | compare .. => .compare
  | select .. => .select
  | clamp .. => .clamp
  | convert .. => .convert
  | bitcastConvert .. => .bitcastConvert
  | reducePrecision .. => .reducePrecision
  | broadcastInDim .. => .broadcastInDim
  | reshape .. => .reshape
  | transpose .. => .transpose
  | slice .. => .slice
  | concatenate .. => .concatenate
  | pad .. => .pad
  | gather .. => .gather
  | scatter .. => .scatter
  | dynamicSlice .. => .dynamicSlice
  | dynamicUpdateSlice .. => .dynamicUpdateSlice
  | reduce .. => .reduce
  | reduceWindow .. => .reduceWindow
  | fft .. => .fft
  | dotGeneral .. => .dotGeneral
  | convolution .. => .convolution
  | allGather .. => .allGather
  | allToAll .. => .allToAll
  | allReduce .. => .allReduce
  | collectivePermute .. => .collectivePermute
  | collectiveBroadcast .. => .collectiveBroadcast
  | constant .. => .constant
  | iota .. => .iota
  | rngBitGenerator .. => .rngBitGenerator
  | customCall .. => .customCall

/-- The operands in the order in which a statement lists them. -/
def operands : Operation ω κ → List ω
  | unary _ operand => [operand]
  | binary _ lhs rhs => [lhs, rhs]
  | compare lhs rhs _ _ => [lhs, rhs]
  | select predicate onTrue onFalse => [predicate, onTrue, onFalse]
  | clamp min operand max => [min, operand, max]
  | convert operand _ => [operand]
  | bitcastConvert operand _ => [operand]
  | reducePrecision operand _ _ => [operand]
  | broadcastInDim operand _ _ => [operand]
  | reshape operand _ => [operand]
  | transpose operand _ => [operand]
  | slice operand _ _ _ => [operand]
  | concatenate inputs _ => inputs
  | pad operand paddingValue _ _ _ => [operand, paddingValue]
  | gather operand indices _ _ => [operand, indices]
  | scatter inputs indices updates _ _ => inputs ++ indices :: updates
  | dynamicSlice operand starts _ => operand :: starts
  | dynamicUpdateSlice operand update starts => operand :: update :: starts
  | reduce inputs initials _ _ => inputs ++ initials
  | reduceWindow inputs initials _ _ => inputs ++ initials
  | fft operand _ _ => [operand]
  | dotGeneral lhs rhs _ => [lhs, rhs]
  | convolution lhs rhs _ => [lhs, rhs]
  | allGather operands _ _ => operands
  | allToAll operands _ _ _ _ => operands
  | allReduce operands _ _ => operands
  | collectivePermute operand _ => [operand]
  | collectiveBroadcast operand _ => [operand]
  | constant _ => []
  | iota _ _ => []
  | rngBitGenerator initialState _ _ => [initialState]
  | customCall _ inputs _ _ _ => inputs

/-- The computation on elements, with the label of its block in program text. -/
def computation? : Operation ω κ → Option (String × κ)
  | scatter _ _ _ _ computation => some ("update_computation", computation)
  | reduce _ _ _ body => some ("body", body)
  | reduceWindow _ _ _ body => some ("body", body)
  | allReduce _ _ computation => some ("computation", computation)
  | _ => none

/-- Whether the operation takes operands at all, possibly an empty list of them. -/
def takesOperands : Operation ω κ → Bool
  | constant _ => false
  | iota _ _ => false
  | _ => true

def isCollective (o : Operation ω κ) : Bool :=
  o.kind.hasCapability .collective

/-- The operation with every operand and the computation replaced.  Operands come
first, in order; the first failure is the result. -/
def traverse (f : ω → Except ε ω') (g : κ → Except ε κ') :
    Operation ω κ → Except ε (Operation ω' κ')
  | unary op operand => return .unary op (← f operand)
  | binary op lhs rhs => return .binary op (← f lhs) (← f rhs)
  | compare lhs rhs direction type? => return .compare (← f lhs) (← f rhs) direction type?
  | select predicate onTrue onFalse => return .select (← f predicate) (← f onTrue) (← f onFalse)
  | clamp min operand max => return .clamp (← f min) (← f operand) (← f max)
  | convert operand target => return .convert (← f operand) target
  | bitcastConvert operand target => return .bitcastConvert (← f operand) target
  | reducePrecision operand exponentBits mantissaBits =>
    return .reducePrecision (← f operand) exponentBits mantissaBits
  | broadcastInDim operand dimensions axes => return .broadcastInDim (← f operand) dimensions axes
  | reshape operand dimensions => return .reshape (← f operand) dimensions
  | transpose operand permutation => return .transpose (← f operand) permutation
  | slice operand starts limits strides => return .slice (← f operand) starts limits strides
  | concatenate inputs axis => return .concatenate (← inputs.mapM f) axis
  | pad operand paddingValue low high interior =>
    return .pad (← f operand) (← f paddingValue) low high interior
  | gather operand indices d sliceSizes => return .gather (← f operand) (← f indices) d sliceSizes
  | scatter inputs indices updates d computation =>
    return .scatter (← inputs.mapM f) (← f indices) (← updates.mapM f) d (← g computation)
  | dynamicSlice operand starts sliceSizes =>
    return .dynamicSlice (← f operand) (← starts.mapM f) sliceSizes
  | dynamicUpdateSlice operand update starts =>
    return .dynamicUpdateSlice (← f operand) (← f update) (← starts.mapM f)
  | reduce inputs initials axes body =>
    return .reduce (← inputs.mapM f) (← initials.mapM f) axes (← g body)
  | reduceWindow inputs initials window body =>
    return .reduceWindow (← inputs.mapM f) (← initials.mapM f) window (← g body)
  | fft operand type lengths => return .fft (← f operand) type lengths
  | dotGeneral lhs rhs d => return .dotGeneral (← f lhs) (← f rhs) d
  | convolution lhs rhs c => return .convolution (← f lhs) (← f rhs) c
  | allGather operands axis groups => return .allGather (← operands.mapM f) axis groups
  | allToAll operands splitAxis concatAxis count groups =>
    return .allToAll (← operands.mapM f) splitAxis concatAxis count groups
  | allReduce operands groups computation =>
    return .allReduce (← operands.mapM f) groups (← g computation)
  | collectivePermute operand pairs => return .collectivePermute (← f operand) pairs
  | collectiveBroadcast operand groups => return .collectiveBroadcast (← f operand) groups
  | constant literal => return .constant literal
  | iota shape axis => return .iota shape axis
  | rngBitGenerator initialState shape algorithm =>
    return .rngBitGenerator (← f initialState) shape algorithm
  | customCall target inputs outputs hasSideEffect attributes =>
    return .customCall target (← inputs.mapM f) outputs hasSideEffect attributes

/-- The shapes that the operation brings along as parameters. -/
def requestedShapes : Operation ω κ → List Shape
  | constant literal => [literal.shape]
  | iota shape _ => [shape]
  | rngBitGenerator _ shape _ => [shape]
  | customCall _ _ outputs _ _ => outputs
  | _ => []

/-- Every shape that inference looks at: of operands, of parameters, and of the inputs
and outputs of the computation. -/
def shapes (o : Operation Shape Inference.Signature) : List Shape :=
  o.operands ++ o.requestedShapes ++
    o.computation?.elim [] fun (_, signature) => signature.inputs ++ signature.outputs

end Operation

end TensorProgram
