import TensorProgram.Program.Append

/-!
# Positions of extreme elements

No operation finds the position of the least or of the greatest element along an axis.
`Builder.argExtremum` spells it out: it counts the positions along the axis and reduces
the elements together with their positions.  The reduction starts from a pair of the
worst element of the type and position zero, and its closure prefers the better element
and, between equal elements, the smaller position.
-/

namespace TensorProgram

/-- Which end of the order is looked for. -/
inductive Extremum
  | least
  | greatest
  deriving DecidableEq, Repr

namespace Extremum

/-- The comparison that a better element passes against a worse one. -/
def better : Extremum → ComparisonDirection
  | least => .lessThan
  | greatest => .greaterThan

/-- The infinity that every element is at least as good as, as bits. -/
def worstReal (e : Extremum) (f : RealFormat) : Nat :=
  match e with
  | least => f.infinity
  | greatest => (1 <<< (f.bits - 1)) + f.infinity

def worstSigned (e : Extremum) (w : IntegerWidth) : Int :=
  match e with
  | least => (1 <<< (w.bits - 1) : Nat) - 1
  | greatest => -(1 <<< (w.bits - 1) : Nat)

def worstUnsigned (e : Extremum) (w : IntegerWidth) : Nat :=
  match e with
  | least => (1 <<< w.bits) - 1
  | greatest => 0

/-- The worst element of a type, if a literal can hold it. -/
def worst? (e : Extremum) (t : ElementType) : Option Elements :=
  match t with
  | .signed w => some (.signed [e.worstSigned w])
  | .unsigned w => some (.unsigned [e.worstUnsigned w])
  | .real .f16 => some (.float16 [.ofNat 16 (e.worstReal .f16)])
  | .real .bf16 => some (.bfloat16 [.ofNat 16 (e.worstReal .bf16)])
  | .real .f32 => some (.float32 [.ofNat 32 (e.worstReal .f32)])
  | .real .f64 => some (.float64 [.ofNat 64 (e.worstReal .f64)])
  | _ => none

end Extremum

/-- Position zero, as an element of an integer type. -/
def zeroPosition (t : ElementType) : Elements :=
  match t with
  | .unsigned _ => .unsigned [0]
  | _ => .signed [0]

/-- What the steps of a search need to know about the operand. -/
structure ExtremumSearch where
  shape : Shape
  elementType : ElementType
  worst : Literal
  zero : Literal
  deriving DecidableEq, Repr

namespace Builder

open ShapeError (Cause)

def searchError (cause : Cause) : BuildError :=
  .shape ⟨.argMinMax, cause⟩

/-- Everything that can be wrong with a search. -/
def checkSearch (id : FunctionId) (e : Extremum) (operand : Value) (axis : Int)
    (positionType : ElementType) (p : Program) : Except BuildError ExtremumSearch := do
  let _ ← p.openFunction id
  let shape ← p.shapeOf id operand
  let _ ← (Inference.argMinMax shape axis positionType).mapError searchError
  let t ← (Inference.elementType shape).mapError searchError
  match e.worst? t with
  | none => throw (searchError (.unsupportedElementType t .integerOrLiteralReal))
  | some worst =>
    let zero ← (Literal.ofElements (.scalar positionType) (zeroPosition positionType)).mapError .shape
    return ⟨shape, t, ⟨.scalar t, worst⟩, zero⟩

/-- The output of a statement at a position. -/
def output (outputs : List Value) (position : Nat) : Builder Value :=
  check fun _ => (Inference.entry outputs position).mapError searchError

/-- One more statement with one output. -/
def appendSingle (id : FunctionId) (o : Operation Value FunctionId) : Builder Value := do
  output (← append id o) 0

/-- The body of a closure that picks the better of two elements with their positions. -/
def fillBetterPair (body : FunctionId) (e : Extremum) (elementType positionType : ElementType) :
    Builder Unit := do
  let lhs ← input body (.scalar elementType)
  let lhsPosition ← input body (.scalar positionType)
  let rhs ← input body (.scalar elementType)
  let rhsPosition ← input body (.scalar positionType)
  let better ← appendSingle body (.compare lhs rhs e.better none)
  let tie ← appendSingle body (.compare lhs rhs .equal none)
  let element ← appendSingle body (.select better lhs rhs)
  let position ← appendSingle body (.select better lhsPosition rhsPosition)
  let smaller ← appendSingle body (.binary (.binary .minimum) lhsPosition rhsPosition)
  let position ← appendSingle body (.select tie smaller position)
  returnValues body [element, position]

/-- The positions of the extreme elements along an axis. -/
def argExtremum (id : FunctionId) (e : Extremum) (operand : Value) (axis : Int)
    (positionType : ElementType) : Builder Value := do
  let search ← check (checkSearch id e operand axis positionType)
  let axis := Inference.fromFront axis search.shape.rank
  let positions ← appendSingle id (.iota (search.shape.withElementType positionType) axis)
  let worst ← appendSingle id (.constant search.worst)
  let zero ← appendSingle id (.constant search.zero)
  let body ← closure id
  fillBetterPair body e search.elementType positionType
  output (← append id (.reduce [operand, positions] [worst, zero] [axis] body)) 1

end Builder

end TensorProgram
