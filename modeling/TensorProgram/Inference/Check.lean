import TensorProgram.ShapeError

/-!
# Checks

A check either gives a value or says why an operation is rejected.  This module
holds the checks that the rules of the operations are made of: validity and
element types, lengths, lists read at a position, axes counted from either end,
and the signature of the computation that combines elements.

`normalizeAxis` turns an axis that may count from the end into a position, and
`normalizeAxes` does so for a list without repetitions.
-/

namespace TensorProgram.Inference

open ShapeError (Cause)

abbrev Check := Except Cause

def require (condition : Bool) (otherwise : Cause) : Check Unit :=
  if condition then .ok () else .error otherwise

/-- The entry at a position. -/
def entry (xs : List α) (position : Nat) : Check α :=
  match xs[position]? with
  | some x => .ok x
  | none => .error (.fault (.outOfBounds xs.length position))

/-- The list with one entry replaced. -/
def replaceEntry (xs : List α) (position : Nat) (x : α) : Check (List α) :=
  if position < xs.length then .ok (xs.set position x)
  else .error (.fault (.outOfBounds xs.length position))

/-! ## Element types -/

/-- The element type of a valid shape. -/
def elementType (s : Shape) : Check ElementType :=
  match s.elementType? with
  | some t => .ok t
  | none => .error .invalidShape

def requireClass (t : ElementType) (c : ElementClass) : Check Unit :=
  require (c.contains t) (.unsupportedElementType t c)

/-- Every restriction that comes with the capabilities of the operation. -/
def requireCapabilities (op : OpKind) (t : ElementType) : Check Unit :=
  (op.capabilities.filterMap Capability.elementClass?).forM (requireClass t)

/-- The element type of a valid scalar. -/
def scalarElementType (s : Shape) : Check ElementType := do
  let t ← elementType s
  require (s.rank == 0) (.notScalar s)
  return t

/-- The element type that two valid shapes have in common. -/
def commonElementType (lhs rhs : Shape) : Check ElementType := do
  let l ← elementType lhs
  let r ← elementType rhs
  require (l == r) (.elementTypeMismatch lhs rhs)
  return l

/-! ## Lengths and axes -/

def requireLength (parameter : String) (expected actual : Nat) : Check Unit :=
  require (expected == actual) (.lengthMismatch parameter expected actual)

/-- The axis counted from the front. -/
def fromFront (axis : Int) (rank : Nat) : Int :=
  if axis < 0 then axis + rank else axis

def normalizeAxis (axis : Int) (rank : Nat) : Check Nat :=
  if 0 ≤ fromFront axis rank ∧ fromFront axis rank < rank then .ok (fromFront axis rank).toNat
  else .error (.axisOutOfRange axis rank)

/-- One more axis, which must not repeat an earlier one. -/
def addAxis (parameter : String) (rank : Nat) (axes : List Nat) (axis : Int) : Check (List Nat) := do
  let axis ← normalizeAxis axis rank
  require (!axes.contains axis) (.duplicateAxis parameter axis)
  return axes ++ [axis]

def normalizeAxes (parameter : String) (axes : List Int) (rank : Nat) : Check (List Nat) :=
  axes.foldlM (addAxis parameter rank) []

/-- The extents of the axes that are not listed. -/
def extentsExcept (dimensions : List Nat) (axes : List Nat) : List Nat :=
  (dimensions.zipIdx.filter fun (_, axis) => !axes.contains axis).map Prod.fst

/-! ## Computations on elements -/

/-- The shapes that a closure takes and returns. -/
structure Signature where
  inputs : List Shape
  outputs : List Shape
  deriving DecidableEq, Repr

/-- A scalar whose element type suits the expected one. -/
def requireScalarLike (suits : ElementType → ElementType → Bool) (expected : ElementType)
    (position : Nat) (s : Shape) : Check Unit := do
  let actual ← elementType s
  require (s.isScalar && suits expected actual)
    (.invalidClosure (.notScalar expected position s))

/-- The signature combines `n` pairs of scalars into `n` scalars, where `n` is the
number of element types.  The scalars at positions `i` and `n + i` of the inputs
and at position `i` of the outputs have to suit the element type number `i`. -/
def requireCombinator (suits : ElementType → ElementType → Bool) (signature : Signature)
    (types : List ElementType) : Check Unit := do
  let count := types.length
  require (signature.inputs.length == 2 * count && signature.outputs.length == count)
    (.invalidClosure
      (.counts (2 * count) count signature.inputs.length signature.outputs.length))
  types.zipIdx.forM fun (expected, position) => do
    requireScalarLike suits expected position (← entry signature.inputs position)
    requireScalarLike suits expected position (← entry signature.inputs (count + position))
    requireScalarLike suits expected position (← entry signature.outputs position)

end TensorProgram.Inference
