import TensorProgram.ElementType

/-!
# Shapes

The type of a tensor: its element type and the extents of its axes, outermost
first.  A shape without an element type stands for "no usable type"; shape
inference rejects it wherever it occurs.

`Shape.wireType` is the spelling in program text and `Shape.describe` the
spelling in messages.
-/

namespace TensorProgram

structure Shape where
  elementType? : Option ElementType
  dimensions : List Nat
  deriving DecidableEq, Repr

namespace Shape

def of (elementType : ElementType) (dimensions : List Nat) : Shape :=
  ⟨some elementType, dimensions⟩

def scalar (elementType : ElementType) : Shape :=
  of elementType []

def invalid : Shape :=
  ⟨none, []⟩

def isValid (s : Shape) : Bool :=
  s.elementType?.isSome

def rank (s : Shape) : Nat :=
  s.dimensions.length

/-- The invalid shape is no scalar. -/
def isScalar (s : Shape) : Bool :=
  s.isValid && s.dimensions.isEmpty

/-- The number of elements, which is one for a scalar. -/
def size (s : Shape) : Nat :=
  s.dimensions.foldl (· * ·) 1

/-- The extent of an axis.  Negative axes count from the end. -/
def dimension? (s : Shape) (axis : Int) : Option Nat :=
  let axis := if axis < 0 then axis + s.rank else axis
  if axis < 0 then none else s.dimensions[axis.toNat]?

def withElementType (s : Shape) (elementType : ElementType) : Shape :=
  ⟨some elementType, s.dimensions⟩

def withDimensions (s : Shape) (dimensions : List Nat) : Shape :=
  ⟨s.elementType?, dimensions⟩

/-- The tensor type in program text, such as `tensor<2x3xf32>`.  The type of an
invalid shape is not readable by the consumer of the text. -/
def wireType (s : Shape) : String :=
  "tensor<" ++ String.join (s.dimensions.map fun extent => toString extent ++ "x") ++
    (s.elementType?.elim "invalid" ElementType.token) ++ ">"

/-- The shape in messages, such as `f32[2, 3]`. -/
def describe (s : Shape) : String :=
  match s.elementType? with
  | none => "invalid"
  | some t => t.name ++ "[" ++ ", ".intercalate (s.dimensions.map toString) ++ "]"

instance : ToString Shape := ⟨describe⟩

end Shape

end TensorProgram
