import TensorProgram.Binary
import TensorProgram.Inference.Arithmetic

/-!
# Tensor literals

Constant tensors: a shape and the elements in row-major order.  `Literal.ofElements`
accepts elements that are stored as the element type asks for and are as many as
the shape holds.  It does not look at their values: integers of all widths are stored
alike.  `Literal.ofNative` and `Literal.scalar` make literals of the numbers of a
`NativeType`, which names the element type and whose numbers are in its range.

`Literal.text` writes the elements as lists nested to the depth of the rank.  An axis
is passed with a stride, and every element is read at its offset.
-/

namespace TensorProgram

open Inference (Check entry)

/-- The elements of a literal, by the way they are stored.  Real numbers are kept as
their bits. -/
inductive Elements
  | boolean (values : List Bool)
  | signed (values : List Int)
  | unsigned (values : List Nat)
  | float16 (values : List (BitVec 16))
  | bfloat16 (values : List (BitVec 16))
  | float32 (values : List (BitVec 32))
  | float64 (values : List (BitVec 64))
  | complex64 (values : List (BitVec 32 × BitVec 32))
  | complex128 (values : List (BitVec 64 × BitVec 64))
  deriving DecidableEq, Repr

namespace Elements

def length : Elements → Nat
  | boolean values => values.length
  | signed values => values.length
  | unsigned values => values.length
  | float16 values => values.length
  | bfloat16 values => values.length
  | float32 values => values.length
  | float64 values => values.length
  | complex64 values => values.length
  | complex128 values => values.length

/-- Whether elements of a type are stored in this way. -/
def store (e : Elements) (t : ElementType) : Bool :=
  match e with
  | boolean _ => t.isBoolean
  | signed _ => t.isSigned
  | unsigned _ => t.isUnsigned
  | float16 _ => t == .real .f16
  | bfloat16 _ => t == .real .bf16
  | float32 _ => t == .real .f32
  | float64 _ => t == .real .f64
  | complex64 _ => t == .complex .single
  | complex128 _ => t == .complex .double

section Text

variable [NarrowConversions]

def complexText (f : RealFormat) (realBits imaginaryBits : Nat) : String :=
  "(" ++ f.text realBits ++ ", " ++ f.text imaginaryBits ++ ")"

/-- The text of the element at an offset. -/
def textAt (e : Elements) (offset : Nat) : Check String := do
  match e with
  | boolean values => return toString (← entry values offset)
  | signed values => return toString (← entry values offset)
  | unsigned values => return toString (← entry values offset)
  | float16 values => return RealFormat.f16.text (← entry values offset).toNat
  | bfloat16 values => return RealFormat.bf16.text (← entry values offset).toNat
  | float32 values => return RealFormat.f32.text (← entry values offset).toNat
  | float64 values => return RealFormat.f64.text (← entry values offset).toNat
  | complex64 values =>
    let (x, y) ← entry values offset
    return complexText .f32 x.toNat y.toNat
  | complex128 values =>
    let (x, y) ← entry values offset
    return complexText .f64 x.toNat y.toNat

/-- The elements of the remaining axes from an offset on, in brackets. -/
def lists (e : Elements) : (dimensions : List Nat) → (offset : Nat) → Check String
  | [], offset => e.textAt offset
  | extent :: dimensions, offset => do
    let stride ← Inference.Size.product dimensions
    let texts ← (List.range extent).mapM fun index => do
      e.lists dimensions (← Inference.Size.add offset (← Inference.Size.mul index stride))
    return "[" ++ ", ".intercalate texts ++ "]"

end Text

end Elements

/-! ## Native numbers -/

/-- The integers in the range of the type. -/
def ElementType.Holds (x : Int) : ElementType → Prop
  | signed w => -(Nat.pow 2 (w.bits - 1) : Int) ≤ x ∧ x < (Nat.pow 2 (w.bits - 1) : Int)
  | unsigned w => 0 ≤ x ∧ x < (Nat.pow 2 w.bits : Int)
  | _ => True

namespace Elements

def integers : Elements → List Int
  | signed values => values
  | unsigned values => values.map fun (x : Nat) => (x : Int)
  | _ => []

/-- All integers are in the range of the type. -/
def Fit (e : Elements) (t : ElementType) : Prop :=
  ∀ x ∈ e.integers, t.Holds x

end Elements

/-- A type of numbers that has an element type of its own. -/
structure NativeType (α : Type) where
  elementType : ElementType
  elements : List α → Elements
  stored : ∀ xs, (elements xs).store elementType = true := by intro; rfl
  length_elements : ∀ xs, (elements xs).length = xs.length := by simp [Elements.length]
  fit : ∀ xs, (elements xs).Fit elementType := by simp [Elements.Fit, Elements.integers]

namespace NativeType

/-- Numbers that are stored as integers. -/
def ofSigned (w : IntegerWidth) (toInt : α → Int)
    (hrange : ∀ x, (ElementType.signed w).Holds (toInt x)) : NativeType α where
  elementType := .signed w
  elements xs := .signed (xs.map toInt)
  fit xs := List.forall_mem_map.mpr fun x _ => hrange x

/-- Numbers that are stored as integers without a sign. -/
def ofUnsigned (w : IntegerWidth) (toNat : α → Nat)
    (hrange : ∀ x, toNat x < Nat.pow 2 w.bits) : NativeType α where
  elementType := .unsigned w
  elements xs := .unsigned (xs.map toNat)
  fit xs := List.forall_mem_map.mpr (List.forall_mem_map.mpr fun x _ =>
    ⟨Int.natCast_nonneg (toNat x), Int.ofNat_lt.mpr (hrange x)⟩)

def boolean : NativeType Bool where
  elementType := .boolean
  elements := .boolean

def int8 : NativeType Int8 :=
  ofSigned .w8 Int8.toInt fun x => ⟨x.le_toInt, x.toInt_lt⟩

def int16 : NativeType Int16 :=
  ofSigned .w16 Int16.toInt fun x => ⟨x.le_toInt, x.toInt_lt⟩

def int32 : NativeType Int32 :=
  ofSigned .w32 Int32.toInt fun x => ⟨x.le_toInt, x.toInt_lt⟩

def int64 : NativeType Int64 :=
  ofSigned .w64 Int64.toInt fun x => ⟨x.le_toInt, x.toInt_lt⟩

def uint8 : NativeType UInt8 :=
  ofUnsigned .w8 UInt8.toNat UInt8.toNat_lt

def uint16 : NativeType UInt16 :=
  ofUnsigned .w16 UInt16.toNat UInt16.toNat_lt

def uint32 : NativeType UInt32 :=
  ofUnsigned .w32 UInt32.toNat UInt32.toNat_lt

def uint64 : NativeType UInt64 :=
  ofUnsigned .w64 UInt64.toNat UInt64.toNat_lt

def float16 : NativeType (BitVec 16) where
  elementType := .real .f16
  elements := .float16

def bfloat16 : NativeType (BitVec 16) where
  elementType := .real .bf16
  elements := .bfloat16

def float32 : NativeType (BitVec 32) where
  elementType := .real .f32
  elements := .float32

def float64 : NativeType (BitVec 64) where
  elementType := .real .f64
  elements := .float64

def complex64 : NativeType (BitVec 32 × BitVec 32) where
  elementType := .complex .single
  elements := .complex64

def complex128 : NativeType (BitVec 64 × BitVec 64) where
  elementType := .complex .double
  elements := .complex128

end NativeType

/-! ## Literals -/

/-- A constant tensor. -/
structure Literal where
  shape : Shape
  elements : Elements
  deriving DecidableEq, Repr

namespace Literal

open ShapeError (Cause Problem)

def valueProblem (p : Problem) : Cause :=
  .invalidParameter "value" p

def check (shape : Shape) (elements : Elements) : Check Literal := do
  let t ← Inference.elementType shape
  Inference.require (elements.store t) (valueProblem (.storageMismatch t))
  let size ← Inference.Size.product shape.dimensions
  Inference.require (elements.length == size)
    (valueProblem (.literalLength size shape elements.length))
  return ⟨shape, elements⟩

def ofElements (shape : Shape) (elements : Elements) : Except ShapeError Literal :=
  (check shape elements).mapError fun cause => ⟨.constant, cause⟩

def ofNative (n : NativeType α) (dimensions : List Nat) (xs : List α) :
    Except ShapeError Literal :=
  ofElements (.of n.elementType dimensions) (n.elements xs)

/-- A literal without axes, which needs no check. -/
def scalar (n : NativeType α) (x : α) : Literal :=
  ⟨.scalar n.elementType, n.elements [x]⟩

section Text

variable [NarrowConversions]

/-- The elements in nested lists.  A literal without elements has an empty body. -/
def body (l : Literal) : Check String := do
  if (← Inference.Size.product l.shape.dimensions) = 0 then return ""
  else l.elements.lists l.shape.dimensions 0

/-- The elements and the type. -/
def text (l : Literal) : Check String := do
  return "dense<" ++ (← l.body) ++ "> : " ++ l.shape.wireType

/-- The text of a literal.  No literal that can be made is without one. -/
def render (l : Literal) : String :=
  match l.text with
  | .ok text => text
  | .error cause => cause.message

end Text

end Literal

end TensorProgram
