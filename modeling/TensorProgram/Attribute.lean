import TensorProgram.DimensionNumbers
import TensorProgram.Literal
import TensorProgram.Quoted

/-!
# Attributes

The values of the attributes of a statement and their texts.  Values with a text of
their own, such as dimension numbers, are kept as that text.  A value of a kind
without a text is written as a placeholder.
-/

namespace TensorProgram

inductive Attribute
  | string (text : String)
  | integer (value : Int)
  | float (bits : BitVec 64)
  | boolean (value : Bool)
  | verbatim (text : String)
  | tensor (literal : Literal)
  | unsupported (typeName : String)
  deriving DecidableEq, Repr

namespace Attribute

def render [NarrowConversions] : Attribute → String
  | string text => Quoted.quote text
  | integer value => toString value ++ " : i64"
  | float bits => RealFormat.f64.text bits.toNat ++ " : f64"
  | boolean value => toString value
  | verbatim text => text
  | tensor literal => literal.render
  | unsupported typeName => "<<unsupported attribute: " ++ typeName ++ ">>"

/-- The type name of a value of a kind without a text. -/
def unsupportedType? : Attribute → Option String
  | unsupported typeName => some typeName
  | _ => none

def isUnsupported (a : Attribute) : Bool :=
  a.unsupportedType?.isSome

/-- A list of numbers. -/
def ofList (values : List Int) : Attribute :=
  verbatim (if values.isEmpty then "array<i64>" else "array<i64: " ++ FieldText.joined values ++ ">")

/-- A row of a matrix, filled up with -1. -/
def paddedRow (columns : Nat) (row : List Int) : List Int :=
  row ++ List.replicate (columns - row.length) (-1)

/-- Rows of numbers.  Rows that are shorter than the longest one are filled up. -/
def ofRows (rows : List (List Int)) : Attribute :=
  let columns := (rows.map List.length).foldl max 0
  let type := (Shape.of (.signed .w64) [rows.length, columns]).wireType
  let body :=
    if rows.isEmpty ∨ columns = 0 then ""
    else "[" ++ ", ".intercalate (rows.map fun row =>
      "[" ++ FieldText.joined (paddedRow columns row) ++ "]") ++ "]"
  verbatim ("dense<" ++ body ++ "> : " ++ type)

/-- A number with its type. -/
def ofTypedInteger (value : Int) (type : ElementType) : Attribute :=
  verbatim (toString value ++ " : " ++ type.token)

end Attribute

/-- The communication channel of a collective. -/
structure ChannelHandle where
  handle : Int
  type : Int
  deriving DecidableEq, Repr

namespace ChannelHandle

/-- A channel between devices. -/
def betweenDevices (handle : Int) : ChannelHandle :=
  ⟨handle, 1⟩

def render (c : ChannelHandle) : String :=
  FieldText.record "#stablehlo.channel_handle"
    [FieldText.int "handle" c.handle, FieldText.int "type" c.type]

end ChannelHandle

end TensorProgram
