/-!
# Dimension numbers

Which axis of an operand plays which part in a general dot product, a gather, a
scatter or a convolution.  Axes are integers, since a negative axis counts from
the end.  Each record has a text for program text: `name<field = value, ...>`
with the empty lists left out, or, for a convolution, one row of role letters
for each of input, kernel and output.
-/

namespace TensorProgram

namespace FieldText

/-- Numbers separated by commas. -/
def joined (xs : List Int) : String :=
  ", ".intercalate (xs.map toString)

/-- A list field, which is left out when it is empty. -/
def list (field : String) (xs : List Int) : List String :=
  if xs.isEmpty then [] else [field ++ " = [" ++ joined xs ++ "]"]

def int (field : String) (x : Int) : List String :=
  [field ++ " = " ++ toString x]

/-- A record: its name and, in angle brackets, its fields. -/
def record (name : String) (fields : List (List String)) : String :=
  name ++ "<" ++ ", ".intercalate fields.flatten ++ ">"

end FieldText

/-- The axes of a general dot product.  Axes at one position of the two batching
lists are paired, and so are axes at one position of the contracting lists. -/
structure DotDimensions where
  lhsBatching : List Int := []
  rhsBatching : List Int := []
  lhsContracting : List Int := []
  rhsContracting : List Int := []
  deriving DecidableEq, Repr

namespace DotDimensions

def render (d : DotDimensions) : String :=
  FieldText.record "#stablehlo.dot"
    [FieldText.list "lhs_batching_dimensions" d.lhsBatching,
      FieldText.list "rhs_batching_dimensions" d.rhsBatching,
      FieldText.list "lhs_contracting_dimensions" d.lhsContracting,
      FieldText.list "rhs_contracting_dimensions" d.rhsContracting]

end DotDimensions

/-- The axes of a gather.  `offset` lists output axes, `collapsed`,
`operandBatching` and `indexMap` list operand axes, and `indicesBatching` lists
axes of the indices.  `indexVector` is the axis of the indices that holds the
index vectors; it may be one past the last axis, which stands for vectors of
length one. -/
structure GatherDimensions where
  offset : List Int := []
  collapsed : List Int := []
  operandBatching : List Int := []
  indicesBatching : List Int := []
  indexMap : List Int := []
  indexVector : Int := 0
  deriving DecidableEq, Repr

namespace GatherDimensions

def render (d : GatherDimensions) : String :=
  FieldText.record "#stablehlo.gather"
    [FieldText.list "offset_dims" d.offset,
      FieldText.list "collapsed_slice_dims" d.collapsed,
      FieldText.list "operand_batching_dims" d.operandBatching,
      FieldText.list "start_indices_batching_dims" d.indicesBatching,
      FieldText.list "start_index_map" d.indexMap,
      FieldText.int "index_vector_dim" d.indexVector]

end GatherDimensions

/-- The axes of a scatter, which are those of a gather seen from the updates:
`updateWindow` lists update axes, `inserted`, `inputBatching` and `operandMap`
list input axes, and `indicesBatching` lists axes of the indices. -/
structure ScatterDimensions where
  updateWindow : List Int := []
  inserted : List Int := []
  inputBatching : List Int := []
  indicesBatching : List Int := []
  operandMap : List Int := []
  indexVector : Int := 0
  deriving DecidableEq, Repr

namespace ScatterDimensions

def render (d : ScatterDimensions) : String :=
  FieldText.record "#stablehlo.scatter"
    [FieldText.list "update_window_dims" d.updateWindow,
      FieldText.list "inserted_window_dims" d.inserted,
      FieldText.list "input_batching_dims" d.inputBatching,
      FieldText.list "scatter_indices_batching_dims" d.indicesBatching,
      FieldText.list "scatter_dims_to_operand_dims" d.operandMap,
      FieldText.int "index_vector_dim" d.indexVector]

end ScatterDimensions

/-- The roles of the axes of one tensor of a convolution.  Of the kernel,
`batch` is the input feature axis and `feature` the output feature axis. -/
structure ConvolutionLayout where
  batch : Int
  feature : Int
  spatial : List Int
  deriving DecidableEq, Repr

namespace ConvolutionLayout

/-- The axes with their letters; a spatial axis has its position as its letter. -/
def roles (batchLetter featureLetter : String) (l : ConvolutionLayout) : List (Int × String) :=
  (l.batch, batchLetter) :: (l.feature, featureLetter) ::
    l.spatial.zipIdx.map fun (axis, position) => (axis, toString position)

/-- One place per axis, holding the letter of the last role that names the axis,
or a question mark.  Roles of axes out of range are left out. -/
def places (roles : List (Int × String)) : List String :=
  roles.foldl
    (fun places (axis, letter) => if axis < 0 then places else places.set axis.toNat letter)
    (List.replicate roles.length "?")

def render (batchLetter featureLetter : String) (l : ConvolutionLayout) : String :=
  "[" ++ ", ".intercalate (places (l.roles batchLetter featureLetter)) ++ "]"

end ConvolutionLayout

/-- The layouts of the input, the kernel and the output of a convolution. -/
structure ConvolutionDimensions where
  input : ConvolutionLayout
  kernel : ConvolutionLayout
  output : ConvolutionLayout
  deriving DecidableEq, Repr

namespace ConvolutionDimensions

/-- Batch first and features last in input and output, and spatial axes, input
features, output features in the kernel. -/
def channelsLast (spatialRank : Nat) : ConvolutionDimensions :=
  let last : Int := spatialRank + 1
  let image : ConvolutionLayout :=
    ⟨0, last, (List.range spatialRank).map fun axis => Int.ofNat (axis + 1)⟩
  { input := image
    kernel := ⟨last - 1, last, (List.range spatialRank).map Int.ofNat⟩
    output := image }

def render (d : ConvolutionDimensions) : String :=
  "#stablehlo.conv<" ++ d.input.render "b" "f" ++ "x" ++ d.kernel.render "i" "o" ++ "->" ++
    d.output.render "b" "f" ++ ">"

end ConvolutionDimensions

end TensorProgram
