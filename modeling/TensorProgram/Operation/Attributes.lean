import TensorProgram.Inference.Arithmetic
import TensorProgram.Operation.Basic

/-!
# Attributes of an operation

The parameters of an operation are recorded as named attributes.  First
`Operation.explicit` counts every axis from the front and fills in the order of a
comparison, so that what is recorded does not depend on the operands; then
`Operation.attributes` writes one attribute for each parameter.
-/

namespace TensorProgram

/-! ## Axes counted from the front -/

namespace DotDimensions

def fromFront (d : DotDimensions) (lhsRank rhsRank : Nat) : DotDimensions where
  lhsBatching := d.lhsBatching.map (Inference.fromFront · lhsRank)
  rhsBatching := d.rhsBatching.map (Inference.fromFront · rhsRank)
  lhsContracting := d.lhsContracting.map (Inference.fromFront · lhsRank)
  rhsContracting := d.rhsContracting.map (Inference.fromFront · rhsRank)

end DotDimensions

namespace GatherDimensions

def fromFront (d : GatherDimensions) (operandRank indicesRank outputRank : Nat) :
    GatherDimensions where
  offset := d.offset.map (Inference.fromFront · outputRank)
  collapsed := d.collapsed.map (Inference.fromFront · operandRank)
  operandBatching := d.operandBatching.map (Inference.fromFront · operandRank)
  indicesBatching := d.indicesBatching.map (Inference.fromFront · indicesRank)
  indexMap := d.indexMap.map (Inference.fromFront · operandRank)
  indexVector := Inference.fromFront d.indexVector (indicesRank + 1)

end GatherDimensions

namespace ScatterDimensions

def fromFront (d : ScatterDimensions) (inputRank indicesRank updateRank : Nat) :
    ScatterDimensions where
  updateWindow := d.updateWindow.map (Inference.fromFront · updateRank)
  inserted := d.inserted.map (Inference.fromFront · inputRank)
  inputBatching := d.inputBatching.map (Inference.fromFront · inputRank)
  indicesBatching := d.indicesBatching.map (Inference.fromFront · indicesRank)
  operandMap := d.operandMap.map (Inference.fromFront · inputRank)
  indexVector := Inference.fromFront d.indexVector (indicesRank + 1)

end ScatterDimensions

namespace ConvolutionLayout

def fromFront (l : ConvolutionLayout) (rank : Nat) : ConvolutionLayout where
  batch := Inference.fromFront l.batch rank
  feature := Inference.fromFront l.feature rank
  spatial := l.spatial.map (Inference.fromFront · rank)

end ConvolutionLayout

namespace ConvolutionDimensions

/-- The input, the kernel and the output have one rank. -/
def fromFront (d : ConvolutionDimensions) (rank : Nat) : ConvolutionDimensions where
  input := d.input.fromFront rank
  kernel := d.kernel.fromFront rank
  output := d.output.fromFront rank

end ConvolutionDimensions

namespace Operation

/-- The rank of the first of some shapes that are expected to have one rank. -/
def firstRank (shapes : List Shape) : Nat :=
  (shapes.head?.map Shape.rank).getD 0

/-- The operation with its axes counted from the front and with the order of a
comparison filled in.  `outputs` are the shapes of its results. -/
def explicit (o : Operation Shape κ) (outputs : List Shape) : Operation Shape κ :=
  match o with
  | compare lhs rhs direction type? =>
    let default := (lhs.elementType?.map ComparisonType.defaultFor).getD .float
    compare lhs rhs direction (some (type?.getD default))
  | broadcastInDim operand dimensions axes =>
    broadcastInDim operand dimensions (axes.map (Inference.fromFront · dimensions.length))
  | transpose operand permutation =>
    transpose operand (permutation.map (Inference.fromFront · operand.rank))
  | concatenate inputs axis => concatenate inputs (Inference.fromFront axis (firstRank outputs))
  | gather operand indices d sliceSizes =>
    gather operand indices (d.fromFront operand.rank indices.rank (firstRank outputs)) sliceSizes
  | scatter inputs indices updates d computation =>
    scatter inputs indices updates
      (d.fromFront (firstRank inputs) indices.rank (firstRank updates)) computation
  | reduce inputs initials axes body =>
    reduce inputs initials (axes.map (Inference.fromFront · (firstRank inputs))) body
  | dotGeneral lhs rhs d => dotGeneral lhs rhs (d.fromFront lhs.rank rhs.rank)
  | convolution lhs rhs c =>
    convolution lhs rhs { c with dimensions := c.dimensions.fromFront lhs.rank }
  | allGather operands axis groups =>
    allGather operands (Inference.fromFront axis (firstRank operands)) groups
  | allToAll operands splitAxis concatAxis count groups =>
    allToAll operands (Inference.fromFront splitAxis (firstRank operands))
      (Inference.fromFront concatAxis (firstRank operands)) count groups
  | iota shape axis => iota shape (Inference.fromFront axis shape.rank)
  | o => o

/-! ## Recorded parameters -/

/-- A list of sizes, recorded as offsets. -/
def sizes (xs : List Nat) : Attribute :=
  .ofList (xs.map Inference.Offset.ofSize)

/-- A list of pairs, one row for each. -/
def pairs (xs : List (Int × Int)) : Attribute :=
  .ofRows (xs.map fun (first, second) => [first, second])

def index (x : Int) : Attribute :=
  .ofTypedInteger x (.signed .w64)

def count (n : Nat) : Attribute :=
  index (Inference.Offset.ofSize n)

/-- One attribute for each parameter.  A call keeps the attributes that it is given,
and those that describe the call itself come last. -/
def attributes : Operation ω κ → List (String × Attribute)
  | compare _ _ direction type? =>
    ("comparison_direction", .verbatim direction.render) ::
      (type?.map fun type => ("compare_type", .verbatim type.render)).toList
  | reducePrecision _ exponentBits mantissaBits =>
    [("exponent_bits", .ofTypedInteger exponentBits (.signed .w32)),
      ("mantissa_bits", .ofTypedInteger mantissaBits (.signed .w32))]
  | broadcastInDim _ _ axes => [("broadcast_dimensions", .ofList axes)]
  | transpose _ permutation => [("permutation", .ofList permutation)]
  | slice _ starts limits strides =>
    [("start_indices", .ofList starts), ("limit_indices", .ofList limits),
      ("strides", .ofList strides)]
  | concatenate _ axis => [("dimension", index axis)]
  | pad _ _ low high interior =>
    [("edge_padding_low", .ofList low), ("edge_padding_high", .ofList high),
      ("interior_padding", .ofList interior)]
  | gather _ _ d sliceSizes =>
    [("dimension_numbers", .verbatim d.render), ("slice_sizes", sizes sliceSizes)]
  | scatter _ _ _ d _ => [("scatter_dimension_numbers", .verbatim d.render)]
  | dynamicSlice _ _ sliceSizes => [("slice_sizes", sizes sliceSizes)]
  | reduce _ _ axes _ => [("dimensions", .ofList axes)]
  | reduceWindow _ _ window _ =>
    [("window_dimensions", sizes window.dimensions), ("window_strides", sizes window.strides),
      ("base_dilations", sizes window.baseDilations),
      ("window_dilations", sizes window.windowDilations), ("padding", pairs window.padding)]
  | fft _ type lengths => [("fft_type", .verbatim type.render), ("fft_length", sizes lengths)]
  | dotGeneral _ _ d => [("dot_dimension_numbers", .verbatim d.render)]
  | convolution _ _ c =>
    [("dimension_numbers", .verbatim c.dimensions.render),
      ("window_strides", sizes c.windowStrides), ("padding", pairs c.padding),
      ("lhs_dilation", sizes c.lhsDilation), ("rhs_dilation", sizes c.rhsDilation),
      ("feature_group_count", count c.featureGroups),
      ("batch_group_count", count c.batchGroups)]
  | allGather _ axis groups => [("all_gather_dim", index axis), ("replica_groups", .ofRows groups)]
  | allToAll _ splitAxis concatAxis splits groups =>
    [("split_dimension", index splitAxis), ("concat_dimension", index concatAxis),
      ("split_count", count splits), ("replica_groups", .ofRows groups)]
  | allReduce _ groups _ => [("replica_groups", .ofRows groups)]
  | collectivePermute _ transfers => [("source_target_pairs", pairs transfers)]
  | collectiveBroadcast _ groups => [("replica_groups", .ofRows groups)]
  | constant literal => [("value", .tensor literal)]
  | iota _ axis => [("iota_dimension", index axis)]
  | rngBitGenerator _ _ algorithm => [("rng_algorithm", .verbatim algorithm.render)]
  | customCall target _ _ hasSideEffect attributes =>
    attributes ++ ("call_target_name", .string target) ::
      if hasSideEffect then [("has_side_effect", .boolean true)] else []
  | unary .. => []
  | binary .. => []
  | select .. => []
  | clamp .. => []
  | convert .. => []
  | bitcastConvert .. => []
  | reshape .. => []
  | dynamicUpdateSlice .. => []

end Operation

end TensorProgram
