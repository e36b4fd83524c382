import TensorProgram.DimensionNumbers

/-!
# Windows

The parameters of the operations that slide a window over their input: windowed
reductions and convolutions.
-/

namespace TensorProgram

/-- The window of a windowed reduction, with one entry per axis in every list. -/
structure Window where
  dimensions : List Nat
  strides : List Nat
  baseDilations : List Nat
  windowDilations : List Nat
  padding : List (Int × Int)
  deriving DecidableEq, Repr

namespace Window

/-- The window that moves by one, with no dilation and no padding. -/
def unit (dimensions : List Nat) : Window where
  dimensions := dimensions
  strides := dimensions.map fun _ => 1
  baseDilations := dimensions.map fun _ => 1
  windowDilations := dimensions.map fun _ => 1
  padding := dimensions.map fun _ => (0, 0)

end Window

/-- The parameters of a convolution.  The lists have one entry per spatial axis. -/
structure ConvolutionConfiguration where
  dimensions : ConvolutionDimensions
  windowStrides : List Nat
  padding : List (Int × Int)
  lhsDilation : List Nat
  rhsDilation : List Nat
  featureGroups : Nat
  batchGroups : Nat
  deriving DecidableEq, Repr

namespace ConvolutionConfiguration

/-- Unit strides and dilations, no padding and no groups. -/
def unit (dimensions : ConvolutionDimensions) : ConvolutionConfiguration where
  dimensions := dimensions
  windowStrides := dimensions.input.spatial.map fun _ => 1
  padding := dimensions.input.spatial.map fun _ => (0, 0)
  lhsDilation := dimensions.input.spatial.map fun _ => 1
  rhsDilation := dimensions.input.spatial.map fun _ => 1
  featureGroups := 1
  batchGroups := 1

end ConvolutionConfiguration

end TensorProgram
