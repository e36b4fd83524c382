import TensorProgram.Inference.Arithmetic

/-!
# Windowed axes

A window slides over an axis: the axis is dilated and padded, the window is
dilated, and the result counts the places where the window fits when it moves by
the stride.  Windowed reductions and convolutions share `windowedExtent`.
-/

namespace TensorProgram.Inference

open ShapeError (Cause)

/-- One axis of a windowed computation. -/
structure WindowedAxis where
  extent : Nat
  window : Nat
  stride : Nat
  baseDilation : Nat
  windowDilation : Nat
  low : Int
  high : Int
  deriving DecidableEq, Repr

/-- The extent of `n` elements when each has `dilation - 1` gaps after it, the last
one excepted.  There has to be a last one. -/
def dilated (n dilation : Nat) : Check Int := do
  let gaps ← Size.mul (← Size.sub n 1) dilation
  return Offset.ofSize (← Size.add gaps 1)

/-- The extent of the dilated input, which may be empty. -/
def dilatedInput (extent dilation : Nat) : Check Int :=
  if extent = 0 then .ok 0 else dilated extent dilation

def windowedExtent (axis : Nat) (w : WindowedAxis) : Check Nat := do
  require (w.window != 0 && w.stride != 0 && w.baseDilation != 0 && w.windowDilation != 0)
    (.invalidParameter "window" (.zeroWindow axis))
  let input ← dilatedInput w.extent w.baseDilation
  let window ← dilated w.window w.windowDilation
  let padded ← Offset.add (← Offset.add input w.low) w.high
  require (window ≤ padded) (.invalidParameter "window" (.windowExceeds axis window padded))
  let steps ← Offset.div (← Offset.sub padded window) (Offset.ofSize w.stride)
  return Offset.toSize (← Offset.add steps 1)

end TensorProgram.Inference
