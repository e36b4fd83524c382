import TensorProgram.Inference.Arithmetic

/-!
# Fourier transforms

Transforms over one to three of the last axes.  A real transform keeps only the
first half of the last transformed axis, and the inverse real transform brings
the other half back.
-/

namespace TensorProgram.Inference

open ShapeError (Cause)

/-- The greatest number of axes that one transform can take. -/
def transformRankLimit : Nat := 3

/-- The number of entries of a spectrum of real data that are not redundant. -/
def halfSpectrum (length : Nat) : Check Nat := do
  Size.add (← Size.div length 2) 1

/-- The element type after the transform. -/
def transformedElementType (type : FftType) (t : ElementType) : Check ElementType :=
  match type with
  | .fft | .ifft =>
    if t.isComplex then .ok t else .error (.unsupportedElementType t .complex)
  | .rfft =>
    match t.complexOf? with
    | some c => .ok c
    | none => .error (.unsupportedElementType t .singleOrDouble)
  | .irfft =>
    match t.realPart? with
    | some r => .ok r
    | none => .error (.unsupportedElementType t .complex)

/-- The extent that a transform of the given length expects on its axis. -/
def expectedExtent (type : FftType) (isLast : Bool) (length : Nat) : Check Nat :=
  if type = .irfft ∧ isLast then halfSpectrum length else .ok length

def fft (operand : Shape) (type : FftType) (lengths : List Nat) : Check Shape := do
  let t ← elementType operand
  require (!lengths.isEmpty && lengths.length ≤ transformRankLimit)
    (.invalidParameter "fft_length" (.transformCount transformRankLimit lengths.length))
  let rank := operand.rank
  require (lengths.length ≤ rank) (.rankMismatch lengths.length operand)
  let target ← transformedElementType type t
  let last ← Size.sub lengths.length 1
  let transformed := operand.dimensions.drop (← Size.sub rank lengths.length)
  (transformed.zip lengths).zipIdx.forM fun ((extent, length), position) => do
    require (extent == (← expectedExtent type (position == last) length))
      (.invalidParameter "fft_length" (.transformLengthMismatch length operand))
  let lastAxis ← Size.sub rank 1
  let extent ←
    match type with
    | .fft | .ifft => entry operand.dimensions lastAxis
    | .rfft => do halfSpectrum (← entry lengths last)
    | .irfft => entry lengths last
  return .of target (← replaceEntry operand.dimensions lastAxis extent)

end TensorProgram.Inference
