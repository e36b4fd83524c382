import TensorProgram.DimensionNumbers
import TensorProgram.Inference.Check

/-!
# Contractions

The general dot product.  Batching axes are paired and kept once, contracting
axes are paired and summed away, and the free axes of both operands are kept.
-/

namespace TensorProgram.Inference

open ShapeError (Cause)

/-- The batching and the contracting axes of one operand. -/
structure DotAxes where
  batching : List Nat
  contracting : List Nat
  deriving DecidableEq, Repr

/-- No axis is both batching and contracting. -/
def DotAxes.requireDisjoint (parameter : String) (a : DotAxes) : Check Unit :=
  match a.contracting.find? a.batching.contains with
  | some axis => .error (.duplicateAxis parameter axis)
  | none => .ok ()

/-- The extents of the axes that are neither batching nor contracting. -/
def DotAxes.freeExtents (a : DotAxes) (s : Shape) : List Nat :=
  extentsExcept s.dimensions (a.batching ++ a.contracting)

/-- Paired axes have the same extent. -/
def requirePair (lhs rhs : Shape) (pair : Nat × Nat) : Check Unit := do
  require ((← entry lhs.dimensions pair.1) == (← entry rhs.dimensions pair.2))
    (.incompatibleShapes lhs rhs)

/-- The batching extents in listed order, then the free extents of the left operand,
then those of the right one. -/
def dotGeneral (lhs rhs : Shape) (d : DotDimensions) : Check Shape := do
  let t ← commonElementType lhs rhs
  let lhsBatching ← normalizeAxes "lhs_batching_dimensions" d.lhsBatching lhs.rank
  let rhsBatching ← normalizeAxes "rhs_batching_dimensions" d.rhsBatching rhs.rank
  let lhsContracting ← normalizeAxes "lhs_contracting_dimensions" d.lhsContracting lhs.rank
  let rhsContracting ← normalizeAxes "rhs_contracting_dimensions" d.rhsContracting rhs.rank
  requireLength "rhs_batching_dimensions" lhsBatching.length rhsBatching.length
  requireLength "rhs_contracting_dimensions" lhsContracting.length rhsContracting.length
  let l : DotAxes := ⟨lhsBatching, lhsContracting⟩
  let r : DotAxes := ⟨rhsBatching, rhsContracting⟩
  l.requireDisjoint "lhs_contracting_dimensions"
  r.requireDisjoint "rhs_contracting_dimensions"
  (l.batching.zip r.batching ++ l.contracting.zip r.contracting).forM (requirePair lhs rhs)
  let batch ← l.batching.mapM (entry lhs.dimensions)
  return .of t (batch ++ l.freeExtents lhs ++ r.freeExtents rhs)

end TensorProgram.Inference
