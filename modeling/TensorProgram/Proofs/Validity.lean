import TensorProgram.Proofs.Checks

/-!
# Inference gives valid shapes

A rule either takes over the shape of an operand that it has looked at, or it makes a shape
with an element type of its own.  `Operation.outputs_isValid` puts the rules together: the
results of an operation are valid, unless it is a constant, whose shape nobody looks at.

`Inference.Ensures` says what holds of the result of a check that succeeds, and a chain of
checks is followed with `Ensures.bind`.
-/

namespace TensorProgram

namespace Inference

/-! ## What a check ensures -/

/-- Whatever the check gives has the property. -/
def Ensures {α : Type} (P : α → Prop) (x : Check α) : Prop :=
  ∀ a, x = .ok a → P a

section Ensures

variable {α β : Type} {P : α → Prop} {Q : β → Prop}

theorem ensures_pure {a : α} (h : P a) : Ensures P (pure a) := by
  intro b hb
  obtain rfl : a = b := by simpa using hb
  exact h

theorem ensures_error (cause : ShapeError.Cause) : Ensures P (.error cause) := by
  intro a ha
  cases ha

/-- The second check may use what the first one has found. -/
theorem Ensures.bind {x : Check α} {next : α → Check β}
    (h : ∀ a, x = .ok a → Ensures Q (next a)) : Ensures Q (x >>= next) := by
  intro b hb
  obtain ⟨a, ha, hnext⟩ := bind_eq_ok.mp hb
  exact h a ha b hnext

/-- The first check is of no use for the result. -/
theorem Ensures.skip {x : Check α} {next : α → Check β} (h : ∀ a, Ensures Q (next a)) :
    Ensures Q (x >>= next) :=
  .bind fun a _ => h a

theorem Ensures.mapM {f : α → Check β} {xs : List α} (h : ∀ x ∈ xs, Ensures Q (f x)) :
    Ensures (fun ys => ∀ y ∈ ys, Q y) (xs.mapM f) :=
  fun _ hys => forall_of_mapM hys h

end Ensures

/-! ## Shapes that have been looked at -/

section Looked

variable {s lhs rhs : Shape} {t : ElementType}

theorem isValid_of_elementType (h : elementType s = .ok t) : s.isValid = true := by
  unfold elementType at h
  cases ht : s.elementType? with
  | none => simp [ht] at h
  | some t => simp [Shape.isValid, ht]

theorem isValid_of_commonElementType (h : commonElementType lhs rhs = .ok t) :
    lhs.isValid = true ∧ rhs.isValid = true := by
  simp only [commonElementType, bind_eq_ok] at h
  obtain ⟨_, hlhs, _, hrhs, _⟩ := h
  exact ⟨isValid_of_elementType hlhs, isValid_of_elementType hrhs⟩

end Looked

/-! ## Rules of single results -/

section Rules

theorem unary_isValid (op : OpKind) (operand : Shape) :
    Ensures (·.isValid = true) (unary op operand) := by
  unfold unary
  split
  · refine .bind fun t ht => .skip fun _ => ?_
    split
    · exact ensures_pure rfl
    · exact ensures_pure rfl
    · exact ensures_pure rfl
    · exact ensures_pure rfl
    · exact ensures_pure (isValid_of_elementType ht)
  · exact ensures_error _

theorem binary_isValid (op : OpKind) (lhs rhs : Shape) :
    Ensures (·.isValid = true) (binary op lhs rhs) := by
  unfold binary
  split
  · refine .skip fun _ => .skip fun _ => .skip fun _ => .skip fun _ => ?_
    exact ensures_pure rfl
  · exact ensures_error _

theorem compare_isValid (lhs rhs : Shape) (direction : ComparisonDirection)
    (type? : Option ComparisonType) :
    Ensures (·.isValid = true) (compare lhs rhs direction type?) := by
  refine .skip fun _ => .skip fun _ => .skip fun _ => .skip fun _ => ?_
  exact ensures_pure rfl

theorem select_isValid (predicate onTrue onFalse : Shape) :
    Ensures (·.isValid = true) (select predicate onTrue onFalse) := by
  refine .skip fun _ => .skip fun _ => .bind fun _ h => .skip fun _ => .skip fun _ => ?_
  exact ensures_pure (isValid_of_commonElementType h).1

theorem clamp_isValid (min operand max : Shape) :
    Ensures (·.isValid = true) (clamp min operand max) := by
  refine .bind fun _ h => .skip fun _ => .skip fun _ => .skip fun _ => .skip fun _ => ?_
  exact ensures_pure (isValid_of_elementType h)

theorem convert_isValid (operand : Shape) (target : ElementType) :
    Ensures (·.isValid = true) (convert operand target) :=
  .skip fun _ => ensures_pure rfl

theorem bitcastConvert_isValid (operand : Shape) (target : ElementType) :
    Ensures (·.isValid = true) (bitcastConvert operand target) := by
  refine .skip fun t => ?_
  dsimp only
  split_ifs
  · exact .skip fun _ => .skip fun _ => .skip fun _ => ensures_pure rfl
  · exact .skip fun _ => .skip fun _ => .skip fun _ => ensures_pure rfl
  · exact ensures_pure rfl

theorem reducePrecision_isValid (operand : Shape) (exponentBits mantissaBits : Nat) :
    Ensures (·.isValid = true) (reducePrecision operand exponentBits mantissaBits) :=
  .bind fun _ h => .skip fun _ => .skip fun _ => ensures_pure (isValid_of_elementType h)

theorem broadcastInDim_isValid (operand : Shape) (dimensions : List Nat) (axes : List Int) :
    Ensures (·.isValid = true) (broadcastInDim operand dimensions axes) := by
  refine .skip fun _ => .skip fun _ => .skip fun _ => .skip fun _ => .skip fun _ => ?_
  exact ensures_pure rfl

theorem reshape_isValid (operand : Shape) (dimensions : List Nat) :
    Ensures (·.isValid = true) (reshape operand dimensions) :=
  .skip fun _ => .skip fun _ => .skip fun _ => .skip fun _ => ensures_pure rfl

theorem transpose_isValid (operand : Shape) (permutation : List Int) :
    Ensures (·.isValid = true) (transpose operand permutation) :=
  .skip fun _ => .skip fun _ => .skip fun _ => .skip fun _ => ensures_pure rfl

theorem slice_isValid (operand : Shape) (starts limits strides : List Int) :
    Ensures (·.isValid = true) (slice operand starts limits strides) := by
  refine .skip fun _ => .skip fun _ => .skip fun _ => .skip fun _ => .skip fun _ => ?_
  exact ensures_pure rfl

theorem concatenate_isValid (inputs : List Shape) (axis : Int) :
    Ensures (·.isValid = true) (concatenate inputs axis) := by
  unfold concatenate
  split
  · exact ensures_error _
  · refine .skip fun _ => .skip fun _ => .skip fun _ => .skip fun _ => .skip fun _ => ?_
    exact .skip fun _ => ensures_pure rfl

theorem pad_isValid (operand paddingValue : Shape) (low high interior : List Int) :
    Ensures (·.isValid = true) (pad operand paddingValue low high interior) := by
  refine .skip fun _ => .skip fun _ => .skip fun _ => .skip fun _ => .skip fun _ => ?_
  exact .skip fun _ => .skip fun _ => ensures_pure rfl

theorem gather_isValid (operand indices : Shape) (d : GatherDimensions) (sliceSizes : List Nat) :
    Ensures (·.isValid = true) (gather operand indices d sliceSizes) := by
  refine .skip fun _ => .skip fun _ => .skip fun _ => .skip fun _ => .skip fun _ => ?_
  refine .skip fun _ => .skip fun _ => .skip fun _ => .skip fun _ => ?_
  split
  · exact ensures_pure rfl
  · exact ensures_error _

theorem dynamicSlice_isValid (operand : Shape) (starts : List Shape) (sliceSizes : List Nat) :
    Ensures (·.isValid = true) (dynamicSlice operand starts sliceSizes) :=
  .skip fun _ => .skip fun _ => .skip fun _ => .skip fun _ => ensures_pure rfl

theorem dynamicUpdateSlice_isValid (operand update : Shape) (starts : List Shape) :
    Ensures (·.isValid = true) (dynamicUpdateSlice operand update starts) :=
  .bind fun _ h => .skip fun _ => .skip fun _ => ensures_pure (isValid_of_commonElementType h).1

theorem fft_isValid (operand : Shape) (type : FftType) (lengths : List Nat) :
    Ensures (·.isValid = true) (fft operand type lengths) := by
  refine .skip fun _ => .skip fun _ => .skip fun _ => .skip fun _ => .skip fun _ => ?_
  refine .skip fun _ => .skip fun _ => .skip fun _ => ?_
  dsimp only
  split
  · exact .skip fun _ => .skip fun _ => ensures_pure rfl
  · exact .skip fun _ => .skip fun _ => ensures_pure rfl
  · exact .skip fun _ => .skip fun _ => .skip fun _ => ensures_pure rfl
  · exact .skip fun _ => .skip fun _ => ensures_pure rfl

theorem dotGeneral_isValid (lhs rhs : Shape) (d : DotDimensions) :
    Ensures (·.isValid = true) (dotGeneral lhs rhs d) := by
  refine .skip fun _ => .skip fun _ => .skip fun _ => .skip fun _ => .skip fun _ => ?_
  refine .skip fun _ => .skip fun _ => .skip fun _ => .skip fun _ => .skip fun _ => ?_
  exact .skip fun _ => ensures_pure rfl

theorem convolution_isValid (lhs rhs : Shape) (c : ConvolutionConfiguration) :
    Ensures (·.isValid = true) (convolution lhs rhs c) := by
  refine .skip fun _ => .skip fun _ => .skip fun _ => .skip fun _ => .skip fun _ => ?_
  refine .skip fun _ => .skip fun _ => .skip fun _ => .skip fun _ => .skip fun _ => ?_
  refine .skip fun _ => .skip fun _ => .skip fun _ => .skip fun _ => .skip fun _ => ?_
  refine .skip fun _ => .skip fun _ => .skip fun _ => .skip fun _ => .skip fun _ => ?_
  exact ensures_pure rfl

theorem collectivePermute_isValid (operand : Shape) (pairs : List (Int × Int)) :
    Ensures (·.isValid = true) (collectivePermute operand pairs) :=
  .bind fun _ h => .skip fun _ => .skip fun _ => ensures_pure (isValid_of_elementType h)

theorem collectiveBroadcast_isValid (operand : Shape) (groups : List (List Int)) :
    Ensures (·.isValid = true) (collectiveBroadcast operand groups) :=
  .bind fun _ h => .skip fun _ => ensures_pure (isValid_of_elementType h)

theorem iota_isValid (s : Shape) (axis : Int) : Ensures (·.isValid = true) (iota s axis) := by
  refine .bind fun _ h => .skip fun _ => .skip fun _ => .skip fun _ => ?_
  exact ensures_pure (isValid_of_elementType h)

end Rules

/-! ## Rules of several results -/

section Lists

/-- All shapes are valid. -/
def AllValid (shapes : List Shape) : Prop :=
  ∀ s ∈ shapes, s.isValid = true

theorem allValid_of_mapM_elementType {shapes : List Shape} {types : List ElementType}
    (h : shapes.mapM elementType = .ok types) : AllValid shapes := by
  intro s hs
  obtain ⟨t, ht⟩ := exists_ok_of_mem h hs
  exact isValid_of_elementType ht

theorem allValid_of_operandElementTypes {operands : List Shape} {types : List ElementType}
    (h : operandElementTypes operands = .ok types) : AllValid operands := by
  obtain ⟨_, _, h⟩ := bind_eq_ok.mp h
  exact allValid_of_mapM_elementType h

theorem allValid_map_of (types : List ElementType) (dimensions : List Nat) :
    AllValid (types.map fun t => .of t dimensions) := by
  intro s hs
  obtain ⟨t, _, rfl⟩ := List.mem_map.mp hs
  rfl

/-- The inputs of a scatter have been looked at together with their updates. -/
theorem scatter_isValid (inputs : List Shape) (indices : Shape) (updates : List Shape)
    (d : ScatterDimensions) (computation : Signature) :
    Ensures AllValid (scatter inputs indices updates d computation) := by
  cases inputs with
  | nil => exact ensures_error _
  | cons input rest =>
    refine .bind fun _ hlength => .skip fun _ => .bind fun types htypes => ?_
    refine .skip fun _ => .skip fun _ => .skip fun _ => .skip fun _ => .skip fun _ => ?_
    refine .skip fun _ => .skip fun _ => .skip fun _ => ensures_pure ?_
    intro s hs
    have hcount : (input :: rest).length ≤ updates.length := by
      have := require_eq_ok.mp hlength
      simp at this ⊢
      omega
    rw [← List.map_fst_zip hcount] at hs
    obtain ⟨pair, hpair, rfl⟩ := List.mem_map.mp hs
    obtain ⟨t, ht⟩ := exists_ok_of_mem htypes hpair
    obtain ⟨_, hcommon, _⟩ := bind_eq_ok.mp ht
    exact (isValid_of_commonElementType hcommon).1

theorem reduce_isValid (inputs initials : List Shape) (axes : List Int) (body : Signature) :
    Ensures AllValid (reduce inputs initials axes body) := by
  refine .skip fun _ => .skip fun _ => .skip fun _ => .skip fun _ => ?_
  exact ensures_pure (allValid_map_of _ _)

theorem reduceWindow_isValid (inputs initials : List Shape) (window : Window) (body : Signature) :
    Ensures AllValid (reduceWindow inputs initials window body) := by
  refine .skip fun _ => .skip fun _ => .skip fun _ => .skip fun _ => .skip fun _ => ?_
  refine .skip fun _ => .skip fun _ => .skip fun _ => .skip fun _ => ?_
  exact ensures_pure (allValid_map_of _ _)

/-- A gathered operand keeps its element type. -/
theorem allGather_isValid (operands : List Shape) (axis : Int) (groups : List (List Int)) :
    Ensures AllValid (allGather operands axis groups) := by
  refine .bind fun _ h => .skip fun _ => .mapM fun operand hoperand => ?_
  refine .skip fun _ => .skip fun _ => .skip fun _ => .skip fun _ => ensures_pure ?_
  exact allValid_of_operandElementTypes h operand hoperand

theorem allToAll_isValid (operands : List Shape) (splitAxis concatAxis : Int) (count : Nat)
    (groups : List (List Int)) :
    Ensures AllValid (allToAll operands splitAxis concatAxis count groups) := by
  refine .bind fun _ h => .skip fun _ => .skip fun _ => .mapM fun operand hoperand => ?_
  refine .skip fun _ => .skip fun _ => .skip fun _ => .skip fun _ => .skip fun _ => ?_
  refine .skip fun _ => .skip fun _ => .skip fun _ => .skip fun _ => .skip fun _ => ?_
  refine ensures_pure ?_
  exact allValid_of_operandElementTypes h operand hoperand

theorem allReduce_isValid (operands : List Shape) (groups : List (List Int))
    (computation : Signature) : Ensures AllValid (allReduce operands groups computation) :=
  .bind fun _ h => .skip fun _ => .skip fun _ => ensures_pure (allValid_of_operandElementTypes h)

theorem rngBitGenerator_isValid (initialState s : Shape) :
    Ensures AllValid (rngBitGenerator initialState s) := by
  refine .bind fun _ hstate => .skip fun _ => .skip fun _ => .bind fun _ hs => .skip fun _ => ?_
  apply ensures_pure
  intro shape hshape
  rcases List.mem_pair.mp hshape with rfl | rfl
  · exact isValid_of_elementType hstate
  · exact isValid_of_elementType hs

theorem customCall_isValid (inputs outputs : List Shape) :
    Ensures AllValid (customCall inputs outputs) := by
  refine .bind fun _ h => ensures_pure ?_
  intro s hs
  obtain ⟨t, ht, _⟩ := bind_eq_ok.mp (forM_eq_ok.mp h s (List.mem_append_right _ hs))
  exact isValid_of_elementType ht

end Lists

end Inference

namespace Operation

open Inference

theorem ensures_one {x : Check Shape} (h : Ensures (·.isValid = true) x) :
    Ensures AllValid (one x) := by
  intro shapes hshapes s hs
  cases hx : x with
  | error cause => simp [one, hx, Except.map] at hshapes
  | ok a =>
    obtain rfl : [a] = shapes := by simpa [one, hx, Except.map] using hshapes
    obtain rfl := List.mem_singleton.mp hs
    exact h s hx

/-- The results of an operation are valid, but for the shape that a constant brings along. -/
theorem outputs_isValid {o : Operation Shape Signature}
    (ho : ∀ literal, o = .constant literal → literal.shape.isValid = true) :
    Ensures AllValid o.outputs := by
  cases o with
  | unary op operand => exact ensures_one (unary_isValid op operand)
  | binary op lhs rhs => exact ensures_one (binary_isValid op lhs rhs)
  | compare lhs rhs direction type? =>
    exact ensures_one (compare_isValid lhs rhs direction type?)
  | select predicate onTrue onFalse => exact ensures_one (select_isValid predicate onTrue onFalse)
  | clamp min operand max => exact ensures_one (clamp_isValid min operand max)
  | convert operand target => exact ensures_one (convert_isValid operand target)
  | bitcastConvert operand target => exact ensures_one (bitcastConvert_isValid operand target)
  | reducePrecision operand exponentBits mantissaBits =>
    exact ensures_one (reducePrecision_isValid operand exponentBits mantissaBits)
  | broadcastInDim operand dimensions axes =>
    exact ensures_one (broadcastInDim_isValid operand dimensions axes)
  | reshape operand dimensions => exact ensures_one (reshape_isValid operand dimensions)
  | transpose operand permutation => exact ensures_one (transpose_isValid operand permutation)
  | slice operand starts limits strides =>
    exact ensures_one (slice_isValid operand starts limits strides)
  | concatenate inputs axis => exact ensures_one (concatenate_isValid inputs axis)
  | pad operand paddingValue low high interior =>
    exact ensures_one (pad_isValid operand paddingValue low high interior)
  | gather operand indices d sliceSizes =>
    exact ensures_one (gather_isValid operand indices d sliceSizes)
  | scatter inputs indices updates d computation =>
    exact scatter_isValid inputs indices updates d computation
  | dynamicSlice operand starts sliceSizes =>
    exact ensures_one (dynamicSlice_isValid operand starts sliceSizes)
  | dynamicUpdateSlice operand update starts =>
    exact ensures_one (dynamicUpdateSlice_isValid operand update starts)
  | reduce inputs initials axes body => exact reduce_isValid inputs initials axes body
  | reduceWindow inputs initials window body =>
    exact reduceWindow_isValid inputs initials window body
  | fft operand type lengths => exact ensures_one (fft_isValid operand type lengths)
  | dotGeneral lhs rhs d => exact ensures_one (dotGeneral_isValid lhs rhs d)
  | convolution lhs rhs c => exact ensures_one (convolution_isValid lhs rhs c)
  | allGather operands axis groups => exact allGather_isValid operands axis groups
  | allToAll operands splitAxis concatAxis count groups =>
    exact allToAll_isValid operands splitAxis concatAxis count groups
  | allReduce operands groups computation => exact allReduce_isValid operands groups computation
  | collectivePermute operand pairs => exact ensures_one (collectivePermute_isValid operand pairs)
  | collectiveBroadcast operand groups =>
    exact ensures_one (collectiveBroadcast_isValid operand groups)
  | constant literal =>
    intro shapes hshapes s hs
    obtain rfl : [literal.shape] = shapes := by simpa [outputs] using hshapes
    obtain rfl := List.mem_singleton.mp hs
    exact ho literal rfl
  | iota shape axis => exact ensures_one (iota_isValid shape axis)
  | rngBitGenerator initialState shape algorithm =>
    exact rngBitGenerator_isValid initialState shape
  | customCall target inputs outputs hasSideEffect attributes =>
    exact customCall_isValid inputs outputs

end Operation

end TensorProgram
