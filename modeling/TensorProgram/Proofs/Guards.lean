import TensorProgram.Proofs.Explicit
import TensorProgram.Proofs.Faults

/-!
# Guarded rules

No rule reads past the end of a list, divides by zero or takes a size from a smaller one, for
what it has checked before rules that out.  The rules that compute sizes may stop for an
overflow, and the others never stop: `Operation.outputs_stops`.

Each rule has a lemma that follows its checks in order.  A rule without arithmetic is bounded by
whatever faults are asked for, and the others by any that include an overflow of the operations that
they use.  No division is among them, because only numbers that are not negative are divided.
-/

namespace TensorProgram

namespace Inference

open ShapeError (Cause)

variable {allowed : Fault → Prop}

/-! ## Elementwise operations -/

section Elementwise

variable {operand lhs rhs : Shape} {op : OpKind}

theorem unary_stops : StopsOnlyFor allowed (unary op operand) := by
  unfold unary
  split
  · refine .bind stops_elementType fun _ _ => .bind stops_requireCapabilities fun _ _ => ?_
    split
    · exact stops_pure _
    · exact stops_pure _
    · exact stops_pure _
    · exact stops_pure _
    · exact stops_pure _
  · exact stops_error nofun

theorem stops_broadcastDimensions : StopsOnlyFor allowed (broadcastDimensions lhs rhs) := by
  unfold broadcastDimensions
  split
  · exact stops_pure _
  · exact stops_error nofun

theorem stops_binaryElementType {op : BinaryOp} {t : ElementType} :
    StopsOnlyFor allowed (binaryElementType op t) := by
  unfold binaryElementType
  split
  · split
    · exact stops_pure _
    · exact stops_error nofun
  · exact stops_pure _

theorem binary_stops : StopsOnlyFor allowed (binary op lhs rhs) := by
  unfold binary
  split
  · refine .bind stops_commonElementType fun _ _ => .bind stops_requireCapabilities fun _ _ => ?_
    refine .bind stops_binaryElementType fun _ _ => .bind stops_broadcastDimensions fun _ _ => ?_
    exact stops_pure _
  · exact stops_error nofun

theorem compare_stops {direction : ComparisonDirection} {type? : Option ComparisonType} :
    StopsOnlyFor allowed (compare lhs rhs direction type?) := by
  refine .bind stops_commonElementType fun _ _ => .bind (stops_require nofun) fun _ _ => ?_
  refine .bind (stops_require nofun) fun _ _ => .bind stops_broadcastDimensions fun _ _ => ?_
  exact stops_pure _

theorem select_stops {predicate onTrue onFalse : Shape} :
    StopsOnlyFor allowed (select predicate onTrue onFalse) := by
  refine .bind stops_elementType fun _ _ => .bind stops_requireClass fun _ _ => ?_
  refine .bind stops_commonElementType fun _ _ => .bind (stops_require nofun) fun _ _ => ?_
  exact .bind (stops_require nofun) fun _ _ => stops_pure _

theorem stops_requireBound {bound : Shape} : StopsOnlyFor allowed (requireBound operand bound) :=
  .bind stops_commonElementType fun _ _ => stops_require nofun

theorem clamp_stops {min max : Shape} : StopsOnlyFor allowed (clamp min operand max) := by
  refine .bind stops_elementType fun _ _ => .bind stops_requireCapabilities fun _ _ => ?_
  refine .bind stops_requireClass fun _ _ => .bind stops_requireBound fun _ _ => ?_
  exact .bind stops_requireBound fun _ _ => stops_pure _

theorem convert_stops {target : ElementType} : StopsOnlyFor allowed (convert operand target) :=
  .bind stops_elementType fun _ _ => stops_pure _

/-- No element type is without bits. -/
theorem bitcastConvert_stops {target : ElementType} :
    StopsOnlyFor allowed (bitcastConvert operand target) := by
  refine .bind stops_elementType fun t _ => ?_
  have hsource := bits_ne_zero t
  have htarget := bits_ne_zero target
  dsimp only
  split_ifs
  · refine .bind (stops_sizeMod htarget) fun _ _ => .bind (stops_require nofun) fun _ _ => ?_
    exact .bind (stops_sizeDiv htarget) fun _ _ => stops_pure _
  · refine .bind (stops_sizeDiv hsource) fun _ _ => .bind (stops_sizeMod hsource) fun _ _ => ?_
    exact .bind (stops_require nofun) fun _ _ => stops_pure _
  · exact stops_pure _

theorem reducePrecision_stops {exponentBits mantissaBits : Nat} :
    StopsOnlyFor allowed (reducePrecision operand exponentBits mantissaBits) := by
  refine .bind stops_elementType fun _ _ => .bind stops_requireCapabilities fun _ _ => ?_
  exact .bind (stops_require nofun) fun _ _ => stops_pure _

end Elementwise

/-! ## Layout -/

section Layout

variable {operand : Shape}

/-- The operand axes are placed at axes of the output. -/
theorem broadcastInDim_stops {dimensions : List Nat} {axes : List Int} :
    StopsOnlyFor allowed (broadcastInDim operand dimensions axes) := by
  refine .bind stops_elementType fun _ _ => .bind (stops_require nofun) fun _ _ => ?_
  refine .bind stops_requireLength fun _ _ => .bind stops_normalizeAxes fun as has => ?_
  refine .bind (.forM fun ⟨extent, axis⟩ hpair => ?_) fun _ _ => stops_pure _
  have hlt : axis < dimensions.length := lt_of_normalizeAxes has _ (List.of_mem_zip hpair).2
  dsimp only
  split_ifs
  · exact stops_require nofun
  · exact .bind (stops_entry hlt) fun _ _ => stops_require nofun

theorem transpose_stops {permutation : List Int} :
    StopsOnlyFor allowed (transpose operand permutation) := by
  refine .bind stops_elementType fun _ _ => .bind stops_requireLength fun _ _ => ?_
  refine .bind stops_normalizeAxes fun _ has => ?_
  exact .bind (stops_mapM_entry (lt_of_normalizeAxes has)) fun _ _ => stops_pure _

theorem reshape_stops {dimensions : List Nat} (hoverflow : allowed (.overflow .multiply)) :
    StopsOnlyFor allowed (reshape operand dimensions) := by
  refine .bind stops_elementType fun _ _ => .bind (stops_sizeProduct hoverflow) fun _ _ => ?_
  refine .bind (stops_sizeProduct hoverflow) fun _ _ => .bind (stops_require nofun) fun _ _ => ?_
  exact stops_pure _

section Concatenation

variable (hadd : allowed (.overflow .add))

include hadd

/-- An input that agrees with the first one has the axis of the concatenation. -/
theorem stops_addInput {first input : Shape} {axis total : Nat} (haxis : axis < first.rank) :
    StopsOnlyFor allowed (addInput first axis total input) := by
  refine .bind stops_commonElementType fun _ _ => .bind (stops_require nofun) fun _ hagree => ?_
  have hlt : axis < input.rank := by
    have hagree := require_eq_ok.mp hagree
    simp only [agreeExcept, Bool.and_eq_true, beq_iff_eq] at hagree
    exact Nat.lt_of_lt_of_eq haxis hagree.1.symm
  exact .bind (stops_entry hlt) fun _ _ => stops_sizeBounded hadd

theorem concatenate_stops {inputs : List Shape} {axis : Int} :
    StopsOnlyFor allowed (concatenate inputs axis) := by
  cases inputs with
  | nil => exact stops_error nofun
  | cons first rest =>
    refine .bind stops_elementType fun _ _ => .bind (stops_require nofun) fun _ _ => ?_
    refine .bind stops_normalizeAxis fun a ha => ?_
    have hlt := lt_of_normalizeAxis ha
    refine .bind (stops_entry hlt) fun extent _ => ?_
    refine .bind (.foldlM_of_forall (fun _ _ => stops_addInput hadd hlt) extent) fun _ _ => ?_
    exact .bind (stops_replaceEntry hlt) fun _ _ => stops_pure _

end Concatenation

variable (hoverflow : ∀ operation, operation ≠ Arithmetic.divide → allowed (.overflow operation))

include hoverflow

/-- The divisor is a stride that has been found to be positive, and the range that is rounded up has
been found to end after it starts. -/
theorem stops_slicedExtent {axis extent : Nat} {start limit stride : Int} :
    StopsOnlyFor allowed (slicedExtent axis extent start limit stride) := by
  have hsubtract := hoverflow .subtract nofun
  refine .bind (stops_require nofun) fun _ hstride => .bind (stops_require nofun) fun _ hrange => ?_
  have hpositive : 0 < stride := by simpa using require_eq_ok.mp hstride
  obtain ⟨⟨_, hrange⟩, _⟩ : (0 ≤ start ∧ start ≤ limit) ∧ limit ≤ Offset.ofSize extent := by
    simpa using require_eq_ok.mp hrange
  refine .bind (stops_offsetBounded hsubtract) fun _ hspan => ?_
  obtain ⟨_, rfl⟩ := Offset.bounded_eq_ok.mp hspan
  refine .bind (stops_offsetBounded (hoverflow .add nofun)) fun _ hsum => ?_
  obtain ⟨_, rfl⟩ := Offset.bounded_eq_ok.mp hsum
  refine .bind (stops_offsetBounded hsubtract) fun _ hrounded => ?_
  obtain ⟨hlimits, rfl⟩ := Offset.bounded_eq_ok.mp hrounded
  refine .bind (stops_offsetDiv (Int.ne_of_gt hpositive) (by omega) hlimits.2) fun _ _ => ?_
  exact stops_pure _

theorem slice_stops {starts limits strides : List Int} :
    StopsOnlyFor allowed (slice operand starts limits strides) := by
  refine .bind stops_elementType fun _ _ => .bind stops_requireLength fun _ hstarts => ?_
  refine .bind stops_requireLength fun _ hlimits => .bind stops_requireLength fun _ hstrides => ?_
  refine .bind (.mapM fun ⟨extent, axis⟩ hentry => ?_) fun _ _ => stops_pure _
  have hlt := lt_of_mem_zipIdx hentry
  refine .bind (stops_entry (lt_of_requireLength hstarts hlt)) fun _ _ => ?_
  refine .bind (stops_entry (lt_of_requireLength hlimits hlt)) fun _ _ => ?_
  refine .bind (stops_entry (lt_of_requireLength hstrides hlt)) fun _ _ => ?_
  exact stops_slicedExtent hoverflow

theorem stops_paddedExtent {axis extent : Nat} {low high interior : Int} :
    StopsOnlyFor allowed (paddedExtent axis extent low high interior) := by
  have hadd := hoverflow .add nofun
  refine .bind (stops_require nofun) fun _ _ => .bind (stops_offsetBounded hadd) fun _ _ => ?_
  refine .bind (stops_offsetBounded hadd) fun _ _ => ?_
  refine .bind (stops_offsetBounded (hoverflow .subtract nofun)) fun _ _ => ?_
  refine .bind (stops_offsetBounded (hoverflow .multiply nofun)) fun _ _ => ?_
  refine .bind (stops_offsetBounded hadd) fun _ _ => .bind (stops_require nofun) fun _ _ => ?_
  exact stops_pure _

theorem pad_stops {paddingValue : Shape} {low high interior : List Int} :
    StopsOnlyFor allowed (pad operand paddingValue low high interior) := by
  refine .bind stops_elementType fun _ _ => .bind stops_scalarElementType fun _ _ => ?_
  refine .bind stops_commonElementType fun _ _ => .bind stops_requireLength fun _ hlow => ?_
  refine .bind stops_requireLength fun _ hhigh => .bind stops_requireLength fun _ hinterior => ?_
  refine .bind (.mapM fun ⟨extent, axis⟩ hentry => ?_) fun _ _ => stops_pure _
  have hlt := lt_of_mem_zipIdx hentry
  refine .bind (stops_entry (lt_of_requireLength hlow hlt)) fun _ _ => ?_
  refine .bind (stops_entry (lt_of_requireLength hhigh hlt)) fun _ _ => ?_
  refine .bind (stops_entry (lt_of_requireLength hinterior hlt)) fun _ _ => ?_
  exact stops_paddedExtent hoverflow

end Layout

/-! ## Indexed access -/

section IndexedAccess

variable {operand indices : Shape}

/-- There is a slice size for every axis of the operand. -/
theorem gather_stops {d : GatherDimensions} {sliceSizes : List Nat} :
    StopsOnlyFor allowed (gather operand indices d sliceSizes) := by
  refine .bind stops_elementType fun _ _ => .bind stops_indexElementType fun _ _ => ?_
  refine .bind stops_requireLength fun _ hsizes => .bind stops_requireSliceSizes fun _ _ => ?_
  refine .bind stops_indexedAxes fun axes haxes => ?_
  refine .bind (.forM fun axis haxis => ?_) fun _ _ => ?_
  · have hlt := lt_of_requireLength hsizes (lt_of_indexedAxes haxes axis haxis)
    exact .bind (stops_entry hlt) fun _ _ => stops_require nofun
  · refine .bind (stops_mapM_entry ?_) fun _ _ => .bind stops_requireLength fun _ _ => ?_
    · exact fun a ha => lt_of_requireLength hsizes (lt_of_mem_windowAxes a ha)
    · refine .bind stops_sortedAxes fun _ _ => ?_
      split
      · exact stops_pure _
      · exact stops_error nofun

theorem scatter_stops {inputs updates : List Shape} {d : ScatterDimensions}
    {computation : Signature} :
    StopsOnlyFor allowed (scatter inputs indices updates d computation) := by
  cases inputs with
  | nil => exact stops_error nofun
  | cons input rest =>
    refine .bind (stops_require nofun) fun _ hcount => ?_
    have hcount : updates.length = rest.length + 1 := by simpa using require_eq_ok.mp hcount
    refine .bind (stops_entry (by omega)) fun _ _ => .bind (.mapM fun pair _ => ?_) fun _ _ => ?_
    · refine .bind stops_commonElementType fun _ _ => .bind (stops_require nofun) fun _ _ => ?_
      exact .bind (stops_require nofun) fun _ _ => stops_pure _
    · refine .bind stops_indexElementType fun _ _ => .bind stops_indexedAxes fun _ _ => ?_
      refine .bind (stops_mapM_entry lt_of_mem_windowAxes) fun _ _ => ?_
      refine .bind stops_requireLength fun _ _ => .bind (stops_require nofun) fun _ _ => ?_
      refine .bind stops_sortedAxes fun _ _ => .bind (stops_require nofun) fun _ _ => ?_
      exact .bind stops_requireCombinator fun _ _ => stops_pure _

theorem dynamicSlice_stops {starts : List Shape} {sliceSizes : List Nat} :
    StopsOnlyFor allowed (dynamicSlice operand starts sliceSizes) := by
  refine .bind stops_elementType fun _ _ => .bind stops_requireStarts fun _ _ => ?_
  refine .bind stops_requireLength fun _ _ => .bind stops_requireSliceSizes fun _ _ => ?_
  exact stops_pure _

theorem dynamicUpdateSlice_stops {update : Shape} {starts : List Shape} :
    StopsOnlyFor allowed (dynamicUpdateSlice operand update starts) := by
  refine .bind stops_commonElementType fun _ _ => .bind (stops_require nofun) fun _ _ => ?_
  exact .bind stops_requireStarts fun _ _ => stops_pure _

end IndexedAccess

/-! ## Reductions -/

section Reductions

variable {inputs initials : List Shape} {body : Signature}

theorem reduce_stops {axes : List Int} :
    StopsOnlyFor allowed (reduce inputs initials axes body) := by
  refine .bind stops_reducedElementTypes fun _ htypes => ?_
  refine .bind (stops_entry (length_pos_of_reducedElementTypes htypes)) fun _ _ => ?_
  refine .bind stops_normalizeAxes fun _ _ => .bind stops_requireCombinator fun _ _ => ?_
  exact stops_pure _

theorem reduceWindow_stops {window : Window}
    (hoverflow : ∀ operation, operation ≠ Arithmetic.divide → allowed (.overflow operation))
    (hstrides : ∀ stride ∈ window.strides, stride < Size.limit) :
    StopsOnlyFor allowed (reduceWindow inputs initials window body) := by
  refine .bind stops_reducedElementTypes fun _ htypes => ?_
  refine .bind (stops_entry (length_pos_of_reducedElementTypes htypes)) fun first _ => ?_
  refine .bind stops_requireLength fun _ hd => .bind stops_requireLength fun _ hs => ?_
  refine .bind stops_requireLength fun _ hb => .bind stops_requireLength fun _ hw => ?_
  refine .bind stops_requireLength fun _ hp => .bind stops_requireCombinator fun _ _ => ?_
  refine .bind (.mapM fun ⟨extent, axis⟩ hentry => ?_) fun _ _ => stops_pure _
  have hlt := lt_of_mem_zipIdx hentry
  refine .bind (stops_windowOnAxis (lt_of_requireLength hp hlt) (lt_of_requireLength hd hlt)
    (lt_of_requireLength hs hlt) (lt_of_requireLength hb hlt) (lt_of_requireLength hw hlt))
    fun _ ha => ?_
  exact stops_windowedExtent hoverflow (hstrides _ (stride_mem_of_windowOnAxis ha))

theorem argMinMax_stops {operand : Shape} {axis : Int} {positionType : ElementType} :
    StopsOnlyFor allowed (argMinMax operand axis positionType) := by
  refine .bind stops_elementType fun _ _ => .bind stops_requireCapabilities fun _ _ => ?_
  refine .bind (stops_require nofun) fun _ _ => .bind stops_requireClass fun _ _ => ?_
  refine .bind stops_normalizeAxis fun _ ha => ?_
  exact .bind (stops_entry (lt_of_normalizeAxis ha)) fun _ _ => stops_pure _

end Reductions

/-! ## Fourier transforms -/

section Fourier

theorem stops_transformedElementType {type : FftType} {t : ElementType} :
    StopsOnlyFor allowed (transformedElementType type t) := by
  unfold transformedElementType
  split
  · split_ifs
    · exact stops_pure _
    · exact stops_error nofun
  · split_ifs
    · exact stops_pure _
    · exact stops_error nofun
  · split
    · exact stops_pure _
    · exact stops_error nofun
  · split
    · exact stops_pure _
    · exact stops_error nofun

variable (hoverflow : allowed (.overflow .add))

include hoverflow

theorem stops_halfSpectrum {length : Nat} : StopsOnlyFor allowed (halfSpectrum length) :=
  .bind (stops_sizeDiv (Nat.succ_ne_zero 1)) fun _ _ => stops_sizeBounded hoverflow

theorem stops_expectedExtent {type : FftType} {isLast : Bool} {length : Nat} :
    StopsOnlyFor allowed (expectedExtent type isLast length) := by
  unfold expectedExtent
  split_ifs
  · exact stops_halfSpectrum hoverflow
  · exact stops_pure _

/-- There is a last length, and so there is a last axis. -/
theorem fft_stops {operand : Shape} {type : FftType} {lengths : List Nat} :
    StopsOnlyFor allowed (fft operand type lengths) := by
  refine .bind stops_elementType fun _ _ => .bind (stops_require nofun) fun _ hlengths => ?_
  refine .bind (stops_require nofun) fun _ hrank => ?_
  have hlengths : 0 < lengths.length := by
    have hlengths := require_eq_ok.mp hlengths
    simp only [Bool.and_eq_true, Bool.not_eq_true', List.isEmpty_eq_false_iff] at hlengths
    exact List.length_pos_of_ne_nil hlengths.1
  have hrank : lengths.length ≤ operand.rank := by simpa using require_eq_ok.mp hrank
  refine .bind stops_transformedElementType fun _ _ => ?_
  refine .bind (stops_sizeSub hlengths) fun last hl => ?_
  obtain rfl := eq_of_sizeSub hl
  refine .bind (stops_sizeSub hrank) fun _ _ => .bind (.forM fun _ _ => ?_) fun _ _ => ?_
  · exact .bind (stops_expectedExtent hoverflow) fun _ _ => stops_require nofun
  · refine .bind (stops_sizeSub (Nat.lt_of_lt_of_le hlengths hrank)) fun lastAxis ha => ?_
    obtain rfl := eq_of_sizeSub ha
    have hlast : lengths.length - 1 < lengths.length := by omega
    have haxis : operand.rank - 1 < operand.dimensions.length := by
      have : operand.rank = operand.dimensions.length := rfl
      omega
    have hreplace (extent : Nat) :
        StopsOnlyFor allowed (replaceEntry operand.dimensions (operand.rank - 1) extent) :=
      stops_replaceEntry haxis
    dsimp only
    split
    · exact .bind (stops_entry haxis) fun _ _ => .bind (hreplace _) fun _ _ => stops_pure _
    · exact .bind (stops_entry haxis) fun _ _ => .bind (hreplace _) fun _ _ => stops_pure _
    · refine .bind (stops_entry hlast) fun _ _ => .bind (stops_halfSpectrum hoverflow) fun _ _ => ?_
      exact .bind (hreplace _) fun _ _ => stops_pure _
    · exact .bind (stops_entry hlast) fun _ _ => .bind (hreplace _) fun _ _ => stops_pure _

end Fourier

/-! ## Contractions and convolutions -/

section Contraction

variable {lhs rhs : Shape}

theorem stops_dotAxesRequireDisjoint {parameter : String} {a : DotAxes} :
    StopsOnlyFor allowed (a.requireDisjoint parameter) := by
  unfold DotAxes.requireDisjoint
  split
  · exact stops_error nofun
  · exact stops_pure ()

theorem stops_requirePair {pair : Nat × Nat} (hlhs : pair.1 < lhs.rank) (hrhs : pair.2 < rhs.rank) :
    StopsOnlyFor allowed (requirePair lhs rhs pair) :=
  .bind (stops_entry hlhs) fun _ _ => .bind (stops_entry hrhs) fun _ _ => stops_require nofun

theorem dotGeneral_stops {d : DotDimensions} : StopsOnlyFor allowed (dotGeneral lhs rhs d) := by
  refine .bind stops_commonElementType fun _ _ => .bind stops_normalizeAxes fun lb hlb => ?_
  refine .bind stops_normalizeAxes fun rb hrb => .bind stops_normalizeAxes fun lc hlc => ?_
  refine .bind stops_normalizeAxes fun rc hrc => .bind stops_requireLength fun _ _ => ?_
  refine .bind stops_requireLength fun _ _ => .bind stops_dotAxesRequireDisjoint fun _ _ => ?_
  refine .bind stops_dotAxesRequireDisjoint fun _ _ => ?_
  refine .bind (.forM fun pair hpair => ?_) fun _ _ => ?_
  · rcases List.mem_append.mp hpair with hbatching | hcontracting
    · obtain ⟨hl, hr⟩ := List.of_mem_zip hbatching
      exact stops_requirePair (lt_of_normalizeAxes hlb _ hl) (lt_of_normalizeAxes hrb _ hr)
    · obtain ⟨hl, hr⟩ := List.of_mem_zip hcontracting
      exact stops_requirePair (lt_of_normalizeAxes hlc _ hl) (lt_of_normalizeAxes hrc _ hr)
  · exact .bind (stops_mapM_entry (lt_of_normalizeAxes hlb)) fun _ _ => stops_pure _

/-- The lists of a convolution have an entry for every spatial axis, and the output keeps its
rank while its extents are filled in. -/
theorem convolution_stops {c : ConvolutionConfiguration}
    (hoverflow : ∀ operation, operation ≠ Arithmetic.divide → allowed (.overflow operation))
    (hstrides : ∀ stride ∈ c.windowStrides, stride < Size.limit) :
    StopsOnlyFor allowed (convolution lhs rhs c) := by
  refine .bind stops_commonElementType fun _ _ => .bind stops_requireCapabilities fun _ _ => ?_
  refine .bind (stops_require nofun) fun _ hrank => .bind (stops_require nofun) fun _ hrhs => ?_
  have hrank : 2 ≤ lhs.rank := by simpa using require_eq_ok.mp hrank
  have hrhs : rhs.rank = lhs.rank := by simpa using require_eq_ok.mp hrhs
  refine .bind (stops_sizeSub hrank) fun spatialRank hspatial => ?_
  obtain rfl := eq_of_sizeSub hspatial
  refine .bind (stops_axisRoles hrank) fun input hinput => ?_
  refine .bind (stops_axisRoles hrank) fun kernel hkernel => ?_
  refine .bind (stops_axisRoles hrank) fun output houtput => ?_
  refine .bind stops_requireLength fun _ hs => .bind stops_requireLength fun _ hp => ?_
  refine .bind stops_requireLength fun _ hl => .bind stops_requireLength fun _ hr => ?_
  have haxes : SpatialAxes lhs rhs c input kernel output :=
    ⟨hrhs, .of_axisRoles hinput, .of_axisRoles hkernel, .of_axisRoles houtput,
      length_of_requireLength hs, length_of_requireLength hp, length_of_requireLength hl,
      length_of_requireLength hr⟩
  have hkernel : kernel.Within rhs.rank := hrhs ▸ haxes.hkernel
  refine .bind stops_requireGroupCounts fun _ hcounts => ?_
  obtain ⟨hfeature, hbatch⟩ := ne_zero_of_requireGroupCounts hcounts
  refine .bind (stops_requireGroups haxes.hinput hkernel hfeature hbatch) fun _ _ => ?_
  refine .bind (stops_entry haxes.hinput.hbatch) fun _ _ => ?_
  refine .bind (stops_sizeDiv hbatch) fun _ _ => ?_
  have hreplicate : (List.replicate lhs.rank 0).length = lhs.rank := List.length_replicate
  have hbatchAxis := Nat.lt_of_lt_of_eq haxes.houtput.hbatch hreplicate.symm
  refine .bind (stops_replaceEntry hbatchAxis) fun batched hb => ?_
  have hbatched : batched.length = lhs.rank := (length_of_replaceEntry hb).trans hreplicate
  refine .bind (stops_entry hkernel.hfeature) fun _ _ => ?_
  have hfeatureAxis := Nat.lt_of_lt_of_eq haxes.houtput.hfeature hbatched.symm
  refine .bind (stops_replaceEntry hfeatureAxis) fun featured hf => ?_
  have hfeatured : featured.length = lhs.rank := (length_of_replaceEntry hf).trans hbatched
  refine .bind (.foldlM (P := fun extents => extents.length = lhs.rank) ?_ ?_ hfeatured)
    fun _ _ => stops_pure _
  · intro extents hlength position hposition
    exact stops_addSpatialExtent hoverflow haxes hstrides hlength (List.mem_range.mp hposition)
  · intro extents hlength position extents' hstep
    exact (length_of_addSpatialExtent hstep).trans hlength

end Contraction

/-! ## Collectives -/

section Collectives

variable {operand : Shape} {operands : List Shape} {groups : List (List Int)}

theorem allReduce_stops {computation : Signature} :
    StopsOnlyFor allowed (allReduce operands groups computation) := by
  refine .bind stops_operandElementTypes fun _ _ => .bind stops_replicaGroupSize fun _ _ => ?_
  exact .bind stops_requireCombinator fun _ _ => stops_pure _

theorem collectivePermute_stops {pairs : List (Int × Int)} :
    StopsOnlyFor allowed (collectivePermute operand pairs) := by
  refine .bind stops_elementType fun _ _ => .bind (stops_require nofun) fun _ _ => ?_
  refine .bind (.foldlM_of_forall (fun _ _ => ?_) ([], [])) fun _ _ => stops_pure _
  exact .bind (stops_require nofun) fun _ _ => .bind (stops_require nofun) fun _ _ => stops_pure _

theorem collectiveBroadcast_stops : StopsOnlyFor allowed (collectiveBroadcast operand groups) :=
  .bind stops_elementType fun _ _ => .bind stops_replicaGroupSize fun _ _ => stops_pure _

variable (hoverflow : allowed (.overflow .multiply))

include hoverflow

theorem allGather_stops {axis : Int} : StopsOnlyFor allowed (allGather operands axis groups) := by
  refine .bind stops_operandElementTypes fun _ _ => .bind stops_replicaGroupSize fun _ _ => ?_
  exact .mapM fun _ _ => stops_gatheredShape hoverflow

/-- The number of parts has been found to be no zero. -/
theorem allToAll_stops {splitAxis concatAxis : Int} {count : Nat} :
    StopsOnlyFor allowed (allToAll operands splitAxis concatAxis count groups) := by
  refine .bind stops_operandElementTypes fun _ _ => .bind stops_replicaGroupSize fun _ _ => ?_
  refine .bind (stops_require nofun) fun _ hcount => .mapM fun _ _ => ?_
  have hcount := require_eq_ok.mp hcount
  simp only [Bool.and_eq_true, bne_iff_ne] at hcount
  exact stops_exchangedShape hoverflow hcount.1

end Collectives

/-! ## Generated tensors -/

section Generation

variable {s : Shape}

theorem iota_stops {axis : Int} : StopsOnlyFor allowed (iota s axis) := by
  refine .bind stops_elementType fun _ _ => .bind stops_requireCapabilities fun _ _ => ?_
  refine .bind (stops_require nofun) fun _ _ => .bind stops_normalizeAxis fun _ _ => ?_
  exact stops_pure _

theorem rngBitGenerator_stops {initialState : Shape} :
    StopsOnlyFor allowed (rngBitGenerator initialState s) := by
  refine .bind stops_elementType fun _ _ => .bind stops_requireClass fun _ _ => ?_
  refine .bind (stops_require nofun) fun _ _ => .bind stops_elementType fun _ _ => ?_
  exact .bind stops_requireClass fun _ _ => stops_pure _

theorem customCall_stops {inputs outputs : List Shape} :
    StopsOnlyFor allowed (customCall inputs outputs) := by
  refine .bind (.forM fun _ _ => ?_) fun _ _ => stops_pure _
  exact .bind stops_elementType fun _ _ => stops_pure ()

end Generation

end Inference

/-! ## Operations -/

namespace Fault

/-- An overflow that no division has caused. -/
def IsOverflow (fault : Fault) : Prop :=
  ∃ operation, operation ≠ Arithmetic.divide ∧ fault = overflow operation

theorem isOverflow_add : (overflow .add).IsOverflow :=
  ⟨.add, by decide, rfl⟩

theorem isOverflow_multiply : (overflow .multiply).IsOverflow :=
  ⟨.multiply, by decide, rfl⟩

end Fault

namespace Operation

open Inference

/-- Whether the rule of the operation adds or multiplies sizes. -/
def computesSizes {ω κ : Type} : Operation ω κ → Bool
  | reshape .. => true
  | slice .. => true
  | concatenate .. => true
  | pad .. => true
  | reduceWindow .. => true
  | fft .. => true
  | convolution .. => true
  | allGather .. => true
  | allToAll .. => true
  | _ => false

/-- The strides that the operation divides by. -/
def windowStrides {ω κ : Type} : Operation ω κ → List Nat
  | reduceWindow _ _ window _ => window.strides
  | convolution _ _ c => c.windowStrides
  | _ => []

theorem stops_one {allowed : Fault → Prop} {x : Check Shape} (h : StopsOnlyFor allowed x) :
    StopsOnlyFor allowed (one x) := by
  intro fault hfault
  cases x with
  | ok s => cases hfault
  | error cause => exact h fault (by simpa [one, Except.map] using hfault)

/-- The only fault of an operation is an overflow where sizes are computed. -/
theorem outputs_stops {o : Operation Shape Signature}
    (hstrides : ∀ stride ∈ o.windowStrides, stride < Size.limit) :
    StopsOnlyFor (fun fault => fault.IsOverflow ∧ o.computesSizes = true) o.outputs := by
  have hoverflow (h : o.computesSizes = true) (operation : Arithmetic) (hne : operation ≠ .divide) :
      (Fault.overflow operation).IsOverflow ∧ o.computesSizes = true :=
    ⟨⟨operation, hne, rfl⟩, h⟩
  cases o with
  | unary op operand => exact stops_one unary_stops
  | binary op lhs rhs => exact stops_one binary_stops
  | compare lhs rhs direction type? => exact stops_one compare_stops
  | select predicate onTrue onFalse => exact stops_one select_stops
  | clamp min operand max => exact stops_one clamp_stops
  | convert operand target => exact stops_one convert_stops
  | bitcastConvert operand target => exact stops_one bitcastConvert_stops
  | reducePrecision operand exponentBits mantissaBits => exact stops_one reducePrecision_stops
  | broadcastInDim operand dimensions axes => exact stops_one broadcastInDim_stops
  | reshape operand dimensions => exact stops_one (reshape_stops ⟨Fault.isOverflow_multiply, rfl⟩)
  | transpose operand permutation => exact stops_one transpose_stops
  | slice operand starts limits strides => exact stops_one (slice_stops (hoverflow rfl))
  | concatenate inputs axis => exact stops_one (concatenate_stops ⟨Fault.isOverflow_add, rfl⟩)
  | pad operand paddingValue low high interior => exact stops_one (pad_stops (hoverflow rfl))
  | gather operand indices d sliceSizes => exact stops_one gather_stops
  | scatter inputs indices updates d computation => exact scatter_stops
  | dynamicSlice operand starts sliceSizes => exact stops_one dynamicSlice_stops
  | dynamicUpdateSlice operand update starts => exact stops_one dynamicUpdateSlice_stops
  | reduce inputs initials axes body => exact reduce_stops
  | reduceWindow inputs initials window body => exact reduceWindow_stops (hoverflow rfl) hstrides
  | fft operand type lengths => exact stops_one (fft_stops ⟨Fault.isOverflow_add, rfl⟩)
  | dotGeneral lhs rhs d => exact stops_one dotGeneral_stops
  | convolution lhs rhs c => exact stops_one (convolution_stops (hoverflow rfl) hstrides)
  | allGather operands axis groups => exact allGather_stops ⟨Fault.isOverflow_multiply, rfl⟩
  | allToAll operands splitAxis concatAxis count groups =>
    exact allToAll_stops ⟨Fault.isOverflow_multiply, rfl⟩
  | allReduce operands groups computation => exact allReduce_stops
  | collectivePermute operand pairs => exact stops_one collectivePermute_stops
  | collectiveBroadcast operand groups => exact stops_one collectiveBroadcast_stops
  | constant literal => exact stops_pure _
  | iota shape axis => exact stops_one iota_stops
  | rngBitGenerator initialState shape algorithm => exact rngBitGenerator_stops
  | customCall target inputs outputs hasSideEffect attributes => exact customCall_stops

theorem infer_eq_error {o : Operation Shape Signature} {e : ShapeError} :
    o.infer = .error e ↔ ∃ cause, o.outputs = .error cause ∧ e = ⟨o.kind, cause⟩ := by
  unfold infer
  cases o.outputs with
  | ok outputs => simp [Except.mapError]
  | error cause => simp [Except.mapError, eq_comm]

/-- No operation, and no search for an extreme element, reads past the end of a list, divides
by zero or takes a size from a smaller one: the only faults are overflows.  A stride is a size, and
its bits are zero as an offset only when it is out of the range of sizes. -/
theorem infer_guarded :
    (∀ o : Operation Shape Signature, (∀ stride ∈ o.windowStrides, stride < Size.limit) →
      ∀ e fault, o.infer = .error e → e.cause = .fault fault →
        fault.IsOverflow ∧ o.computesSizes = true) ∧
      ∀ operand axis positionType fault,
        argMinMax operand axis positionType ≠ .error (.fault fault) := by
  constructor
  · intro o hstrides e fault he hfault
    obtain ⟨cause, hcause, rfl⟩ := infer_eq_error.mp he
    obtain rfl : cause = .fault fault := hfault
    exact outputs_stops hstrides fault hcause
  · intro operand axis positionType fault h
    have hstops : StopsOnlyFor (fun _ => False) (argMinMax operand axis positionType) :=
      argMinMax_stops
    exact hstops fault h

/-- A window over four elements that are padded beyond the range of offsets. -/
def paddedBeyondLimit : Operation Shape Signature :=
  .reduceWindow [.of (.real .f32) [4]] [.scalar (.real .f32)]
    { Window.unit [2] with padding := [(0x7fffffffffffffff, 0)] }
    ⟨[.scalar (.real .f32), .scalar (.real .f32)], [.scalar (.real .f32)]⟩

theorem infer_guarded_padded :
    (∀ stride ∈ paddedBeyondLimit.windowStrides, stride < Size.limit) ∧
      paddedBeyondLimit.infer = .error ⟨.reduceWindow, .fault (.overflow .add)⟩ ∧
      (Fault.overflow .add).IsOverflow ∧ paddedBeyondLimit.computesSizes = true := by
  have hstrides : ∀ stride ∈ paddedBeyondLimit.windowStrides, stride < Size.limit := by decide
  have hinfer : paddedBeyondLimit.infer = .error ⟨.reduceWindow, .fault (.overflow .add)⟩ := by
    decide
  exact ⟨hstrides, hinfer, infer_guarded.1 paddedBeyondLimit hstrides _ _ hinfer rfl⟩

end Operation

end TensorProgram
