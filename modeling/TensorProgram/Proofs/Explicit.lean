import TensorProgram.Proofs.Axes

/-!
# Explicit operations

An operation that is recorded has its axes counted from the front, each with regard to the
rank of its own tensor: `Operation.axisRanks` pairs them up.  `Operation.infer_explicit` says
that the recorded operation has the results that the original one has.

Each rule has a lemma that puts the axes from the front into the place of those given.
-/

namespace TensorProgram

namespace Inference

/-! ## Layout -/

section Layout

variable {operand s : Shape}

theorem broadcastInDim_fromFront {dimensions : List Nat} {axes : List Int}
    (h : broadcastInDim operand dimensions axes = .ok s) :
    broadcastInDim operand dimensions (axes.map (fromFront · dimensions.length)) = .ok s ∧
      InRange (axes.map (fromFront · dimensions.length)) s.rank := by
  simp only [broadcastInDim, bind_eq_ok, pure_eq_ok, Except.ok.injEq] at h ⊢
  obtain ⟨t, ht, _, hrank, _, hlength, as, has, _, hextents, rfl⟩ := h
  refine ⟨⟨t, ht, (), hrank, (), ?_, as, normalizeAxes_fromFront has, (), hextents, rfl⟩,
    InRange.of_normalizeAxes has⟩
  rwa [List.length_map]

theorem transpose_fromFront {permutation : List Int} (h : transpose operand permutation = .ok s) :
    transpose operand (permutation.map (fromFront · operand.rank)) = .ok s ∧
      InRange (permutation.map (fromFront · operand.rank)) operand.rank := by
  simp only [transpose, bind_eq_ok] at h ⊢
  obtain ⟨t, ht, _, hlength, as, has, hrest⟩ := h
  refine ⟨⟨t, ht, (), ?_, as, normalizeAxes_fromFront has, hrest⟩, .of_normalizeAxes has⟩
  rwa [List.length_map]

end Layout

section Concatenation

variable {first : Shape} {axis total n : Nat}

theorem rank_of_addInput {input : Shape} (h : addInput first axis total input = .ok n) :
    input.rank = first.rank := by
  simp only [addInput, bind_eq_ok, require_eq_ok] at h
  obtain ⟨_, _, _, hagree, _⟩ := h
  simp only [agreeExcept, Bool.and_eq_true, beq_iff_eq] at hagree
  exact hagree.1

/-- All inputs of a concatenation have the rank of the first one. -/
theorem rank_of_foldlM_addInput {rest : List Shape}
    (h : rest.foldlM (addInput first axis) total = .ok n) :
    ∀ input ∈ rest, input.rank = first.rank := by
  induction rest generalizing total with
  | nil => exact fun input hinput => nomatch hinput
  | cons input rest ih =>
    obtain ⟨total', hadd, hrest⟩ := bind_eq_ok.mp h
    intro other hother
    rcases List.mem_cons.mp hother with rfl | hother
    · exact rank_of_addInput hadd
    · exact ih hrest other hother

theorem concatenate_fromFront {inputs : List Shape} {axis : Int} {s : Shape}
    (h : concatenate inputs axis = .ok s) :
    concatenate inputs (fromFront axis s.rank) = .ok s ∧
      ∀ input ∈ inputs, InRange [fromFront axis s.rank] input.rank := by
  cases inputs with
  | nil => cases h
  | cons first rest =>
    simp only [concatenate, bind_eq_ok, pure_eq_ok, Except.ok.injEq] at h ⊢
    obtain ⟨t, ht, _, hscalar, a, ha, extent, hextent, total, htotal, dimensions, hdimensions,
      rfl⟩ := h
    have hrank : (Shape.of t dimensions).rank = first.rank := length_of_replaceEntry hdimensions
    rw [hrank]
    refine ⟨⟨t, ht, (), hscalar, a, normalizeAxis_fromFront ha, extent, hextent, total, htotal,
      dimensions, hdimensions, rfl⟩, ?_⟩
    intro input hinput
    have hinput : input.rank = first.rank := by
      rcases List.mem_cons.mp hinput with rfl | hinput
      · rfl
      · exact rank_of_foldlM_addInput htotal input hinput
    rw [hinput]
    exact .of_normalizeAxis ha

end Concatenation

/-! ## Generation -/

theorem iota_fromFront {s s' : Shape} {axis : Int} (h : iota s axis = .ok s') :
    iota s (fromFront axis s.rank) = .ok s' ∧ InRange [fromFront axis s.rank] s.rank := by
  simp only [iota, bind_eq_ok] at h ⊢
  obtain ⟨t, ht, _, hcapabilities, _, hscalar, a, ha, hs⟩ := h
  exact ⟨⟨t, ht, (), hcapabilities, (), hscalar, a, normalizeAxis_fromFront ha, hs⟩,
    .of_normalizeAxis ha⟩

/-! ## Reduction -/

/-- All inputs of a reduction have the dimensions of the first one. -/
theorem dimensions_of_reducedElementTypes {first : Shape} {rest initials : List Shape}
    {types : List ElementType} (h : reducedElementTypes (first :: rest) initials = .ok types) :
    ∀ input ∈ first :: rest, input.dimensions = first.dimensions := by
  simp only [reducedElementTypes, bind_eq_ok, require_eq_ok, beq_iff_eq] at h
  obtain ⟨_, hlength, htypes⟩ := h
  rw [← List.map_fst_zip (Nat.le_of_eq hlength.symm)]
  refine List.forall_mem_map.mpr fun pair hpair => ?_
  obtain ⟨t, ht⟩ := exists_ok_of_mem htypes hpair
  simp only [reducedElementType, bind_eq_ok, require_eq_ok, beq_iff_eq] at ht
  obtain ⟨_, _, _, hdimensions, _⟩ := ht
  exact hdimensions

theorem reduce_fromFront {inputs initials : List Shape} {axes : List Int} {body : Signature}
    {outputs : List Shape} (h : reduce inputs initials axes body = .ok outputs) :
    reduce inputs initials (axes.map (fromFront · (Operation.firstRank inputs))) body =
        .ok outputs ∧
      ∀ input ∈ inputs,
        InRange (axes.map (fromFront · (Operation.firstRank inputs))) input.rank := by
  cases inputs with
  | nil =>
    obtain ⟨_, htypes, _⟩ := bind_eq_ok.mp h
    cases htypes
  | cons first rest =>
    simp only [reduce, bind_eq_ok, entry_eq_ok, List.getElem?_cons_zero, Option.some.injEq] at h ⊢
    obtain ⟨types, htypes, _, rfl, as, has, hrest⟩ := h
    refine ⟨⟨types, htypes, first, rfl, as, normalizeAxes_fromFront has, hrest⟩, ?_⟩
    intro input hinput
    have hrank : input.rank = first.rank :=
      congrArg List.length (dimensions_of_reducedElementTypes htypes input hinput)
    rw [hrank]
    exact .of_normalizeAxes has

/-- The extreme element is looked for along an axis of the operand. -/
theorem argMinMax_fromFront {s r : Shape} {axis : Int} {positionType : ElementType}
    (h : argMinMax s axis positionType = .ok r) :
    argMinMax s (fromFront axis s.rank) positionType = .ok r ∧
      InRange [fromFront axis s.rank] s.rank := by
  simp only [argMinMax, bind_eq_ok] at h ⊢
  obtain ⟨t, ht, _, hcapabilities, _, hscalar, _, hinteger, a, ha, hrest⟩ := h
  exact ⟨⟨t, ht, (), hcapabilities, (), hscalar, (), hinteger, a, normalizeAxis_fromFront ha,
    hrest⟩, .of_normalizeAxis ha⟩

/-- The results of a reduction keep the element types of the inputs. -/
theorem reduce_outputs {first : Shape} {rest initials outputs : List Shape} {axes : List Int}
    {body : Signature} (h : reduce (first :: rest) initials axes body = .ok outputs) :
    ∃ types as, (first :: rest).mapM elementType = .ok types ∧
      normalizeAxes "dimensions" axes first.rank = .ok as ∧
      outputs = types.map (.of · (extentsExcept first.dimensions as)) := by
  simp only [reduce, bind_eq_ok, entry_eq_ok, List.getElem?_cons_zero, Option.some.injEq,
    pure_eq_ok, Except.ok.injEq] at h
  obtain ⟨types, htypes, _, rfl, as, has, _, _, rfl⟩ := h
  refine ⟨types, as, ?_, has, rfl⟩
  simp only [reducedElementTypes, bind_eq_ok, require_eq_ok, beq_iff_eq] at htypes
  obtain ⟨_, hlength, htypes⟩ := htypes
  rw [← List.map_fst_zip (Nat.le_of_eq hlength.symm), mapM_eq_ok, List.forall₂_map_left_iff]
  refine (mapM_eq_ok.mp htypes).imp fun pair t hpair => ?_
  simp only [reducedElementType, bind_eq_ok, pure_eq_ok, Except.ok.injEq] at hpair
  obtain ⟨u, hu, _, _, _, _, _, _, rfl⟩ := hpair
  exact hu

/-! ## Contraction -/

theorem dotGeneral_fromFront {lhs rhs s : Shape} {d : DotDimensions}
    (h : dotGeneral lhs rhs d = .ok s) :
    let e := d.fromFront lhs.rank rhs.rank
    dotGeneral lhs rhs e = .ok s ∧ InRange e.lhsBatching lhs.rank ∧
      InRange e.rhsBatching rhs.rank ∧ InRange e.lhsContracting lhs.rank ∧
      InRange e.rhsContracting rhs.rank := by
  simp only [dotGeneral, DotDimensions.fromFront, bind_eq_ok] at h ⊢
  obtain ⟨t, ht, lb, hlb, rb, hrb, lc, hlc, rc, hrc, hrest⟩ := h
  exact ⟨⟨t, ht, lb, normalizeAxes_fromFront hlb, rb, normalizeAxes_fromFront hrb, lc,
    normalizeAxes_fromFront hlc, rc, normalizeAxes_fromFront hrc, hrest⟩, .of_normalizeAxes hlb,
    .of_normalizeAxes hrb, .of_normalizeAxes hlc, .of_normalizeAxes hrc⟩

/-! ## Indexed access -/

/-- The access with its axes counted from the front. -/
def IndexedAccess.fromFront (a : IndexedAccess) (operandRank indicesRank : Nat) :
    IndexedAccess where
  dropped := ⟨a.dropped.parameter, a.dropped.axes.map (Inference.fromFront · operandRank)⟩
  batching := ⟨a.batching.parameter, a.batching.axes.map (Inference.fromFront · operandRank)⟩
  indicesBatching :=
    ⟨a.indicesBatching.parameter, a.indicesBatching.axes.map (Inference.fromFront · indicesRank)⟩
  indexMap := ⟨a.indexMap.parameter, a.indexMap.axes.map (Inference.fromFront · operandRank)⟩
  indexVector := Inference.fromFront a.indexVector (indicesRank + 1)

/-- Every axis of the access with the rank that it refers to. -/
def IndexedAccess.axisRanks (a : IndexedAccess) (operandRank indicesRank : Nat) :
    List (List Int × Nat) :=
  [(a.dropped.axes, operandRank), (a.batching.axes, operandRank),
    (a.indicesBatching.axes, indicesRank), (a.indexMap.axes, operandRank),
    ([a.indexVector], indicesRank + 1)]

theorem indexedAxes_fromFront {operand indices : Shape} {access : IndexedAccess}
    {axes : IndexedAxes} (h : indexedAxes operand indices access = .ok axes) :
    let e := access.fromFront operand.rank indices.rank
    indexedAxes operand indices e = .ok axes ∧
      ∀ entry ∈ e.axisRanks operand.rank indices.rank, InRange entry.1 entry.2 := by
  simp only [indexedAxes, IndexedAccess.fromFront, bind_eq_ok] at h ⊢
  obtain ⟨v, hv, ds, hds, bs, hbs, _, hdisjoint, is, his, _, hcount, _, hpairs, _, hlength, ms, hms,
    hrest⟩ := h
  refine ⟨⟨v, normalizeAxis_fromFront hv, ds, normalizeAxes_fromFront hds, bs,
    normalizeAxes_fromFront hbs, (), hdisjoint, is, normalizeAxes_fromFront his, (), hcount, (),
    hpairs, (), ?_, ms, normalizeAxes_fromFront hms, hrest⟩, ?_⟩
  · rwa [List.length_map]
  · simp only [IndexedAccess.axisRanks, List.forall_mem_cons]
    exact ⟨.of_normalizeAxes hds, .of_normalizeAxes hbs, .of_normalizeAxes his,
      .of_normalizeAxes hms, .of_normalizeAxis hv, fun _ h => nomatch h⟩

theorem length_of_interleave? {windowAxes axes window batch extents : List Nat}
    (h : interleave? windowAxes axes window batch = some extents) :
    extents.length = axes.length := by
  induction axes generalizing window batch extents with
  | nil =>
    obtain rfl : [] = extents := by simpa [interleave?] using h
    rfl
  | cons axis axes ih =>
    simp only [interleave?] at h
    split_ifs at h
    · cases window with
      | nil => cases h
      | cons extent window =>
        obtain ⟨rest, hrest, rfl⟩ := Option.map_eq_some_iff.mp h
        rw [List.length_cons, List.length_cons, ih hrest]
    · cases batch with
      | nil => cases h
      | cons extent batch =>
        obtain ⟨rest, hrest, rfl⟩ := Option.map_eq_some_iff.mp h
        rw [List.length_cons, List.length_cons, ih hrest]

theorem gather_fromFront {operand indices s : Shape} {d : GatherDimensions}
    {sliceSizes : List Nat} (h : gather operand indices d sliceSizes = .ok s) :
    let e := d.fromFront operand.rank indices.rank s.rank
    gather operand indices e sliceSizes = .ok s ∧ InRange e.offset s.rank ∧
      ∀ entry ∈ (GatherAccess.ofGather e).axisRanks operand.rank indices.rank,
        InRange entry.1 entry.2 := by
  simp only [gather, bind_eq_ok] at h ⊢
  obtain ⟨t, ht, _, hindices, _, hlength, _, hsizes, axes, haxes, _, hunits, window, hwindow, _,
    hoffset, offset, hsorted, hrest⟩ := h
  obtain ⟨haxes, hrange⟩ := indexedAxes_fromFront haxes
  cases hextents : interleave? offset (List.range (axes.batchExtents.length + window.length)) window
      axes.batchExtents with
  | none => simp [hextents] at hrest
  | some dimensions =>
    obtain rfl : Shape.of t dimensions = s := by simpa [hextents] using hrest
    -- the output has as many axes as were placed
    have hrank : (Shape.of t dimensions).rank = axes.batchExtents.length + window.length := by
      have := length_of_interleave? hextents
      rwa [List.length_range] at this
    rw [hrank]
    refine ⟨⟨t, ht, _, hindices, (), hlength, (), hsizes, axes, haxes, (), hunits, window, hwindow,
      (), ?_, offset, sortedAxes_fromFront hsorted, hrest⟩, .of_sortedAxes hsorted, hrange⟩
    simpa [GatherDimensions.fromFront] using hoffset

/-- All inputs of a scatter have the dimensions of the first one, and so have all updates. -/
theorem dimensions_of_scatterElementType {inputs updates : List Shape} {input update : Shape}
    {types : List ElementType} (hlength : updates.length = inputs.length)
    (h : (inputs.zip updates).mapM (scatterElementType input update) = .ok types) :
    (∀ s ∈ inputs, s.dimensions = input.dimensions) ∧
      ∀ s ∈ updates, s.dimensions = update.dimensions := by
  have hpair : ∀ pair ∈ inputs.zip updates,
      pair.1.dimensions = input.dimensions ∧ pair.2.dimensions = update.dimensions := by
    intro pair hpair
    obtain ⟨t, ht⟩ := exists_ok_of_mem h hpair
    simp only [scatterElementType, bind_eq_ok, require_eq_ok, beq_iff_eq] at ht
    obtain ⟨_, _, _, hinput, _, hupdate, _⟩ := ht
    exact ⟨hinput, hupdate⟩
  constructor
  · rw [← List.map_fst_zip (Nat.le_of_eq hlength.symm)]
    exact List.forall_mem_map.mpr fun pair h => (hpair pair h).1
  · rw [← List.map_snd_zip (Nat.le_of_eq hlength)]
    exact List.forall_mem_map.mpr fun pair h => (hpair pair h).2

theorem scatter_fromFront {inputs updates outputs : List Shape} {indices : Shape}
    {d : ScatterDimensions} {computation : Signature}
    (h : scatter inputs indices updates d computation = .ok outputs) :
    let e := d.fromFront (Operation.firstRank inputs) indices.rank (Operation.firstRank updates)
    scatter inputs indices updates e computation = .ok outputs ∧
      (∀ update ∈ updates, InRange e.updateWindow update.rank) ∧
      ∀ input ∈ inputs, ∀ entry ∈ (GatherAccess.ofScatter e).axisRanks input.rank indices.rank,
        InRange entry.1 entry.2 := by
  cases inputs with
  | nil => cases h
  | cons input rest =>
    simp only [scatter, bind_eq_ok, require_eq_ok, beq_iff_eq, entry_eq_ok] at h ⊢
    obtain ⟨_, hlength, update, hupdate, types, htypes, _, hindices, axes, haxes, bounds, hbounds,
      _, hwindow, _, hrank, window, hsorted, hrest⟩ := h
    obtain ⟨haxes, hrange⟩ := indexedAxes_fromFront haxes
    obtain ⟨hinputs, hupdates⟩ := dimensions_of_scatterElementType hlength htypes
    have hfirst : Operation.firstRank updates = update.rank := by
      rw [Operation.firstRank, List.head?_eq_getElem?, hupdate, Option.map_some, Option.getD_some]
    rw [hfirst]
    refine ⟨⟨(), hlength, update, hupdate, types, htypes, _, hindices, axes, haxes, bounds, hbounds,
      (), ?_, (), hrank, window, sortedAxes_fromFront hsorted, hrest⟩, ?_, ?_⟩
    · simpa [ScatterDimensions.fromFront] using hwindow
    · intro s hs
      have hs : s.rank = update.rank := congrArg List.length (hupdates s hs)
      rw [hs]
      exact .of_sortedAxes hsorted
    · intro s hs
      have hs : s.rank = input.rank := congrArg List.length (hinputs s hs)
      rw [hs]
      exact hrange

/-! ## Convolution -/

end Inference

/-- All axes of a layout. -/
def ConvolutionLayout.axes (l : ConvolutionLayout) : List Int :=
  l.batch :: l.feature :: l.spatial

namespace Inference

theorem axisRoles_fromFront {parameter : String} {rank : Nat} {l : ConvolutionLayout}
    {roles : AxisRoles} (h : axisRoles parameter rank l = .ok roles) :
    axisRoles parameter rank (l.fromFront rank) = .ok roles ∧
      InRange (l.fromFront rank).axes rank := by
  simp only [axisRoles, bind_eq_ok] at h ⊢
  obtain ⟨spatialRank, hspatial, _, hlength, as, has, hrest⟩ := h
  refine ⟨⟨spatialRank, hspatial, (), ?_, as, normalizeAxes_fromFront has, hrest⟩,
    InRange.of_normalizeAxes has⟩
  simpa [ConvolutionLayout.fromFront] using hlength

theorem length_of_addSpatialExtent {lhs rhs : Shape} {c : ConvolutionConfiguration}
    {input kernel output : AxisRoles} {dimensions extents : List Nat} {position : Nat}
    (h : addSpatialExtent lhs rhs c input kernel output dimensions position = .ok extents) :
    extents.length = dimensions.length := by
  simp only [addSpatialExtent, bind_eq_ok] at h
  obtain ⟨_, _, _, _, _, _, _, _, _, _, _, _, _, _, _, _, _, _, _, _, hreplace⟩ := h
  exact length_of_replaceEntry hreplace

theorem convolution_fromFront {lhs rhs s : Shape} {c : ConvolutionConfiguration}
    (h : convolution lhs rhs c = .ok s) :
    let e : ConvolutionConfiguration := { c with dimensions := c.dimensions.fromFront lhs.rank }
    convolution lhs rhs e = .ok s ∧ InRange e.dimensions.input.axes lhs.rank ∧
      InRange e.dimensions.kernel.axes rhs.rank ∧ InRange e.dimensions.output.axes s.rank := by
  simp only [convolution, bind_eq_ok] at h ⊢
  obtain ⟨t, ht, _, hcapabilities, _, hrank, _, hrhs, spatialRank, hspatial, input, hinput, kernel,
    hkernel, output, houtput, hrest⟩ := h
  obtain ⟨hinput, hinputRange⟩ := axisRoles_fromFront hinput
  obtain ⟨hkernel, hkernelRange⟩ := axisRoles_fromFront hkernel
  obtain ⟨houtput, houtputRange⟩ := axisRoles_fromFront houtput
  refine ⟨⟨t, ht, (), hcapabilities, (), hrank, (), hrhs, spatialRank, hspatial, input, hinput,
    kernel, hkernel, output, houtput, hrest⟩, hinputRange, ?_, ?_⟩
  · have hrhs : rhs.rank = lhs.rank := by simpa using require_eq_ok.mp hrhs
    rw [hrhs]
    exact hkernelRange
  · have hs : s.rank = lhs.rank := by
      obtain ⟨_, _, _, _, _, _, _, _, _, _, _, _, _, _, _, _, batched, hbatch, _, _, featured,
        hfeature, dimensions, hspatial, hs⟩ := hrest
      obtain rfl : Shape.of t dimensions = s := by simpa using hs
      have hkeep : dimensions.length = featured.length :=
        foldlM_invariant (P := fun extents => extents.length = featured.length)
          (fun _ _ _ hlength hstep => (length_of_addSpatialExtent hstep).trans hlength) hspatial rfl
      have hreplicate := (length_of_replaceEntry hfeature).trans (length_of_replaceEntry hbatch)
      rw [List.length_replicate] at hreplicate
      exact hkeep.trans hreplicate
    rw [hs]
    exact houtputRange

/-! ## Comparison -/

/-- The comparison type that is filled in is the one that inference uses. -/
theorem compare_explicit {lhs rhs s : Shape} {direction : ComparisonDirection}
    {type? : Option ComparisonType} (h : compare lhs rhs direction type? = .ok s) :
    compare lhs rhs direction
      (some (type?.getD ((lhs.elementType?.map ComparisonType.defaultFor).getD .float))) =
        .ok s := by
  simp only [compare, bind_eq_ok] at h ⊢
  obtain ⟨t, ht, hrest⟩ := h
  have htype : lhs.elementType? = some t := by
    simp only [commonElementType, bind_eq_ok, elementType] at ht
    obtain ⟨l, hl, r, hr, _, _, hlt⟩ := ht
    obtain rfl : l = t := by simpa using hlt
    cases hlhs : lhs.elementType? with
    | none => simp [hlhs] at hl
    | some u => simpa [hlhs] using hl
  refine ⟨t, ht, ?_⟩
  rw [htype]
  exact hrest

end Inference

/-! ## Operations -/

namespace Operation

open Inference

variable {κ : Type}

/-- Every list of axes of the operation with the rank that it refers to.  Window axes of a
gather are axes of the output, and those of a scatter are axes of the updates. -/
def axisRanks (o : Operation Shape κ) (outputs : List Shape) : List (List Int × Nat) :=
  match o with
  | broadcastInDim _ _ axes => outputs.map fun output => (axes, output.rank)
  | transpose operand permutation => [(permutation, operand.rank)]
  | concatenate inputs axis => inputs.map fun input => ([axis], input.rank)
  | gather operand indices d _ =>
    outputs.map (fun output => (d.offset, output.rank)) ++
      (GatherAccess.ofGather d).axisRanks operand.rank indices.rank
  | scatter inputs indices updates d _ =>
    updates.map (fun update => (d.updateWindow, update.rank)) ++
      inputs.flatMap fun input => (GatherAccess.ofScatter d).axisRanks input.rank indices.rank
  | reduce inputs _ axes _ => inputs.map fun input => (axes, input.rank)
  | dotGeneral lhs rhs d =>
    [(d.lhsBatching, lhs.rank), (d.rhsBatching, rhs.rank), (d.lhsContracting, lhs.rank),
      (d.rhsContracting, rhs.rank)]
  | convolution lhs rhs c =>
    (c.dimensions.input.axes, lhs.rank) :: (c.dimensions.kernel.axes, rhs.rank) ::
      outputs.map fun output => (c.dimensions.output.axes, output.rank)
  | iota shape axis => [([axis], shape.rank)]
  | _ => []

/-- All axes lie in the tensors that they refer to. -/
def AxesInRange (o : Operation Shape κ) (outputs : List Shape) : Prop :=
  ∀ entry ∈ o.axisRanks outputs, InRange entry.1 entry.2

theorem one_eq_ok {x : Check Shape} {outputs : List Shape} :
    one x = .ok outputs ↔ ∃ s, x = .ok s ∧ outputs = [s] := by
  cases x with
  | error cause => simp [one, Except.map]
  | ok s => simp [one, Except.map, eq_comm]

/-- The results of an operation are those of the operation with its axes counted from the
front, and its axes are then in range.  Collectives may have operands of different ranks and
are left out. -/
theorem infer_explicit {o : Operation Shape Signature} {outputs : List Shape}
    (ho : o.isCollective = false) (h : o.infer = .ok outputs) :
    (o.explicit outputs).infer = .ok outputs ∧ (o.explicit outputs).AxesInRange outputs := by
  rw [infer_eq_ok] at h ⊢
  cases o with
  | compare lhs rhs direction type? =>
    obtain ⟨s, hs, rfl⟩ := one_eq_ok.mp h
    exact ⟨one_eq_ok.mpr ⟨s, compare_explicit hs, rfl⟩, fun _ h => nomatch h⟩
  | broadcastInDim operand dimensions axes =>
    obtain ⟨s, hs, rfl⟩ := one_eq_ok.mp h
    obtain ⟨hinfer, hrange⟩ := broadcastInDim_fromFront hs
    refine ⟨one_eq_ok.mpr ⟨s, hinfer, rfl⟩, ?_⟩
    exact List.forall_mem_singleton.mpr hrange
  | transpose operand permutation =>
    obtain ⟨s, hs, rfl⟩ := one_eq_ok.mp h
    obtain ⟨hinfer, hrange⟩ := transpose_fromFront hs
    refine ⟨one_eq_ok.mpr ⟨s, hinfer, rfl⟩, ?_⟩
    exact List.forall_mem_singleton.mpr hrange
  | concatenate inputs axis =>
    obtain ⟨s, hs, rfl⟩ := one_eq_ok.mp h
    obtain ⟨hinfer, hrange⟩ := concatenate_fromFront hs
    refine ⟨one_eq_ok.mpr ⟨s, hinfer, rfl⟩, ?_⟩
    exact List.forall_mem_map.mpr hrange
  | gather operand indices d sliceSizes =>
    obtain ⟨s, hs, rfl⟩ := one_eq_ok.mp h
    obtain ⟨hinfer, hoffset, hrange⟩ := gather_fromFront hs
    refine ⟨one_eq_ok.mpr ⟨s, hinfer, rfl⟩, ?_⟩
    exact List.forall_mem_append.mpr ⟨List.forall_mem_singleton.mpr hoffset, hrange⟩
  | scatter inputs indices updates d computation =>
    obtain ⟨hinfer, hwindow, hrange⟩ := scatter_fromFront h
    refine ⟨hinfer, List.forall_mem_append.mpr ⟨List.forall_mem_map.mpr hwindow, ?_⟩⟩
    intro entry hentry
    obtain ⟨input, hinput, hentry⟩ := List.mem_flatMap.mp hentry
    exact hrange input hinput entry hentry
  | reduce inputs initials axes body =>
    obtain ⟨hinfer, hrange⟩ := reduce_fromFront h
    exact ⟨hinfer, List.forall_mem_map.mpr hrange⟩
  | dotGeneral lhs rhs d =>
    obtain ⟨s, hs, rfl⟩ := one_eq_ok.mp h
    obtain ⟨hinfer, hlb, hrb, hlc, hrc⟩ := dotGeneral_fromFront hs
    refine ⟨one_eq_ok.mpr ⟨s, hinfer, rfl⟩, ?_⟩
    simp only [AxesInRange, explicit, axisRanks, List.forall_mem_cons]
    exact ⟨hlb, hrb, hlc, hrc, fun _ h => nomatch h⟩
  | convolution lhs rhs c =>
    obtain ⟨s, hs, rfl⟩ := one_eq_ok.mp h
    obtain ⟨hinfer, hinput, hkernel, houtput⟩ := convolution_fromFront hs
    refine ⟨one_eq_ok.mpr ⟨s, hinfer, rfl⟩, ?_⟩
    simp only [AxesInRange, explicit, axisRanks, List.forall_mem_cons, List.map_cons, List.map_nil]
    exact ⟨hinput, hkernel, houtput, fun _ h => nomatch h⟩
  | iota shape axis =>
    obtain ⟨s, hs, rfl⟩ := one_eq_ok.mp h
    obtain ⟨hinfer, hrange⟩ := iota_fromFront hs
    refine ⟨one_eq_ok.mpr ⟨s, hinfer, rfl⟩, ?_⟩
    exact List.forall_mem_singleton.mpr hrange
  | allGather operands axis groups => exact absurd (show true = false from ho) (by decide)
  | allToAll operands splitAxis concatAxis count groups =>
    exact absurd (show true = false from ho) (by decide)
  | _ => exact ⟨h, fun _ h => nomatch h⟩

end Operation

end TensorProgram
