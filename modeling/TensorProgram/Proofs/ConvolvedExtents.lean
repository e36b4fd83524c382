import TensorProgram.Proofs.ConvolutionTexts
import TensorProgram.Proofs.WindowPlaces

/-!
# Extents of convolutions

A convolution writes the extents of its output one after the other, each at the axis that has the
role: the batches of the input, split into groups, the features of the kernel, and for each spatial
axis the number of places of the window.  `convolution_eq_ok` takes the rule apart into the checks
and these writes.

The axes with roles are a permutation of all axes, since they are as many and different.  So no
write overwrites another one and none of the zeros that the output starts with is left.
`convolution_places` says which convolutions are accepted and what each axis of the output holds
then.
-/

namespace TensorProgram

namespace Inference

/-! ## Element types and groups -/

theorem requireGroupCounts_eq_ok {featureGroups batchGroups : Nat} {u : Unit} :
    requireGroupCounts featureGroups batchGroups = .ok u ↔
      0 < featureGroups ∧ 0 < batchGroups ∧ (featureGroups ≤ 1 ∨ batchGroups ≤ 1) := by
  simp only [requireGroupCounts, bind_eq_ok, require_eq_ok, Bool.and_eq_true, bne_iff_ne,
    Bool.or_eq_true, decide_eq_true_eq, exists_const, Nat.pos_iff_ne_zero, and_assoc]

/-- Convolutions are for all element types but the boolean one. -/
theorem requireCapabilities_convolution {t : ElementType} {u : Unit} :
    requireCapabilities .convolution t = .ok u ↔ t.isBoolean = false := by
  have hclasses : (OpKind.convolution.capabilities.filterMap Capability.elementClass?) =
      [.nonBoolean] := rfl
  rw [requireCapabilities, hclasses, forM_eq_ok]
  simp [requireClass, require_eq_ok, ElementClass.contains]

/-! ## Roles -/

namespace AxisRoles.Of

variable {roles : AxisRoles} {l : ConvolutionLayout} {s : Shape} {rank : Nat}

theorem fromFront_eq (h : roles.Of l rank) :
    fromFront l.batch rank = roles.batch ∧ fromFront l.feature rank = roles.feature ∧
      l.spatial.map (fromFront · rank) = roles.spatial.map Int.ofNat := by
  have haxes : (l.batch :: l.feature :: l.spatial).map (fromFront · rank) =
      (roles.batch :: roles.feature :: roles.spatial).map Int.ofNat := h.axes
  simpa only [List.map_cons, List.cons.injEq, Int.ofNat_eq_natCast] using haxes

theorem dimension?_batch (h : roles.Of l s.rank) :
    s.dimension? l.batch = s.dimensions[roles.batch]? :=
  dimension?_eq h.fromFront_eq.1

theorem dimension?_feature (h : roles.Of l s.rank) :
    s.dimension? l.feature = s.dimensions[roles.feature]? :=
  dimension?_eq h.fromFront_eq.2.1

theorem bind_dimension? (h : roles.Of l s.rank) (i : Nat) :
    l.spatial[i]?.bind s.dimension? = roles.spatial[i]?.bind (s.dimensions[·]?) := by
  have hspatial := congrArg (·[i]?) h.fromFront_eq.2.2
  simp only [List.getElem?_map] at hspatial
  cases hl : l.spatial[i]? with
  | none =>
    rw [hl, Option.map_none, eq_comm, Option.map_eq_none_iff] at hspatial
    rw [hspatial]
    rfl
  | some axis =>
    rw [hl, Option.map_some, eq_comm] at hspatial
    obtain ⟨a, ha, hfront⟩ := Option.map_eq_some_iff.mp hspatial
    rw [ha]
    exact dimension?_eq hfront.symm

theorem length_spatial (h : roles.Of l rank) : roles.spatial.length + 2 = rank := by
  have hlength := h.perm.length_eq
  rwa [List.length_range] at hlength

theorem nodup (h : roles.Of l rank) : roles.axes.Nodup :=
  (perm_range_iff.mp h.perm).2.1

theorem lt (h : roles.Of l rank) {a : Nat} (ha : a ∈ roles.axes) : a < rank :=
  (perm_range_iff.mp h.perm).2.2 a ha

end AxisRoles.Of

/-- A complete layout has its roles. -/
theorem exists_roles {l : ConvolutionLayout} {rank : Nat} (h : (l.fromFront rank).Complete rank) :
    ∃ roles : AxisRoles, roles.Of l rank := by
  obtain ⟨as, has, hperm⟩ := h
  obtain ⟨batch, _, rfl, _, htail⟩ := List.map_eq_cons_iff.mp has.symm
  obtain ⟨feature, spatial, rfl, _, _⟩ := List.map_eq_cons_iff.mp htail
  exact ⟨⟨batch, feature, spatial⟩, has, hperm⟩

/-- Groups of features and batches are equal parts. -/
theorem requireGroups_eq_ok {lhs rhs : Shape} {input kernel : AxisRoles}
    {l m : ConvolutionLayout} {featureGroups batchGroups : Nat} {u : Unit}
    (hinput : input.Of l lhs.rank) (hkernel : kernel.Of m rhs.rank) (hfeature : 0 < featureGroups)
    (hbatch : 0 < batchGroups) :
    requireGroups lhs rhs input kernel featureGroups batchGroups = .ok u ↔
      (∃ inputs, rhs.dimension? m.batch = some inputs ∧
        lhs.dimension? l.feature = some (featureGroups * inputs)) ∧
      (∃ outputs, rhs.dimension? m.feature = some outputs ∧ featureGroups ∣ outputs ∧
        batchGroups ∣ outputs) ∧
      ∃ batches, lhs.dimension? l.batch = some batches ∧ batchGroups ∣ batches := by
  rw [hinput.dimension?_batch, hinput.dimension?_feature, hkernel.dimension?_batch,
    hkernel.dimension?_feature]
  simp only [requireGroups, bind_eq_ok, entry_eq_ok, Size.mod_eq_ok, Size.div_eq_ok, require_eq_ok,
    Bool.and_eq_true, beq_iff_eq]
  constructor
  · intro h
    obtain ⟨batches, hbatches, features, hfeatures, inputs, hinputs, outputs, houtputs, _, ⟨_, rfl⟩,
      _, ⟨_, rfl⟩, _, ⟨hmod, hdiv⟩, _, ⟨_, rfl⟩, _, ⟨_, rfl⟩, _, ⟨hf, hb⟩, _, ⟨_, rfl⟩, hrest⟩ := h
    have hproduct : featureGroups * inputs = features := by
      rw [← hdiv]
      exact Nat.mul_div_cancel' (Nat.dvd_of_mod_eq_zero hmod)
    exact ⟨⟨inputs, hinputs, hproduct ▸ hfeatures⟩,
      ⟨outputs, houtputs, Nat.dvd_of_mod_eq_zero hf, Nat.dvd_of_mod_eq_zero hb⟩,
      batches, hbatches, Nat.dvd_of_mod_eq_zero hrest⟩
  · intro h
    obtain ⟨⟨inputs, hinputs, hfeatures⟩, ⟨outputs, houtputs, hf, hb⟩, batches, hbatches,
      hrest⟩ := h
    have hfeature : featureGroups ≠ 0 := by omega
    have hbatch : batchGroups ≠ 0 := by omega
    exact ⟨batches, hbatches, _, hfeatures, inputs, hinputs, outputs, houtputs, _, ⟨hfeature, rfl⟩,
      _, ⟨hfeature, rfl⟩, (), ⟨Nat.mul_mod_right _ _, Nat.mul_div_cancel_left _ (by omega)⟩,
      _, ⟨hfeature, rfl⟩, _, ⟨hbatch, rfl⟩, (), ⟨Nat.mod_eq_zero_of_dvd hf,
      Nat.mod_eq_zero_of_dvd hb⟩, _, ⟨hbatch, rfl⟩, Nat.mod_eq_zero_of_dvd hrest⟩

/-! ## Windows on the spatial axes -/

/-- The window on the spatial axis of a position: the axis of the input with the axis of the kernel
as the window. -/
def spatialWindow? (lhs rhs : Shape) (c : ConvolutionConfiguration) (position : Nat) :
    Option WindowedAxis := do
  let padding ← c.padding[position]?
  return {
    extent := ← c.dimensions.input.spatial[position]?.bind lhs.dimension?
    window := ← c.dimensions.kernel.spatial[position]?.bind rhs.dimension?
    stride := ← c.windowStrides[position]?
    baseDilation := ← c.lhsDilation[position]?
    windowDilation := ← c.rhsDilation[position]?
    low := padding.1
    high := padding.2 }

section Windows

variable {lhs rhs : Shape} {c : ConvolutionConfiguration} {input kernel output : AxisRoles}

theorem spatialWindow?_eq_some {position : Nat} {a : WindowedAxis} :
    spatialWindow? lhs rhs c position = some a ↔
      c.padding[position]? = some (a.low, a.high) ∧
        c.dimensions.input.spatial[position]?.bind lhs.dimension? = some a.extent ∧
        c.dimensions.kernel.spatial[position]?.bind rhs.dimension? = some a.window ∧
        c.windowStrides[position]? = some a.stride ∧
        c.lhsDilation[position]? = some a.baseDilation ∧
        c.rhsDilation[position]? = some a.windowDilation := by
  simp only [spatialWindow?, Option.bind_eq_bind, Option.pure_def]
  constructor
  · intro h
    obtain ⟨padding, hpadding, h⟩ := Option.bind_eq_some_iff.mp h
    obtain ⟨extent, hextent, h⟩ := Option.bind_eq_some_iff.mp h
    obtain ⟨window, hwindow, h⟩ := Option.bind_eq_some_iff.mp h
    obtain ⟨stride, hstride, h⟩ := Option.bind_eq_some_iff.mp h
    obtain ⟨base, hbase, h⟩ := Option.bind_eq_some_iff.mp h
    obtain ⟨dilation, hdilation, h⟩ := Option.bind_eq_some_iff.mp h
    obtain rfl := Option.some.inj h
    exact ⟨hpadding, hextent, hwindow, hstride, hbase, hdilation⟩
  · intro h
    obtain ⟨hpadding, hextent, hwindow, hstride, hbase, hdilation⟩ := h
    rw [hpadding, hextent, hwindow, hstride, hbase, hdilation]
    rfl

/-- The axes of the window are those that have the role of the position. -/
theorem spatialWindow?_eq_some_of_roles (hinput : input.Of c.dimensions.input lhs.rank)
    (hkernel : kernel.Of c.dimensions.kernel rhs.rank) {position : Nat} {a : WindowedAxis} :
    spatialWindow? lhs rhs c position = some a ↔
      c.padding[position]? = some (a.low, a.high) ∧
        (∃ axis, input.spatial[position]? = some axis ∧ lhs.dimensions[axis]? = some a.extent) ∧
        (∃ axis, kernel.spatial[position]? = some axis ∧ rhs.dimensions[axis]? = some a.window) ∧
        c.windowStrides[position]? = some a.stride ∧
        c.lhsDilation[position]? = some a.baseDilation ∧
        c.rhsDilation[position]? = some a.windowDilation := by
  rw [spatialWindow?_eq_some, hinput.bind_dimension?, hkernel.bind_dimension?,
    Option.bind_eq_some_iff, Option.bind_eq_some_iff]

/-- What is written for a position: the number of places of its window, at the axis of the
output. -/
def WritesPlaces (lhs rhs : Shape) (c : ConvolutionConfiguration) (output : AxisRoles)
    (position : Nat) (write : Nat × Nat) : Prop :=
  output.spatial[position]? = some write.1 ∧
    ∃ a, spatialWindow? lhs rhs c position = some a ∧ a.Slides ∧ a.CountsPlaces write.2

theorem addSpatialExtent_eq_ok (hinput : input.Of c.dimensions.input lhs.rank)
    (hkernel : kernel.Of c.dimensions.kernel rhs.rank)
    (hfits : ∀ i a, spatialWindow? lhs rhs c i = some a → a.Representable)
    {dimensions ys : List Nat} {position : Nat} :
    addSpatialExtent lhs rhs c input kernel output dimensions position = .ok ys ↔
      ∃ write, WritesPlaces lhs rhs c output position write ∧ write.1 < dimensions.length ∧
        dimensions.set write.1 write.2 = ys := by
  simp only [addSpatialExtent, bind_eq_ok, entry_eq_ok, replaceEntry_eq_ok]
  constructor
  · intro h
    obtain ⟨inputAxis, hinputAxis, padding, hpadding, extent, hextent, kernelAxis, hkernelAxis,
      window, hwindow, stride, hstride, base, hbase, dilation, hdilation, n, hn, outputAxis,
      houtputAxis, hwrite⟩ := h
    let a : WindowedAxis := ⟨extent, window, stride, base, dilation, padding.1, padding.2⟩
    have ha : spatialWindow? lhs rhs c position = some a :=
      (spatialWindow?_eq_some_of_roles hinput hkernel).mpr ⟨hpadding, ⟨_, hinputAxis, hextent⟩,
        ⟨_, hkernelAxis, hwindow⟩, hstride, hbase, hdilation⟩
    have hplaces := (windowedExtent_eq_ok_of_representable (hfits position a ha)).mp hn
    exact ⟨(outputAxis, n), ⟨houtputAxis, a, ha, hplaces⟩, hwrite⟩
  · intro h
    obtain ⟨⟨outputAxis, n⟩, ⟨houtputAxis, a, ha, hplaces⟩, hwrite⟩ := h
    obtain ⟨hpadding, ⟨inputAxis, hinputAxis, hextent⟩, ⟨kernelAxis, hkernelAxis, hwindow⟩,
      hstride, hbase, hdilation⟩ := (spatialWindow?_eq_some_of_roles hinput hkernel).mp ha
    have hn : windowedExtent inputAxis a = .ok n :=
      (windowedExtent_eq_ok_of_representable (hfits position a ha)).mpr hplaces
    exact ⟨inputAxis, hinputAxis, _, hpadding, _, hextent, kernelAxis, hkernelAxis, _, hwindow, _,
      hstride, _, hbase, _, hdilation, n, hn, outputAxis, houtputAxis, hwrite⟩

theorem foldlM_addSpatialExtent_eq_ok (hinput : input.Of c.dimensions.input lhs.rank)
    (hkernel : kernel.Of c.dimensions.kernel rhs.rank)
    (hfits : ∀ i a, spatialWindow? lhs rhs c i = some a → a.Representable)
    {zeros dimensions positions : List Nat} :
    positions.foldlM (addSpatialExtent lhs rhs c input kernel output) zeros = .ok dimensions ↔
      ∃ writes, List.Forall₂ (WritesPlaces lhs rhs c output) positions writes ∧
        (∀ write ∈ writes, write.1 < zeros.length) ∧ writeAll zeros writes = dimensions := by
  refine foldlM_writes ?_
  intro _ _ _
  exact addSpatialExtent_eq_ok hinput hkernel hfits

/-- Along all spatial axes there is something to write exactly when all windows slide. -/
theorem exists_writesPlaces_iff (houtput : output.Of c.dimensions.output lhs.rank) :
    (∃ writes, List.Forall₂ (WritesPlaces lhs rhs c output) (List.range (lhs.rank - 2)) writes) ↔
      ∀ i < lhs.rank - 2, ∃ a, spatialWindow? lhs rhs c i = some a ∧ a.Slides := by
  have hlength := houtput.length_spatial
  simp only [exists_forall₂_iff, List.mem_range]
  refine forall₂_congr fun i hi => ?_
  constructor
  · intro h
    obtain ⟨_, _, a, ha, hslides, _⟩ := h
    exact ⟨a, ha, hslides⟩
  · intro h
    obtain ⟨a, ha, hslides⟩ := h
    have haxis : output.spatial[i]? = some output.spatial[i] := List.getElem?_eq_getElem (by omega)
    exact ⟨(output.spatial[i], _), haxis, a, ha, hslides,
      (WindowedAxis.countsPlaces_iff hslides.1.2.1).mpr rfl⟩

/-- The writes are at the spatial axes of the output, in their order. -/
theorem map_fst_of_writesPlaces (houtput : output.Of c.dimensions.output lhs.rank)
    {writes : List (Nat × Nat)}
    (h : List.Forall₂ (WritesPlaces lhs rhs c output) (List.range (lhs.rank - 2)) writes) :
    writes.map Prod.fst = output.spatial := by
  have hlength := houtput.length_spatial
  have hwrites := h.length_eq
  rw [List.length_range] at hwrites
  apply List.ext_getElem
  · rw [List.length_map]
    omega
  · intro i hi hi'
    have hi : i < writes.length := by simpa using hi
    obtain ⟨hwrite, _⟩ := h.get (by simpa [← hwrites] using hi) hi
    rw [List.get_eq_getElem, List.getElem_range, List.getElem?_eq_getElem hi',
      Option.some.injEq] at hwrite
    rw [List.getElem_map, hwrite]
    rfl

/-- The writes of a convolution, in the order of the roles of the output. -/
def WritesRoles (lhs rhs : Shape) (c : ConvolutionConfiguration) (output : AxisRoles)
    (writes : List (Nat × Nat)) : Prop :=
  ∃ batches outputs places, lhs.dimension? c.dimensions.input.batch = some batches ∧
    rhs.dimension? c.dimensions.kernel.feature = some outputs ∧
    List.Forall₂ (WritesPlaces lhs rhs c output) (List.range (lhs.rank - 2)) places ∧
    writes = (output.batch, batches / c.batchGroups) :: (output.feature, outputs) :: places

/-- Every axis of the output is written once. -/
theorem WritesRoles.positions (houtput : output.Of c.dimensions.output lhs.rank)
    {writes : List (Nat × Nat)} (h : WritesRoles lhs rhs c output writes) :
    writes.map Prod.fst = output.axes := by
  obtain ⟨_, _, _, _, _, hplaces, rfl⟩ := h
  rw [List.map_cons, List.map_cons, map_fst_of_writesPlaces houtput hplaces]
  rfl

theorem WritesRoles.lt (houtput : output.Of c.dimensions.output lhs.rank)
    {writes : List (Nat × Nat)} (h : WritesRoles lhs rhs c output writes) :
    ∀ write ∈ writes, write.1 < lhs.rank := by
  intro write hwrite
  refine houtput.lt ?_
  rw [← h.positions houtput]
  exact List.mem_map_of_mem hwrite

end Windows

/-! ## Accepted convolutions -/

/-- What is asked of a convolution: of its operands, its layouts, the lengths of its lists, its
groups and its windows. -/
structure Convolvable (lhs rhs : Shape) (c : ConvolutionConfiguration) : Prop where
  elementTypes : ∃ t, lhs.elementType? = some t ∧ rhs.elementType? = some t ∧ t.isBoolean = false
  ranks : 2 ≤ lhs.rank ∧ rhs.rank = lhs.rank
  layouts : (c.dimensions.fromFront lhs.rank).Complete lhs.rank
  lengths : c.windowStrides.length = lhs.rank - 2 ∧ c.padding.length = lhs.rank - 2 ∧
    c.lhsDilation.length = lhs.rank - 2 ∧ c.rhsDilation.length = lhs.rank - 2
  groups : 0 < c.featureGroups ∧ 0 < c.batchGroups ∧ (c.featureGroups ≤ 1 ∨ c.batchGroups ≤ 1)
  /-- An input group has the features that the kernel reads. -/
  inputFeatures : ∃ inputs, rhs.dimension? c.dimensions.kernel.batch = some inputs ∧
    lhs.dimension? c.dimensions.input.feature = some (c.featureGroups * inputs)
  outputFeatures : ∃ outputs, rhs.dimension? c.dimensions.kernel.feature = some outputs ∧
    c.featureGroups ∣ outputs ∧ c.batchGroups ∣ outputs
  batches : ∃ batches, lhs.dimension? c.dimensions.input.batch = some batches ∧
    c.batchGroups ∣ batches
  windows : ∀ i < lhs.rank - 2, ∃ a, spatialWindow? lhs rhs c i = some a ∧ a.Slides

/-- What the output of a convolution holds: every axis has one role, and the extent that goes with
it. -/
structure Convolved (lhs rhs : Shape) (c : ConvolutionConfiguration) (out : Shape) : Prop where
  elementType : out.elementType? = lhs.elementType?
  rank : out.rank = lhs.rank
  roles : ∀ axis < out.rank,
    ∃! k : Nat, (c.dimensions.output.fromFront out.rank).axes[k]? = some (axis : Int)
  batch : out.dimension? c.dimensions.output.batch =
    (lhs.dimension? c.dimensions.input.batch).map (· / c.batchGroups)
  feature : out.dimension? c.dimensions.output.feature =
    rhs.dimension? c.dimensions.kernel.feature
  spatial : ∀ i < lhs.rank - 2, ∃ a n, spatialWindow? lhs rhs c i = some a ∧
    c.dimensions.output.spatial[i]?.bind out.dimension? = some n ∧ a.CountsPlaces n

/-- In a complete layout every axis has one role. -/
theorem existsUnique_of_complete {l : ConvolutionLayout} {rank : Nat} (h : l.Complete rank) :
    ∀ axis < rank, ∃! k : Nat, l.axes[k]? = some (axis : Int) := by
  intro axis haxis
  obtain ⟨as, has, hperm⟩ := h
  have hmem : axis ∈ as := hperm.mem_iff.mpr (List.mem_range.mpr haxis)
  have hnodup : as.Nodup := (perm_range_iff.mp hperm).2.1
  have hroles (k : Nat) : l.axes[k]? = some (axis : Int) ↔ as[k]? = some axis := by
    simp [has, List.getElem?_map]
  obtain ⟨k, hk⟩ := List.mem_iff_getElem?.mp hmem
  refine ⟨k, (hroles k).mpr hk, fun other hother => ?_⟩
  have hother := (hroles other).mp hother
  exact ((List.getElem?_inj (List.getElem?_eq_some_iff.mp hk).1 hnodup).mp
    (hk.trans hother.symm)).symm

section Convolution

variable {lhs rhs out : Shape} {c : ConvolutionConfiguration}

/-- The output of a convolution is what its writes leave on a list of zeros. -/
theorem convolution_eq_ok (hfits : ∀ i a, spatialWindow? lhs rhs c i = some a → a.Representable) :
    convolution lhs rhs c = .ok out ↔
      Convolvable lhs rhs c ∧ ∃ output writes, output.Of c.dimensions.output lhs.rank ∧
        WritesRoles lhs rhs c output writes ∧
        out = ⟨lhs.elementType?, writeAll (List.replicate lhs.rank 0) writes⟩ := by
  simp only [convolution, bind_eq_ok, commonElementType_eq_ok, requireCapabilities_convolution,
    require_eq_ok, decide_eq_true_eq, beq_iff_eq, Size.sub_eq_ok, axisRoles_eq_ok,
    requireLength_eq_ok, requireGroupCounts_eq_ok, entry_eq_ok, Size.div_eq_ok,
    replaceEntry_eq_ok, pure_eq_ok, Except.ok.injEq]
  constructor
  · intro h
    obtain ⟨t, ⟨hlhs, hrhs⟩, _, ht, _, htwo, _, hrank, _, ⟨_, rfl⟩, input, hinput, kernel, hkernel,
      output, houtput, _, hstrides, _, hpadding, _, hbase, _, hdilation, _, hcounts, _, hgroups,
      batches, hbatches, _, ⟨_, rfl⟩, _, ⟨_, rfl⟩, outputs, houtputs, _, ⟨_, rfl⟩, dimensions,
      hdimensions, rfl⟩ := h
    have hlayouts : (c.dimensions.fromFront lhs.rank).Complete lhs.rank :=
      ⟨hinput.complete, hkernel.complete, houtput.complete⟩
    have hkernel : kernel.Of c.dimensions.kernel rhs.rank := hrank ▸ hkernel
    obtain ⟨places, hplaces, _, rfl⟩ :=
      (foldlM_addSpatialExtent_eq_ok hinput hkernel hfits).mp hdimensions
    obtain ⟨hinputFeatures, houtputFeatures, hinputBatches⟩ :=
      (requireGroups_eq_ok hinput hkernel hcounts.1 hcounts.2.1).mp hgroups
    rw [← hinput.dimension?_batch] at hbatches
    rw [← hkernel.dimension?_feature] at houtputs
    have hconvolvable : Convolvable lhs rhs c :=
      { elementTypes := ⟨t, hlhs, hrhs, ht⟩
        ranks := ⟨htwo, hrank⟩
        layouts := hlayouts
        lengths := ⟨hstrides.symm, hpadding.symm, hbase.symm, hdilation.symm⟩
        groups := hcounts
        inputFeatures := hinputFeatures
        outputFeatures := houtputFeatures
        batches := hinputBatches
        windows := (exists_writesPlaces_iff houtput).mp ⟨places, hplaces⟩ }
    refine ⟨hconvolvable, output, _, houtput,
      ⟨batches, outputs, places, hbatches, houtputs, hplaces, rfl⟩, ?_⟩
    rw [hlhs]
    rfl
  · intro h
    obtain ⟨hconvolvable, output, writes, houtput, hwrites, rfl⟩ := h
    -- no axis of the output is beyond the zeros
    have hlt := hwrites.lt houtput
    obtain ⟨batches, outputs, places, hbatches, houtputs, hplaces, rfl⟩ := hwrites
    rw [List.forall_mem_cons, List.forall_mem_cons] at hlt
    obtain ⟨hbatch, hfeature, hspatial⟩ := hlt
    obtain ⟨t, hlhs, hrhs, ht⟩ := hconvolvable.elementTypes
    obtain ⟨htwo, hrank⟩ := hconvolvable.ranks
    obtain ⟨hstrides, hpadding, hbase, hdilation⟩ := hconvolvable.lengths
    have hcounts := hconvolvable.groups
    obtain ⟨input, hinput⟩ := exists_roles hconvolvable.layouts.input
    obtain ⟨kernel, hkernel⟩ := exists_roles hconvolvable.layouts.kernel
    have hkernel' : kernel.Of c.dimensions.kernel rhs.rank := hrank ▸ hkernel
    have hgroups := (requireGroups_eq_ok (u := ()) hinput hkernel' hcounts.1 hcounts.2.1).mpr
      ⟨hconvolvable.inputFeatures, hconvolvable.outputFeatures, hconvolvable.batches⟩
    rw [hinput.dimension?_batch] at hbatches
    rw [hkernel'.dimension?_feature] at houtputs
    refine ⟨t, ⟨hlhs, hrhs⟩, (), ht, (), htwo, (), hrank, _, ⟨htwo, rfl⟩, input, hinput, kernel,
      hkernel, output, houtput, (), hstrides.symm, (), hpadding.symm, (), hbase.symm, (),
      hdilation.symm, (), hcounts, (), hgroups, batches, hbatches, _, ⟨by omega, rfl⟩, _,
      ⟨by simpa using hbatch, rfl⟩, outputs, houtputs, _, ⟨by simpa using hfeature, rfl⟩, _,
      (foldlM_addSpatialExtent_eq_ok hinput hkernel' hfits).mpr ⟨places, hplaces, ?_, rfl⟩, ?_⟩
    · simpa using hspatial
    · rw [hlhs]
      rfl

/-- The writes are at different axes, so each of them is there in the end. -/
theorem convolved_of_writes {output : AxisRoles} (houtput : output.Of c.dimensions.output lhs.rank)
    {writes : List (Nat × Nat)} (hwrites : WritesRoles lhs rhs c output writes) :
    Convolved lhs rhs c ⟨lhs.elementType?, writeAll (List.replicate lhs.rank 0) writes⟩ := by
  set out : Shape := ⟨lhs.elementType?, writeAll (List.replicate lhs.rank 0) writes⟩ with hout
  have hrank : out.rank = lhs.rank := by
    rw [hout, Shape.rank, length_writeAll, List.length_replicate]
  have hwritten : ∀ write ∈ writes, out.dimensions[write.1]? = some write.2 := by
    intro write hmem
    refine getElem?_writeAll (hwrites.positions houtput ▸ houtput.nodup) hmem ?_
    simpa using hwrites.lt houtput write hmem
  obtain ⟨batches, outputs, places, hbatches, houtputs, hplaces, rfl⟩ := hwrites
  have houtput : output.Of c.dimensions.output out.rank := hrank ▸ houtput
  refine ⟨rfl, hrank, existsUnique_of_complete houtput.complete, ?_, ?_, ?_⟩
  · rw [houtput.dimension?_batch, hbatches]
    exact hwritten _ List.mem_cons_self
  · rw [houtput.dimension?_feature, houtputs]
    exact hwritten _ (List.mem_cons_of_mem _ List.mem_cons_self)
  · intro i hi
    obtain ⟨write, hmem, haxis, a, ha, _, hcounts⟩ :=
      exists_of_mem_left hplaces (List.mem_range.mpr hi)
    refine ⟨a, write.2, ha, ?_, hcounts⟩
    rw [houtput.bind_dimension?, haxis]
    exact hwritten write (List.mem_cons_of_mem _ (List.mem_cons_of_mem _ hmem))

/-- A convolution whose windows are representable is accepted exactly when it is `Convolvable`, and
then every axis of the output holds the extent that goes with its one role. -/
theorem convolution_places
    (hfits : ∀ i a, spatialWindow? lhs rhs c i = some a → a.Representable) :
    ((∃ out, convolution lhs rhs c = .ok out) ↔ Convolvable lhs rhs c) ∧
      ∀ out, convolution lhs rhs c = .ok out → Convolved lhs rhs c out := by
  constructor
  · constructor
    · intro h
      obtain ⟨out, hout⟩ := h
      exact ((convolution_eq_ok hfits).mp hout).1
    · intro h
      obtain ⟨output, houtput⟩ := exists_roles h.layouts.output
      obtain ⟨places, hplaces⟩ := (exists_writesPlaces_iff houtput).mpr h.windows
      obtain ⟨batches, hbatches, _⟩ := h.batches
      obtain ⟨outputs, houtputs, _⟩ := h.outputFeatures
      exact ⟨_, (convolution_eq_ok hfits).mpr ⟨h, output, _, houtput,
        ⟨batches, outputs, places, hbatches, houtputs, hplaces, rfl⟩, rfl⟩⟩
  · intro out hout
    obtain ⟨_, output, writes, houtput, hwrites, rfl⟩ := (convolution_eq_ok hfits).mp hout
    exact convolved_of_writes houtput hwrites

/-- Images in two groups of features, with a stride down and gaps across, whose output has its
batches last and its spatial axes exchanged. -/
def groupedImages : ConvolutionConfiguration where
  dimensions := { imageDimensions with output := ⟨-1, 0, [-2, -3]⟩ }
  windowStrides := [2, 1]
  padding := [(1, 1), (0, -1)]
  lhsDilation := [1, 2]
  rhsDilation := [2, 1]
  featureGroups := 2
  batchGroups := 1

theorem convolution_places_grouped :
    let lhs : Shape := .of (.real .f32) [5, 9, 9, 6]
    let rhs : Shape := .of (.real .f32) [3, 3, 3, 16]
    let out : Shape := .of (.real .f32) [16, 14, 4, 5]
    (∀ i a, spatialWindow? lhs rhs groupedImages i = some a → a.Representable) ∧
      convolution lhs rhs groupedImages = .ok out ∧ Convolvable lhs rhs groupedImages ∧
      Convolved lhs rhs groupedImages out := by
  intro lhs rhs out
  have hfits : ∀ i a, spatialWindow? lhs rhs groupedImages i = some a → a.Representable := by
    intro i a ha
    match i with
    | 0 =>
      obtain rfl := Option.some.inj ha
      exact ⟨by decide, by decide, by decide, by decide, by decide⟩
    | 1 =>
      obtain rfl := Option.some.inj ha
      exact ⟨by decide, by decide, by decide, by decide, by decide⟩
    | i + 2 => cases ha
  have hout : convolution lhs rhs groupedImages = .ok out := by decide
  obtain ⟨haccepted, hplaces⟩ := convolution_places hfits
  exact ⟨hfits, hout, haccepted.mp ⟨out, hout⟩, hplaces out hout⟩

end Convolution

end Inference

end TensorProgram
