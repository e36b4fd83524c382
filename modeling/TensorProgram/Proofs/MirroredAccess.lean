import Mathlib.Data.List.GetD
import TensorProgram.Proofs.Explicit
import TensorProgram.Proofs.Faults

/-!
# Gathers and the scatters that mirror them

The output of a gather has the axes that the updates of a scatter with the same axes have:
`GatherDimensions.mirrored` is that scatter.  A gather makes the extents of its output by taking
turns between window and batch extents, `interleave?`, and a scatter takes the extents of its
updates apart in the same turns, `updateFits`.  `updateFits_iff` says that updates fit exactly when
they can be made from some window within the bounds.

A window within the bounds is what some slice leaves on the window axes, `exists_slice`: the slice
has no extent on the axes that windows lack.  So `scatter_iff_exists_gather` holds: a scatter takes
exactly those updates that the gather it mirrors puts out for some slice sizes.
-/

namespace TensorProgram

/-- The scatter with the axes of a gather.  Its updates take the place of the output. -/
def GatherDimensions.mirrored (d : GatherDimensions) : ScatterDimensions where
  updateWindow := d.offset
  inserted := d.collapsed
  inputBatching := d.operandBatching
  indicesBatching := d.indicesBatching
  operandMap := d.indexMap
  indexVector := d.indexVector

/-- The computation takes two scalars of a type to one. -/
def Inference.Signature.pairwise (t : ElementType) : Inference.Signature :=
  ⟨[.scalar t, .scalar t], [.scalar t]⟩

namespace Inference

open ShapeError (Cause)

/-! ## Names of parameters -/

section Names

variable {parameter other : String} {axes : List Int} {rank : Nat} {as : List Nat}

/-- The name of a list of axes only matters when the list is rejected. -/
theorem normalizeAxes_rename (h : normalizeAxes parameter axes rank = .ok as) :
    normalizeAxes other axes rank = .ok as :=
  normalizeAxes_eq_ok.mpr (normalizeAxes_eq_ok.mp h)

theorem sortedAxes_rename (h : sortedAxes parameter axes rank = .ok as) :
    sortedAxes other axes rank = .ok as := by
  simp only [sortedAxes, bind_eq_ok, require_eq_ok] at h ⊢
  obtain ⟨bs, hbs, u, hsorted, has⟩ := h
  exact ⟨bs, normalizeAxes_rename hbs, u, hsorted, has⟩

theorem requireDisjoint_eq_ok {xs ys : List Nat} {otherwise : Nat → Cause} {u : Unit} :
    requireDisjoint xs ys otherwise = .ok u ↔ xs.find? ys.contains = none := by
  unfold requireDisjoint
  cases xs.find? ys.contains with
  | none => simp
  | some x => simp

theorem requireBatchingPair_rename {operand indices : Shape} {indexVector : Nat} {pair : Nat × Nat}
    {u : Unit} (h : requireBatchingPair operand indices parameter indexVector pair = .ok u) :
    requireBatchingPair operand indices other indexVector pair = .ok u := by
  simp only [requireBatchingPair, bind_eq_ok, require_eq_ok] at h ⊢
  exact h

/-- Accesses with the same axes are taken in the same way, whatever the axes are called. -/
theorem indexedAxes_rename {operand indices : Shape} {a b : IndexedAccess} {found : IndexedAxes}
    (hdropped : b.dropped.axes = a.dropped.axes) (hbatching : b.batching.axes = a.batching.axes)
    (hindices : b.indicesBatching.axes = a.indicesBatching.axes)
    (hmap : b.indexMap.axes = a.indexMap.axes) (hvector : b.indexVector = a.indexVector)
    (h : indexedAxes operand indices a = .ok found) :
    indexedAxes operand indices b = .ok found := by
  simp only [indexedAxes, bind_eq_ok, requireLength_eq_ok, requireDisjoint_eq_ok,
    hdropped, hbatching, hindices, hmap, hvector] at h ⊢
  obtain ⟨v, hv, ds, hds, bs, hbs, u, hdisjoint, is, his, u₁, hcount, u₂, hpairs, u₃, hlength, ms,
    hms, hrest⟩ := h
  exact ⟨v, hv, ds, normalizeAxes_rename hds, bs, normalizeAxes_rename hbs, u, hdisjoint, is,
    normalizeAxes_rename his, u₁, hcount, u₂,
    forM_eq_ok.mpr fun pair hpair => requireBatchingPair_rename (forM_eq_ok.mp hpairs pair hpair),
    u₃, hlength, ms, normalizeAxes_rename hms, hrest⟩

theorem indexedAxes_mirrored {operand indices : Shape} {d : GatherDimensions}
    {found : IndexedAxes} :
    indexedAxes operand indices (GatherAccess.ofScatter d.mirrored) = .ok found ↔
      indexedAxes operand indices (GatherAccess.ofGather d) = .ok found := by
  constructor
  · exact indexedAxes_rename rfl rfl rfl rfl rfl
  · exact indexedAxes_rename rfl rfl rfl rfl rfl

end Names

/-! ## Taking turns -/

/-- Updates fit exactly when they can be made from a window within the bounds.  A scatter leaves
the bounds alone that it does not come to. -/
theorem updateFits_iff {windowAxes extents bounds batch : List Nat} {start : Nat} :
    updateFits windowAxes (extents.zipIdx start) bounds batch = true ↔
      ∃ window, List.Forall₂ (· ≤ ·) window bounds ∧
        interleave? windowAxes (List.range' start extents.length) window batch = some extents := by
  induction extents generalizing start bounds batch with
  | nil =>
    simp only [List.zipIdx_nil, updateFits, List.length_nil, List.range'_zero, interleave?,
      and_true, true_iff]
    exact ⟨bounds, List.forall₂_same.mpr fun _ _ => Nat.le_refl _⟩
  | cons extent extents ih =>
    rw [List.zipIdx_cons, List.length_cons, List.range'_succ]
    simp only [updateFits, interleave?]
    by_cases hwindow : windowAxes.contains start = true
    · simp only [if_pos hwindow]
      cases bounds with
      | nil => simp
      | cons bound bounds =>
        simp only [Bool.and_eq_true, decide_eq_true_eq, ih, List.forall₂_cons_right_iff]
        constructor
        · rintro ⟨hle, window, hbounds, hrest⟩
          exact ⟨extent :: window, ⟨extent, window, hle, hbounds, rfl⟩, by simp [hrest]⟩
        · rintro ⟨_, ⟨first, window, hle, hbounds, rfl⟩, hmade⟩
          obtain ⟨rest, hrest, hcons⟩ := Option.map_eq_some_iff.mp hmade
          obtain ⟨rfl, rfl⟩ := List.cons.inj hcons
          exact ⟨hle, window, hbounds, hrest⟩
    · simp only [if_neg hwindow]
      cases batch with
      | nil => simp
      | cons expected batch =>
        simp only [Bool.and_eq_true, beq_iff_eq, ih, Option.map_eq_some_iff, List.cons.injEq]
        constructor
        · rintro ⟨rfl, window, hbounds, hrest⟩
          exact ⟨window, hbounds, extents, hrest, rfl, rfl⟩
        · rintro ⟨window, hbounds, rest, hrest, rfl, rfl⟩
          exact ⟨rfl, window, hbounds, hrest⟩

/-! ## Slices -/

/-- The slice sizes are within the extents, and a slice is at most one element thick on the axes
that a window lacks. -/
structure SlicesOf (dimensions : List Nat) (axes : IndexedAxes) (sliceSizes : List Nat) : Prop where
  within : List.Forall₂ (· ≤ ·) sliceSizes dimensions
  thin : ∀ a ∈ axes.dropped ++ axes.batching, ∃ size, sliceSizes[a]? = some size ∧ size ≤ 1

section Slices

variable {dimensions sliceSizes window bounds : List Nat} {axes : IndexedAxes}

theorem requireSliceSizes_eq_ok (hlength : sliceSizes.length = dimensions.length) :
    requireSliceSizes sliceSizes dimensions = .ok () ↔
      List.Forall₂ (· ≤ ·) sliceSizes dimensions := by
  rw [requireSliceSizes, forM_eq_ok, List.forall₂_iff_get]
  constructor
  · intro h
    refine ⟨hlength, fun i hsize hextent => ?_⟩
    have hmem : ((sliceSizes[i], dimensions[i]), i) ∈ (sliceSizes.zip dimensions).zipIdx := by
      rw [List.mk_mem_zipIdx_iff_getElem?, List.getElem?_zip_eq_some]
      exact ⟨List.getElem?_eq_getElem hsize, List.getElem?_eq_getElem hextent⟩
    simpa using require_eq_ok.mp (h _ hmem)
  · rintro ⟨_, h⟩ ⟨⟨size, extent⟩, i⟩ hentry
    rw [List.mk_mem_zipIdx_iff_getElem?, List.getElem?_zip_eq_some] at hentry
    obtain ⟨hsize, rfl⟩ := List.getElem?_eq_some_iff.mp hentry.1
    obtain ⟨hextent, rfl⟩ := List.getElem?_eq_some_iff.mp hentry.2
    rw [require_eq_ok, decide_eq_true_eq]
    exact h i hsize hextent

/-- The entries at some axes are found when all axes are in range. -/
theorem exists_mapM_entry {as : List Nat} {xs : List Nat} (h : ∀ a ∈ as, a < xs.length) :
    ∃ ys, as.mapM (entry xs) = .ok ys := by
  simp only [mapM_eq_ok, exists_forall₂_iff, entry_eq_ok]
  intro a ha
  exact ⟨_, List.getElem?_eq_getElem (h a ha)⟩

/-- What a slice leaves on some axes is within the extents of these axes. -/
theorem forall₂_le_of_entries {as : List Nat} (hsizes : List.Forall₂ (· ≤ ·) sliceSizes dimensions)
    (hwindow : as.mapM (entry sliceSizes) = .ok window)
    (hbounds : as.mapM (entry dimensions) = .ok bounds) : List.Forall₂ (· ≤ ·) window bounds := by
  rw [mapM_eq_ok] at hwindow hbounds
  induction hwindow generalizing bounds with
  | nil =>
    rw [List.forall₂_nil_left_iff.mp hbounds]
    exact .nil
  | cons hsize _ ih =>
    obtain ⟨bound, rest, hbound, hrest, rfl⟩ := List.forall₂_cons_left_iff.mp hbounds
    obtain ⟨hi, rfl⟩ := List.getElem?_eq_some_iff.mp (entry_eq_ok.mp hsize)
    obtain ⟨hj, rfl⟩ := List.getElem?_eq_some_iff.mp (entry_eq_ok.mp hbound)
    exact .cons (hsizes.get hi hj) (ih hrest)

/-- The slice that leaves a window on the window axes and nothing on the others. -/
def sliceAround (windowAxes window : List Nat) (rank : Nat) : List Nat :=
  (List.range rank).map fun axis => window.getD (windowAxes.idxOf axis) 0

section SliceAround

variable {windowAxes : List Nat} {rank : Nat}

theorem sliceAround_getElem (hnodup : windowAxes.Nodup) {i : Nat} (hi : i < windowAxes.length)
    (hrank : windowAxes[i] < rank) (hwindow : i < window.length) :
    (sliceAround windowAxes window rank)[windowAxes[i]]? = some window[i] := by
  rw [sliceAround, List.getElem?_map, List.getElem?_range hrank, Option.map_some,
    hnodup.idxOf_getElem i hi, List.getD_eq_getElem _ _ hwindow]

theorem sliceAround_of_not_mem (hcount : window.length = windowAxes.length) {a : Nat}
    (hrank : a < rank) (ha : a ∉ windowAxes) :
    (sliceAround windowAxes window rank)[a]? = some 0 := by
  have hbeyond : window.length ≤ windowAxes.idxOf a := by
    rw [List.idxOf_eq_length ha]
    omega
  rw [sliceAround, List.getElem?_map, List.getElem?_range hrank, Option.map_some,
    List.getD_eq_default _ _ hbeyond]

/-- A window within the bounds makes a slice within the extents. -/
theorem sliceAround_le (hnodup : windowAxes.Nodup)
    (hbounds : List.Forall₂ (fun a bound => entry dimensions a = .ok bound) windowAxes bounds)
    (hwindow : List.Forall₂ (· ≤ ·) window bounds) :
    List.Forall₂ (· ≤ ·) (sliceAround windowAxes window dimensions.length) dimensions := by
  have hcount : window.length = windowAxes.length :=
    hwindow.length_eq.trans hbounds.length_eq.symm
  rw [List.forall₂_iff_get]
  refine ⟨by simp [sliceAround], fun a hsize hextent => ?_⟩
  show (sliceAround windowAxes window dimensions.length)[a] ≤ dimensions[a]
  by_cases ha : a ∈ windowAxes
  · obtain ⟨i, hi, rfl⟩ := List.getElem_of_mem ha
    have hj : i < window.length := by omega
    have hk : i < bounds.length := by
      rw [← hbounds.length_eq]
      exact hi
    have hbound : dimensions[windowAxes[i]]? = some bounds[i] :=
      entry_eq_ok.mp (hbounds.get hi hk)
    rw [(List.getElem_eq_iff hsize).mpr (sliceAround_getElem hnodup hi hextent hj),
      (List.getElem_eq_iff hextent).mpr hbound]
    exact hwindow.get hj hk
  · rw [(List.getElem_eq_iff hsize).mpr (sliceAround_of_not_mem hcount hextent ha)]
    exact Nat.zero_le _

end SliceAround

/-- Every window within the bounds is what a slice leaves on the window axes. -/
theorem exists_slice (hlacking : ∀ a ∈ axes.dropped ++ axes.batching, a < dimensions.length)
    (hbounds : (axes.windowAxes dimensions.length).mapM (entry dimensions) = .ok bounds)
    (hwindow : List.Forall₂ (· ≤ ·) window bounds) :
    ∃ sliceSizes, SlicesOf dimensions axes sliceSizes ∧
      (axes.windowAxes dimensions.length).mapM (entry sliceSizes) = .ok window := by
  have hnodup : (axes.windowAxes dimensions.length).Nodup := List.nodup_range.filter _
  have hrange : ∀ a ∈ axes.windowAxes dimensions.length, a < dimensions.length :=
    lt_of_mem_windowAxes
  have hlacks : ∀ a ∈ axes.dropped ++ axes.batching, a ∉ axes.windowAxes dimensions.length := by
    intro a ha hmem
    have hkept := (List.mem_filter.mp hmem).2
    rcases List.mem_append.mp ha with h | h
    · simp [h] at hkept
    · simp [h] at hkept
  rw [mapM_eq_ok] at hbounds
  have hcount := hwindow.length_eq.trans hbounds.length_eq.symm
  refine ⟨sliceAround (axes.windowAxes dimensions.length) window dimensions.length,
    ⟨sliceAround_le hnodup hbounds hwindow, fun a ha => ⟨0, ?_, Nat.zero_le 1⟩⟩, ?_⟩
  · exact sliceAround_of_not_mem hcount (hlacking a ha) (hlacks a ha)
  · rw [mapM_eq_ok, List.forall₂_iff_get]
    refine ⟨hcount.symm, fun i hi hj => ?_⟩
    rw [entry_eq_ok]
    exact sliceAround_getElem hnodup hi (hrange _ (List.getElem_mem hi)) hj

end Slices

/-! ## Gathers and scatters -/

/-- What a gather and the scatter that mirrors it ask of the indices, the axes and the rank of
the output or of the updates.  `bounds` are the extents of the window axes, and `places` are the
axes of the output that windows take. -/
structure Windowed (operand indices : Shape) (d : GatherDimensions) (rank : Nat)
    (axes : IndexedAxes) (bounds places : List Nat) : Prop where
  integers : ∃ t, indexElementType indices = .ok t
  derived : indexedAxes operand indices (GatherAccess.ofGather d) = .ok axes
  bounded : (axes.windowAxes operand.rank).mapM (entry operand.dimensions) = .ok bounds
  count : bounds.length = d.offset.length
  rank_eq : rank = axes.batchExtents.length + bounds.length
  placed : sortedAxes "offset_dims" d.offset rank = .ok places

section Main

variable {t : ElementType} {dimensions extents sliceSizes : List Nat} {indices : Shape}
  {d : GatherDimensions}

/-- No more than one element thick on the axes that windows lack. -/
theorem forM_thin_eq_ok {as : List Nat} :
    (as.forM fun axis => do
      require ((← entry sliceSizes axis) ≤ 1)
        (.invalidParameter "slice_sizes" (.sliceSizeNotUnit axis))) = .ok () ↔
      ∀ a ∈ as, ∃ size, sliceSizes[a]? = some size ∧ size ≤ 1 := by
  rw [forM_eq_ok]
  simp only [bind_eq_ok, entry_eq_ok, require_eq_ok, decide_eq_true_eq]

/-- A gather succeeds with what its slice leaves on the window axes. -/
theorem gather_eq_ok_iff :
    gather (.of t dimensions) indices d sliceSizes = .ok (.of t extents) ↔
      ∃ axes bounds places,
        Windowed (.of t dimensions) indices d extents.length axes bounds places ∧
        SlicesOf dimensions axes sliceSizes ∧
        ∃ window, (axes.windowAxes dimensions.length).mapM (entry sliceSizes) = .ok window ∧
          interleave? places (List.range extents.length) window axes.batchExtents =
            some extents := by
  simp only [gather, bind_eq_ok, requireLength_eq_ok]
  constructor
  · rintro ⟨t', ht, t₂, hindices, _, hlength, _, hsizes, axes, haxes, _, hthin, window, hwindow, _,
      hcount, places, hplaces, hmade⟩
    obtain rfl : t = t' := by simpa [elementType, Shape.of] using ht
    cases hextents : interleave? places
        (List.range (axes.batchExtents.length + window.length)) window axes.batchExtents with
    | none => simp [hextents] at hmade
    | some made =>
      obtain rfl : made = extents := by simpa [hextents, Shape.of] using hmade
      have hrank : made.length = axes.batchExtents.length + window.length := by
        have := length_of_interleave? hextents
        rwa [List.length_range] at this
      obtain ⟨bounds, hbounds⟩ :
          ∃ bounds, (axes.windowAxes dimensions.length).mapM (entry dimensions) = .ok bounds :=
        exists_mapM_entry lt_of_mem_windowAxes
      have hwithin := (requireSliceSizes_eq_ok hlength.symm).mp hsizes
      have hle := forall₂_le_of_entries hwithin hwindow hbounds
      rw [← hrank] at hextents hplaces
      refine ⟨axes, bounds, places, ⟨⟨t₂, hindices⟩, haxes, hbounds, ?_, ?_, hplaces⟩,
        ⟨hwithin, forM_thin_eq_ok.mp hthin⟩, window, hwindow, hextents⟩
      · rw [← hle.length_eq, hcount]
      · rw [← hle.length_eq, hrank]
  · rintro ⟨axes, bounds, places, h, hslices, window, hwindow, hmade⟩
    obtain ⟨t₂, hindices⟩ := h.integers
    have hle := forall₂_le_of_entries hslices.within hwindow h.bounded
    have hrank := h.rank_eq
    rw [← hle.length_eq] at hrank
    have hlength := hslices.within.length_eq
    refine ⟨t, rfl, t₂, hindices, (), hlength.symm, (),
      (requireSliceSizes_eq_ok hlength).mpr hslices.within, axes, h.derived, (),
      forM_thin_eq_ok.mpr hslices.thin, window, hwindow, (), ?_, places, ?_, ?_⟩
    · rw [hle.length_eq, h.count]
    · rw [← hrank]
      exact h.placed
    · rw [← hrank, hmade]
      rfl

theorem requireCombinator_pairwise (t : ElementType) :
    requireCombinator ElementType.promotableTo (.pairwise t) [t] = .ok () := by
  have hscalar (position : Nat) :
      requireScalarLike ElementType.promotableTo t position (.scalar t) = .ok () := by
    simp [requireScalarLike, elementType, Shape.scalar, Shape.of, require, Shape.isScalar,
      Shape.isValid, ElementType.promotableTo]
  simp [requireCombinator, Signature.pairwise, require, entry, hscalar]

/-- The scatter takes updates that fit into the windows. -/
theorem scatter_mirrored_eq_ok_iff {outputs : List Shape} :
    scatter [.of t dimensions] indices [.of t extents] d.mirrored (.pairwise t) = .ok outputs ↔
      outputs = [.of t dimensions] ∧ ∃ axes bounds places,
        Windowed (.of t dimensions) indices d extents.length axes bounds places ∧
        updateFits places extents.zipIdx bounds axes.batchExtents = true := by
  have htypes : ([Shape.of t dimensions].zip [Shape.of t extents]).mapM
      (scatterElementType (.of t dimensions) (.of t extents)) = .ok [t] := by
    simp [scatterElementType, commonElementType, elementType, Shape.of, require]
  simp only [scatter, bind_eq_ok, require_eq_ok, requireLength_eq_ok, entry_eq_ok, beq_iff_eq,
    indexedAxes_mirrored, List.length_singleton, List.getElem?_cons_zero, Option.some.injEq,
    exists_const, pure_eq_ok, Except.ok.injEq]
  constructor
  · rintro ⟨_, _, rfl, types, htypes', t₂, hindices, axes, haxes, bounds, hbounds, hcount, hrank,
      places, hplaces, hfits, _, hcombinator, rfl⟩
    exact ⟨rfl, axes, bounds, places, ⟨⟨t₂, hindices⟩, haxes, hbounds, hcount, hrank,
      sortedAxes_rename hplaces⟩, hfits⟩
  · rintro ⟨rfl, axes, bounds, places, h, hfits⟩
    obtain ⟨t₂, hindices⟩ := h.integers
    exact ⟨trivial, _, rfl, [t], htypes, t₂, hindices, axes, h.derived, bounds, h.bounded, h.count,
      h.rank_eq, places, sortedAxes_rename h.placed, hfits, (), requireCombinator_pairwise t, rfl⟩

/-- A gather puts out a shape of the element type of its operand. -/
theorem exists_of_gather {output : Shape}
    (h : gather (.of t dimensions) indices d sliceSizes = .ok output) :
    ∃ extents, output = .of t extents := by
  simp only [gather, bind_eq_ok] at h
  obtain ⟨t', ht, _, _, _, _, _, _, axes, _, _, _, window, _, _, _, places, _, hmade⟩ := h
  obtain rfl : t = t' := by simpa [elementType, Shape.of] using ht
  split at hmade
  · rename_i extents _
    exact ⟨extents, by simpa using hmade.symm⟩
  · cases hmade

/-- A scatter takes an update exactly when the gather that it mirrors puts it out for some slice
sizes.  So whatever is gathered can be scattered again. -/
theorem scatter_iff_exists_gather (t : ElementType) (dimensions : List Nat) (indices : Shape)
    (d : GatherDimensions) :
    (∀ extents,
      (∃ outputs, scatter [.of t dimensions] indices [.of t extents] d.mirrored (.pairwise t) =
        .ok outputs) ↔
      ∃ sliceSizes, gather (.of t dimensions) indices d sliceSizes = .ok (.of t extents)) ∧
    ∀ sliceSizes output, gather (.of t dimensions) indices d sliceSizes = .ok output →
      scatter [.of t dimensions] indices [output] d.mirrored (.pairwise t) =
        .ok [.of t dimensions] := by
  have hiff : ∀ extents,
      (∃ axes bounds places,
        Windowed (.of t dimensions) indices d extents.length axes bounds places ∧
        updateFits places extents.zipIdx bounds axes.batchExtents = true) ↔
      ∃ sliceSizes, gather (.of t dimensions) indices d sliceSizes = .ok (.of t extents) := by
    intro extents
    simp only [gather_eq_ok_iff, updateFits_iff, ← List.range_eq_range']
    constructor
    · rintro ⟨axes, bounds, places, h, window, hwindow, hmade⟩
      obtain ⟨sliceSizes, hslices, hleft⟩ :=
        exists_slice (lt_of_indexedAxes h.derived) h.bounded hwindow
      exact ⟨sliceSizes, axes, bounds, places, h, hslices, window, hleft, hmade⟩
    · rintro ⟨sliceSizes, axes, bounds, places, h, hslices, window, hleft, hmade⟩
      exact ⟨axes, bounds, places, h, window,
        forall₂_le_of_entries hslices.within hleft h.bounded, hmade⟩
  constructor
  · intro extents
    simp only [← hiff, scatter_mirrored_eq_ok_iff, exists_eq_left]
  · intro sliceSizes output h
    obtain ⟨extents, rfl⟩ := exists_of_gather h
    exact scatter_mirrored_eq_ok_iff.mpr ⟨rfl, (hiff extents).mpr ⟨sliceSizes, h⟩⟩

/-- Rows of a matrix that pairs of indices point to, with axes that count from the end. -/
theorem scatter_iff_exists_gather_rows :
    let d : GatherDimensions :=
      { offset := [-1], collapsed := [0, -2], indexMap := [0, 1], indexVector := -2 }
    let operand := Shape.of (.real .f32) [3, 4, 2]
    let indices := Shape.of (.signed .w32) [5, 2]
    gather operand indices d [1, 1, 2] = .ok (.of (.real .f32) [5, 2]) ∧
      scatter [operand] indices [.of (.real .f32) [5, 2]] d.mirrored (.pairwise (.real .f32)) =
        .ok [operand] := by
  intro d operand indices
  have hgather : gather operand indices d [1, 1, 2] = .ok (.of (.real .f32) [5, 2]) := by decide
  exact ⟨hgather, (scatter_iff_exists_gather (.real .f32) [3, 4, 2] indices d).2 _ _ hgather⟩

end Main

end Inference

end TensorProgram
