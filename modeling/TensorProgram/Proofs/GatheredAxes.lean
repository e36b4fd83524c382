import TensorProgram.Proofs.MirroredAccess

/-!
# Axes of gathered tensors

The output of a gather has two kinds of axes.  The listed offset axes hold, in order, the slice
sizes of the operand axes that windows keep, and the other axes hold, in order, the extents of the
indices without the index vector axis: `Gathered`.

`interleave?` fills the output by taking turns between both lists of extents.  The offset axes are
different and within the output, so there are as many of them as there are window extents, and as
many other axes as there are batch extents: neither list runs out and none is left over,
`exists_interleave?`.  So `gather_places` also says that no gather is rejected because its axes do
not cover the output.
-/

namespace TensorProgram

open ShapeError (Cause)

namespace GatherDimensions

/-- The operand axes that windows keep: those that are neither collapsed nor batching. -/
def keptAxes (d : GatherDimensions) (rank : Nat) : List Nat :=
  (List.range rank).filter fun axis =>
    (axis : Int) ∉ (d.collapsed ++ d.operandBatching).map (Inference.fromFront · rank)

/-- The output axes that are no offset axes. -/
def otherAxes (d : GatherDimensions) (rank : Nat) : List Nat :=
  (List.range rank).filter fun axis => (axis : Int) ∉ d.offset.map (Inference.fromFront · rank)

/-- The extents of the indices without the index vector axis. -/
def batchExtents (d : GatherDimensions) (indices : Shape) : List Nat :=
  indices.dimensions.eraseIdx (Inference.fromFront d.indexVector (indices.rank + 1)).toNat

/-- An index vector axis behind the last axis leaves all axes. -/
theorem batchExtents_of_trailing {d : GatherDimensions} {indices : Shape}
    (h : Inference.fromFront d.indexVector (indices.rank + 1) = indices.rank) :
    d.batchExtents indices = indices.dimensions := by
  rw [batchExtents, h, Int.toNat_natCast]
  exact List.eraseIdx_of_length_le (Nat.le_refl _)

end GatherDimensions

namespace Inference

/-! ## Taking turns -/

section Turns

variable {windowAxes axes window batch offset : List Nat}

/-- When there is a window extent for every window axis and a batch extent for every other axis,
the extents do not run out, and all of them are used. -/
theorem exists_interleave? (hwindow : window.length = (axes.filter windowAxes.contains).length)
    (hbatch : batch.length = (axes.filter (!windowAxes.contains ·)).length) :
    ∃ extents, interleave? windowAxes axes window batch = some extents ∧
      ((axes.zip extents).filter (windowAxes.contains ·.1)).map Prod.snd = window ∧
      ((axes.zip extents).filter (!windowAxes.contains ·.1)).map Prod.snd = batch := by
  induction axes generalizing window batch with
  | nil =>
    obtain rfl := List.length_eq_zero_iff.mp hwindow
    obtain rfl := List.length_eq_zero_iff.mp hbatch
    exact ⟨[], rfl, rfl, rfl⟩
  | cons axis axes ih =>
    cases haxis : windowAxes.contains axis with
    | true =>
      simp only [List.filter_cons, haxis, Bool.not_true, if_true, Bool.false_eq_true, if_false,
        List.length_cons] at hwindow hbatch
      obtain ⟨extent, window, rfl⟩ := List.exists_cons_of_length_eq_add_one hwindow
      obtain ⟨extents, hextents, hread, hrest⟩ := ih (Nat.succ.inj hwindow) hbatch
      refine ⟨extent :: extents, ?_, ?_⟩
      · simp only [interleave?, haxis, if_true, hextents, Option.map_some]
      · simp only [List.zip_cons_cons, List.filter_cons, haxis, Bool.not_true, if_true,
          Bool.false_eq_true, if_false, List.map_cons, hread, hrest, and_self]
    | false =>
      simp only [List.filter_cons, haxis, Bool.not_false, if_true, Bool.false_eq_true, if_false,
        List.length_cons] at hwindow hbatch
      obtain ⟨extent, batch, rfl⟩ := List.exists_cons_of_length_eq_add_one hbatch
      obtain ⟨extents, hextents, hread, hrest⟩ := ih hwindow (Nat.succ.inj hbatch)
      refine ⟨extent :: extents, ?_, ?_⟩
      · simp only [interleave?, haxis, Bool.false_eq_true, if_false, hextents, Option.map_some]
      · simp only [List.zip_cons_cons, List.filter_cons, haxis, Bool.not_false, if_true,
          Bool.false_eq_true, if_false, List.map_cons, hread, hrest, and_self]

/-- Positions in increasing order are all positions that are among them. -/
theorem filter_range_of_sorted {n : Nat} (hsorted : offset.Pairwise (· < ·))
    (hall : ∀ a ∈ offset, a < n) : (List.range n).filter offset.contains = offset := by
  have hperm : ((List.range n).filter offset.contains).Perm offset := by
    rw [List.perm_ext_iff_of_nodup (List.nodup_range.filter _) (hsorted.imp Nat.ne_of_lt)]
    intro a
    simp only [List.mem_filter, List.mem_range, List.contains_iff_mem]
    exact ⟨fun h => h.2, fun h => ⟨hall a h, h⟩⟩
  refine hperm.eq_of_pairwise ?_ (List.pairwise_lt_range.filter _) hsorted
  intro a b _ _ hab hba
  omega

/-- Sorted window axes within the output are filled with the window extents, and the other axes
with the batch extents. -/
theorem exists_interleave?_of_sorted {n : Nat} (hsorted : offset.Pairwise (· < ·))
    (hall : ∀ a ∈ offset, a < n) (hwindow : window.length = offset.length)
    (hn : n = batch.length + window.length) :
    ∃ extents, interleave? offset (List.range n) window batch = some extents ∧
      offset.map (extents[·]?) = window.map some ∧
      ((List.range n).filter (!offset.contains ·)).map (extents[·]?) = batch.map some := by
  have hoffset := filter_range_of_sorted hsorted hall
  have hcount : n = ((List.range n).filter offset.contains).length +
      ((List.range n).filter (!offset.contains ·)).length := by
    rw [← List.length_eq_length_filter_add, List.length_range]
  rw [hoffset] at hcount
  have hinside : window.length = ((List.range n).filter offset.contains).length := by
    rw [hoffset, hwindow]
  have houtside : batch.length = ((List.range n).filter (!offset.contains ·)).length := by
    omega
  obtain ⟨extents, hextents, hread, hrest⟩ := exists_interleave? hinside houtside
  obtain rfl : extents.length = n := by
    rw [length_of_interleave? hextents, List.length_range]
  refine ⟨extents, hextents, ?_, ?_⟩
  · rw [← hread, ← map_getElem?_filter_range]
    exact congrArg (List.map (extents[·]?)) hoffset.symm
  · rw [← hrest, ← map_getElem?_filter_range (!offset.contains ·)]

end Turns

/-! ## Gathers -/

/-- What the output of a gather holds: at its offset axes the slice sizes of the kept axes, and at
the other axes the extents of the indices. -/
structure Gathered (operand indices : Shape) (d : GatherDimensions) (sliceSizes : List Nat)
    (out : Shape) : Prop where
  elementType : out.elementType? = operand.elementType?
  rank : out.rank = (d.batchExtents indices).length + (d.keptAxes operand.rank).length
  offset : ∃ extents : List Nat, d.offset.map out.dimension? = extents.map some ∧
    (d.keptAxes operand.rank).map (sliceSizes[·]?) = extents.map some
  others : (d.otherAxes out.rank).map (out.dimensions[·]?) = (d.batchExtents indices).map some

section Gather

variable {operand indices out : Shape} {d : GatherDimensions} {sliceSizes : List Nat}
  {axes : IndexedAxes}

theorem windowAxes_eq (h : indexedAxes operand indices (GatherAccess.ofGather d) = .ok axes) :
    axes.windowAxes operand.rank = d.keptAxes operand.rank ∧
      axes.batchExtents = d.batchExtents indices := by
  simp only [indexedAxes, bind_eq_ok, pure_eq_ok, Except.ok.injEq, normalizeAxes_eq_ok_iff,
    normalizeAxis_eq_ok] at h
  obtain ⟨v, ⟨hv, _⟩, ds, ⟨hds, _⟩, bs, ⟨hbs, _⟩, _, _, _, _, _, _, _, _, _, _, _, _, _, _,
    rfl⟩ := h
  constructor
  · refine List.filter_congr fun axis _ => ?_
    have hlisted : (axis : Int) ∈
        (d.collapsed ++ d.operandBatching).map (fromFront · operand.rank) ↔
          axis ∈ ds ++ bs := by
      rw [List.map_append, List.mem_append, List.mem_append]
      exact or_congr (natCast_mem_iff hds) (natCast_mem_iff hbs)
    rw [Bool.eq_iff_iff, decide_eq_true_eq, hlisted]
    simp
  · have hv : fromFront d.indexVector (indices.rank + 1) = v := by exact_mod_cast hv
    rw [extentsExcept_singleton, GatherDimensions.batchExtents, hv, Int.toNat_natCast]

/-- The extents of the output are found, whatever is asked of the indices and the slice sizes
besides. -/
theorem gathered_of_sorted (h : indexedAxes operand indices (GatherAccess.ofGather d) = .ok axes)
    {window offset : List Nat} {t : ElementType} (ht : operand.elementType? = some t)
    (hwindow : (axes.windowAxes operand.rank).mapM (entry sliceSizes) = .ok window)
    (hcount : window.length = d.offset.length)
    (hsorted : sortedAxes "offset_dims" d.offset (axes.batchExtents.length + window.length) =
      .ok offset) :
    ∃ extents, interleave? offset (List.range (axes.batchExtents.length + window.length)) window
        axes.batchExtents = some extents ∧
      Gathered operand indices d sliceSizes (.of t extents) := by
  obtain ⟨hkept, hbatch⟩ := windowAxes_eq h
  obtain ⟨hfront, hall, hpairwise⟩ := sortedAxes_eq_ok.mp hsorted
  have hoffset : window.length = offset.length := by
    have := congrArg List.length hfront
    simpa [hcount] using this
  obtain ⟨extents, hextents, hread, hrest⟩ :=
    exists_interleave?_of_sorted hpairwise hall hoffset rfl
  have hrank : (Shape.of t extents).rank = axes.batchExtents.length + window.length := by
    have := length_of_interleave? hextents
    rwa [List.length_range] at this
  have hslices : (axes.windowAxes operand.rank).map (sliceSizes[·]?) = window.map some := by
    rw [← List.forall₂_eq_eq_eq, List.forall₂_map_left_iff, List.forall₂_map_right_iff]
    exact (mapM_eq_ok.mp hwindow).imp fun _ _ => entry_eq_ok.mp
  rw [← hrank] at hfront
  refine ⟨extents, hextents, ht.symm, ?_, ⟨window, ?_, ?_⟩, ?_⟩
  · rw [hrank, hbatch, ← hkept, (mapM_eq_ok.mp hwindow).length_eq]
  · rw [map_dimension? hfront]
    exact hread
  · rw [← hkept, hslices]
  · have hothers : d.otherAxes (Shape.of t extents).rank =
        (List.range (Shape.of t extents).rank).filter (!offset.contains ·) := by
      refine List.filter_congr fun axis _ => ?_
      simp [natCast_mem_iff hfront]
    rw [hothers, hrank, ← hbatch]
    exact hrest

/-! ### Causes

A gather is followed check by check.  Only the last one could end in the cause that is ruled out. -/

/-- The cause does not say that a part of the output is not covered. -/
def Covered : Cause → Prop
  | .invalidParameter _ problem => problem ≠ .outputNotCovered
  | _ => True

theorem covered_elementType {s : Shape} : FailsOnlyWith Covered (elementType s) := by
  unfold elementType
  split
  · exact .pure _
  · exact .error trivial

theorem covered_normalizeAxis {axis : Int} {rank : Nat} :
    FailsOnlyWith Covered (normalizeAxis axis rank) := by
  unfold normalizeAxis
  split
  · exact .pure _
  · exact .error trivial

theorem covered_addAxis {parameter : String} {rank : Nat} {seen : List Nat} {axis : Int} :
    FailsOnlyWith Covered (addAxis parameter rank seen axis) :=
  .bind covered_normalizeAxis fun _ _ => .bind (.require trivial) fun _ _ => .pure _

theorem covered_normalizeAxes {parameter : String} {listed : List Int} {rank : Nat} :
    FailsOnlyWith Covered (normalizeAxes parameter listed rank) :=
  .foldlM_of_forall (fun _ _ => covered_addAxis) []

theorem covered_requireLength {parameter : String} {expected actual : Nat} :
    FailsOnlyWith Covered (requireLength parameter expected actual) :=
  .require trivial

theorem covered_requireDisjoint {xs others : List Nat} {otherwise : Nat → Cause}
    (h : ∀ axis, Covered (otherwise axis)) :
    FailsOnlyWith Covered (requireDisjoint xs others otherwise) := by
  unfold requireDisjoint
  split
  · exact .error (h _)
  · exact .pure ()

theorem covered_indexedAxes {access : IndexedAccess} :
    FailsOnlyWith Covered (indexedAxes operand indices access) := by
  refine .bind covered_normalizeAxis fun _ _ => .bind covered_normalizeAxes fun _ _ => ?_
  refine .bind covered_normalizeAxes fun _ _ => ?_
  refine .bind (covered_requireDisjoint fun _ => trivial) fun _ _ => ?_
  refine .bind covered_normalizeAxes fun _ _ => .bind covered_requireLength fun _ _ => ?_
  refine .bind (.forM fun _ _ => ?_) fun _ _ => .bind covered_requireLength fun _ _ => ?_
  · exact .bind (.require nofun) fun _ _ => .bind (.entry trivial) fun _ _ =>
      .bind (.entry trivial) fun _ _ => .require nofun
  · refine .bind covered_normalizeAxes fun _ _ => ?_
    exact .bind (covered_requireDisjoint fun _ => nofun) fun _ _ => .pure _

theorem covered_sortedAxes {parameter : String} {listed : List Int} {rank : Nat} :
    FailsOnlyWith Covered (sortedAxes parameter listed rank) :=
  .bind covered_normalizeAxes fun _ _ => .bind (.require nofun) fun _ _ => .pure _

/-- No gather ends because its axes do not cover the output: once the axes are sorted, they do. -/
theorem covered_gather : FailsOnlyWith Covered (gather operand indices d sliceSizes) := by
  refine .bind covered_elementType fun t ht => ?_
  refine .bind (.bind covered_elementType fun _ _ => .bind (.require trivial) fun _ _ => .pure _)
    fun _ _ => .bind covered_requireLength fun _ _ => ?_
  refine .bind (.forM fun _ _ => .require nofun) fun _ _ => ?_
  refine .bind covered_indexedAxes fun axes haxes => ?_
  refine .bind (.forM fun _ _ => .bind (.entry trivial) fun _ _ => .require nofun) fun _ _ => ?_
  refine .bind (.mapM fun _ _ => .entry trivial) fun window hwindow => ?_
  refine .bind covered_requireLength fun _ hcount => ?_
  refine .bind covered_sortedAxes fun offset hsorted => ?_
  obtain ⟨extents, hextents, _⟩ := gathered_of_sorted haxes (elementType_eq_ok.mp ht) hwindow
    (requireLength_eq_ok.mp hcount) hsorted
  rw [hextents]
  exact .pure _

/-- Every gather that is accepted puts out the slice sizes of the kept axes at its offset axes and
the extents of the indices at the others, and none is rejected because both together do not cover
the output. -/
theorem gather_places (operand indices : Shape) (d : GatherDimensions) (sliceSizes : List Nat) :
    (∀ out, gather operand indices d sliceSizes = .ok out →
      Gathered operand indices d sliceSizes out) ∧
    ∀ parameter, gather operand indices d sliceSizes ≠
      .error (.invalidParameter parameter .outputNotCovered) := by
  constructor
  · intro out h
    simp only [gather, bind_eq_ok, elementType_eq_ok, requireLength_eq_ok] at h
    obtain ⟨t, ht, _, _, _, _, _, _, axes, haxes, _, _, window, hwindow, _, hcount, offset,
      hsorted, hmade⟩ := h
    obtain ⟨extents, hextents, hgathered⟩ :=
      gathered_of_sorted haxes ht hwindow hcount hsorted
    rw [hextents] at hmade
    obtain rfl := Except.ok.inj hmade
    exact hgathered
  · intro parameter h
    exact covered_gather _ h rfl

/-- Windows around the batches, with index vectors of length one. -/
theorem gather_places_around :
    let operand := Shape.of (.real .f32) [7, 5, 9]
    let indices := Shape.of (.signed .w64) [2, 3]
    let d : GatherDimensions :=
      { offset := [0, -1], collapsed := [-2], indexMap := [1], indexVector := -1 }
    let out := Shape.of (.real .f32) [4, 2, 3, 6]
    gather operand indices d [4, 1, 6] = .ok out ∧ Gathered operand indices d [4, 1, 6] out ∧
      d.keptAxes operand.rank = [0, 2] ∧ d.otherAxes out.rank = [1, 2] ∧
      d.batchExtents indices = indices.dimensions := by
  intro operand indices d out
  have hout : gather operand indices d [4, 1, 6] = .ok out := by decide
  exact ⟨hout, (gather_places operand indices d [4, 1, 6]).1 out hout, by decide, by decide,
    GatherDimensions.batchExtents_of_trailing (by decide)⟩

end Gather

end Inference

end TensorProgram
