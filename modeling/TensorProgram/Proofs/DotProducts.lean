import Mathlib.Tactic.Ring
import TensorProgram.Proofs.Faults
import TensorProgram.Proofs.RemainingAxes

/-!
# General dot products

A general dot product is accepted when the listed axes of both operands are in range, each operand
lists no axis twice, and the extents of paired axes agree: `dotGeneral_eq_ok`.  The result then has
the batching extents and the free extents of both operands, and together with the contracted extents
they account for all elements of the operands, `dotGeneral_extents`.

What is asked of an operand, `DotAxes.Reads`, does not depend on which operand it is, so swapping
the operands changes nothing but the order of the free extents.
-/

namespace TensorProgram

/-- The same pairs of axes for the operands in the other order. -/
def DotDimensions.swap (d : DotDimensions) : DotDimensions where
  lhsBatching := d.rhsBatching
  rhsBatching := d.lhsBatching
  lhsContracting := d.rhsContracting
  rhsContracting := d.lhsContracting

namespace Inference

variable {lhs rhs s out : Shape} {d : DotDimensions} {a : DotAxes}

/-! ## Checks -/

theorem requireDotDisjoint_eq_ok {parameter : String} {u : Unit} :
    a.requireDisjoint parameter = .ok u ↔ ∀ axis ∈ a.contracting, axis ∉ a.batching := by
  unfold DotAxes.requireDisjoint
  split
  · rename_i axis hfound
    have hmem := List.mem_of_find?_eq_some hfound
    have hshared := List.find?_some hfound
    simp only [reduceCtorEq, false_iff, not_forall, not_not]
    exact ⟨axis, hmem, by simpa using hshared⟩
  · rename_i hnone
    simpa using hnone

theorem requirePair_eq_ok {pair : Nat × Nat} {u : Unit} :
    requirePair lhs rhs pair = .ok u ↔
      ∃ n, lhs.dimensions[pair.1]? = some n ∧ rhs.dimensions[pair.2]? = some n := by
  simp only [requirePair, bind_eq_ok, entry_eq_ok, require_eq_ok, beq_iff_eq]
  constructor
  · intro h
    obtain ⟨m, hm, n, hn, rfl⟩ := h
    exact ⟨m, hm, hn⟩
  · intro h
    obtain ⟨n, hl, hr⟩ := h
    exact ⟨n, hl, n, hr, rfl⟩

theorem mapM_entry_eq_ok {xs extents as : List Nat} :
    as.mapM (entry xs) = .ok extents ↔ as.map (xs[·]?) = extents.map some := by
  rw [mapM_eq_ok, ← List.forall₂_eq_eq_eq, List.forall₂_map_left_iff, List.forall₂_map_right_iff]
  simp only [entry_eq_ok]

/-- Axes that are paired have their extents in common. -/
theorem forall_pairs_iff {as bs : List Nat} (hlength : as.length = bs.length) :
    (∀ pair ∈ as.zip bs, ∃ n, lhs.dimensions[pair.1]? = some n ∧
        rhs.dimensions[pair.2]? = some n) ↔
      ∃ extents : List Nat, as.map (lhs.dimensions[·]?) = extents.map some ∧
        bs.map (rhs.dimensions[·]?) = extents.map some := by
  induction as generalizing bs with
  | nil =>
    obtain rfl := List.length_eq_zero_iff.mp hlength.symm
    simp
  | cons i as ih =>
    obtain ⟨j, bs, rfl⟩ := List.exists_cons_of_length_eq_add_one hlength.symm
    simp only [List.length_cons, Nat.add_right_cancel_iff] at hlength
    rw [List.zip_cons_cons, List.forall_mem_cons, ih hlength]
    constructor
    · intro h
      obtain ⟨⟨n, hl, hr⟩, extents, hls, hrs⟩ := h
      exact ⟨n :: extents, by simp [hl, hls], by simp [hr, hrs]⟩
    · intro h
      obtain ⟨extents, hl, hr⟩ := h
      cases extents with
      | nil => simp at hl
      | cons n extents =>
        simp only [List.map_cons, List.cons.injEq] at hl hr
        exact ⟨⟨n, hl.1, hr.1⟩, extents, hl.2, hr.2⟩

/-! ## One operand -/

/-- The axes are those that are listed for an operand, each once, and the operand has the given
extents along them. -/
structure DotAxes.Reads (a : DotAxes) (s : Shape) (batching contracting : List Int)
    (batch summed : List Nat) : Prop where
  batching : batching.map (fromFront · s.rank) = a.batching.map Int.ofNat
  contracting : contracting.map (fromFront · s.rank) = a.contracting.map Int.ofNat
  nodup : (a.batching ++ a.contracting).Nodup
  batch : a.batching.map (s.dimensions[·]?) = batch.map some
  summed : a.contracting.map (s.dimensions[·]?) = summed.map some

namespace DotAxes.Reads

variable {batching contracting : List Int} {batch summed : List Nat}

/-- The free extents are those of the axes that are not listed. -/
theorem free (h : a.Reads s batching contracting batch summed) :
    (axesExcept (batching ++ contracting) s.rank).map (s.dimensions[·]?) =
      (a.freeExtents s).map some := by
  have hlisted : (batching ++ contracting).map (fromFront · s.rank) =
      (a.batching ++ a.contracting).map Int.ofNat := by
    rw [List.map_append, List.map_append, h.batching, h.contracting]
  rw [axesExcept_eq hlisted]
  exact map_getElem?_remaining s.dimensions (a.batching ++ a.contracting)

/-- The extents account for all elements of the operand. -/
theorem size_eq (h : a.Reads s batching contracting batch summed) :
    batch.prod * summed.prod * (a.freeExtents s).prod = s.size := by
  have hextents : (a.batching ++ a.contracting).map (s.dimensions[·]?) =
      (batch ++ summed).map some := by
    rw [List.map_append, List.map_append, h.batch, h.summed]
  rw [s.size_eq_prod, ← List.prod_append]
  exact prod_extentsExcept h.nodup hextents

/-- Listed axes that have been normalized are read when no contracting axis is a batching axis. -/
theorem of_normalizeAxes {batchingParameter contractingParameter : String}
    (hbatching : normalizeAxes batchingParameter batching s.rank = .ok a.batching)
    (hcontracting : normalizeAxes contractingParameter contracting s.rank = .ok a.contracting)
    (hdisjoint : ∀ axis ∈ a.contracting, axis ∉ a.batching)
    (hbatch : a.batching.map (s.dimensions[·]?) = batch.map some)
    (hsummed : a.contracting.map (s.dimensions[·]?) = summed.map some) :
    a.Reads s batching contracting batch summed := by
  obtain ⟨hfrontBatching, _, hnodupBatching⟩ := normalizeAxes_eq_ok_iff.mp hbatching
  obtain ⟨hfrontContracting, _, hnodupContracting⟩ := normalizeAxes_eq_ok_iff.mp hcontracting
  refine ⟨hfrontBatching, hfrontContracting, ?_, hbatch, hsummed⟩
  apply hnodupBatching.append hnodupContracting
  intro axis hl hr
  exact hdisjoint axis hr hl

/-- Both lists of axes that are read can be normalized. -/
theorem normalizeAxes_eq_ok (h : a.Reads s batching contracting batch summed) :
    (∀ parameter, normalizeAxes parameter batching s.rank = .ok a.batching) ∧
      (∀ parameter, normalizeAxes parameter contracting s.rank = .ok a.contracting) ∧
      ∀ axis ∈ a.contracting, axis ∉ a.batching := by
  obtain ⟨hbatching, hcontracting, hdisjoint⟩ := List.nodup_append.mp h.nodup
  refine ⟨?_, ?_, ?_⟩
  · intro parameter
    exact normalizeAxes_eq_ok_iff.mpr ⟨h.batching, lt_of_map_getElem? h.batch, hbatching⟩
  · intro parameter
    exact normalizeAxes_eq_ok_iff.mpr ⟨h.contracting, lt_of_map_getElem? h.summed, hcontracting⟩
  · intro axis hr hl
    exact hdisjoint axis hl axis hr rfl

end DotAxes.Reads

/-! ## Both operands -/

/-- A general dot product is accepted when both operands have the same element type and their axes
can be read, with the same extents along paired axes. -/
theorem dotGeneral_eq_ok :
    dotGeneral lhs rhs d = .ok out ↔
      ∃ t l r batch summed, lhs.elementType? = some t ∧ rhs.elementType? = some t ∧
        DotAxes.Reads l lhs d.lhsBatching d.lhsContracting batch summed ∧
        DotAxes.Reads r rhs d.rhsBatching d.rhsContracting batch summed ∧
        out = .of t (batch ++ l.freeExtents lhs ++ r.freeExtents rhs) := by
  simp only [dotGeneral, bind_eq_ok, commonElementType_eq_ok, requireLength_eq_ok,
    requireDotDisjoint_eq_ok, mapM_entry_eq_ok, pure_eq_ok, Except.ok.injEq]
  constructor
  · intro h
    obtain ⟨t, ⟨hlt, hrt⟩, lb, hlb, rb, hrb, lc, hlc, rc, hrc, _, hbatching, _, hcontracting, _,
      hl, _, hr, _, hpairs, batch, hbatch, rfl⟩ := h
    rw [forM_eq_ok, List.forall_mem_append] at hpairs
    simp only [requirePair_eq_ok] at hpairs
    obtain ⟨batch', hlbatch, hrbatch⟩ := (forall_pairs_iff hbatching).mp hpairs.1
    obtain ⟨summed, hlsummed, hrsummed⟩ := (forall_pairs_iff hcontracting).mp hpairs.2
    obtain rfl : batch = batch' := by
      apply List.map_injective_iff.mpr (Option.some_injective Nat)
      rw [← hbatch, ← hlbatch]
    exact ⟨t, ⟨lb, lc⟩, ⟨rb, rc⟩, batch, summed, hlt, hrt,
      .of_normalizeAxes hlb hlc hl hlbatch hlsummed,
      .of_normalizeAxes hrb hrc hr hrbatch hrsummed, rfl⟩
  · intro h
    obtain ⟨t, l, r, batch, summed, hlt, hrt, hl, hr, rfl⟩ := h
    obtain ⟨hlb, hlc, hldisjoint⟩ := hl.normalizeAxes_eq_ok
    obtain ⟨hrb, hrc, hrdisjoint⟩ := hr.normalizeAxes_eq_ok
    have hbatching : l.batching.length = r.batching.length := by
      simpa using congrArg List.length (hl.batch.trans hr.batch.symm)
    have hcontracting : l.contracting.length = r.contracting.length := by
      simpa using congrArg List.length (hl.summed.trans hr.summed.symm)
    refine ⟨t, ⟨hlt, hrt⟩, _, hlb _, _, hrb _, _, hlc _, _, hrc _, (), hbatching, (), hcontracting,
      (), hldisjoint, (), hrdisjoint, (), ?_, batch, hl.batch, rfl⟩
    rw [forM_eq_ok, List.forall_mem_append]
    simp only [requirePair_eq_ok]
    exact ⟨(forall_pairs_iff hbatching).mpr ⟨batch, hl.batch, hr.batch⟩,
      (forall_pairs_iff hcontracting).mpr ⟨summed, hl.summed, hr.summed⟩⟩

/-- The extents that a general dot product deals with: those of the paired batching axes and of the
paired contracting axes, each in listed order, and those of the axes of each operand that are
neither, in the order of the operand. -/
structure DotExtents (lhs rhs : Shape) (d : DotDimensions)
    (batch summed lhsFree rhsFree : List Nat) : Prop where
  lhsBatch : d.lhsBatching.map lhs.dimension? = batch.map some
  rhsBatch : d.rhsBatching.map rhs.dimension? = batch.map some
  lhsSummed : d.lhsContracting.map lhs.dimension? = summed.map some
  rhsSummed : d.rhsContracting.map rhs.dimension? = summed.map some
  lhsFree : (axesExcept (d.lhsBatching ++ d.lhsContracting) lhs.rank).map (lhs.dimensions[·]?) =
    lhsFree.map some
  rhsFree : (axesExcept (d.rhsBatching ++ d.rhsContracting) rhs.rank).map (rhs.dimensions[·]?) =
    rhsFree.map some

theorem DotExtents.of_reads {l r : DotAxes} {batch summed : List Nat}
    (hl : l.Reads lhs d.lhsBatching d.lhsContracting batch summed)
    (hr : r.Reads rhs d.rhsBatching d.rhsContracting batch summed) :
    DotExtents lhs rhs d batch summed (l.freeExtents lhs) (r.freeExtents rhs) where
  lhsBatch := (map_dimension? hl.batching).trans hl.batch
  rhsBatch := (map_dimension? hr.batching).trans hr.batch
  lhsSummed := (map_dimension? hl.contracting).trans hl.summed
  rhsSummed := (map_dimension? hr.contracting).trans hr.summed
  lhsFree := hl.free
  rhsFree := hr.free

/-- A general dot product that is accepted is accepted with its operands swapped. -/
theorem exists_swap_of_dotGeneral (h : dotGeneral lhs rhs d = .ok out) :
    ∃ out', dotGeneral rhs lhs d.swap = .ok out' := by
  obtain ⟨t, l, r, batch, summed, hlt, hrt, hl, hr, _⟩ := dotGeneral_eq_ok.mp h
  exact ⟨_, dotGeneral_eq_ok.mpr ⟨t, r, l, batch, summed, hrt, hlt, hr, hl, rfl⟩⟩

/-- The result of a general dot product has the batching extents, then the free extents of the left
operand, then those of the right one.  It has as many elements as both operands together, when those
along batching axes are counted once and those along contracting axes not at all.  With the operands
swapped, it is accepted as well, and no other one is. -/
theorem dotGeneral_extents (lhs rhs : Shape) (d : DotDimensions) :
    (∀ out, dotGeneral lhs rhs d = .ok out →
      ∃ t batch summed lhsFree rhsFree, lhs.elementType? = some t ∧ rhs.elementType? = some t ∧
        DotExtents lhs rhs d batch summed lhsFree rhsFree ∧
        out = .of t (batch ++ lhsFree ++ rhsFree) ∧
        out.size * batch.prod * summed.prod ^ 2 = lhs.size * rhs.size ∧
        dotGeneral rhs lhs d.swap = .ok (.of t (batch ++ rhsFree ++ lhsFree))) ∧
    ((∃ out, dotGeneral lhs rhs d = .ok out) ↔ ∃ out, dotGeneral rhs lhs d.swap = .ok out) := by
  refine ⟨?_, ?_, ?_⟩
  · intro out h
    obtain ⟨t, l, r, batch, summed, hlt, hrt, hl, hr, rfl⟩ := dotGeneral_eq_ok.mp h
    refine ⟨t, batch, summed, l.freeExtents lhs, r.freeExtents rhs, hlt, hrt, .of_reads hl hr, rfl,
      ?_, ?_⟩
    · rw [← hl.size_eq, ← hr.size_eq, Shape.size_eq_prod]
      simp only [Shape.of, List.prod_append]
      ring
    · exact dotGeneral_eq_ok.mpr ⟨t, r, l, batch, summed, hrt, hlt, hr, hl, rfl⟩
  · intro h
    obtain ⟨out, hout⟩ := h
    exact exists_swap_of_dotGeneral hout
  · intro h
    obtain ⟨out, hout⟩ := h
    exact exists_swap_of_dotGeneral hout

/-- Batching axes in another order than the axes have, with contracting and free axes between
them. -/
theorem dotGeneral_extents_batched :
    let lhs := Shape.of (.real .f32) [2, 3, 4, 5]
    let rhs := Shape.of (.real .f32) [5, 1, 2, 3]
    let d : DotDimensions :=
      { lhsBatching := [-1, 0], rhsBatching := [0, 2]
        lhsContracting := [1], rhsContracting := [-1] }
    let out := Shape.of (.real .f32) [5, 2, 4, 1]
    dotGeneral lhs rhs d = .ok out ∧ out.size * 10 * 3 ^ 2 = lhs.size * rhs.size ∧
      ∃ out', dotGeneral rhs lhs d.swap = .ok out' := by
  intro lhs rhs d out
  have hout : dotGeneral lhs rhs d = .ok out := by decide
  obtain ⟨hextents, hswap⟩ := dotGeneral_extents lhs rhs d
  obtain ⟨t, batch, summed, lhsFree, rhsFree, _, _, hd, _, hsize, _⟩ := hextents out hout
  obtain rfl : [5, 2] = batch := by
    apply List.map_injective_iff.mpr (Option.some_injective Nat)
    exact hd.lhsBatch
  obtain rfl : [3] = summed := by
    apply List.map_injective_iff.mpr (Option.some_injective Nat)
    exact hd.lhsSummed
  exact ⟨hout, hsize, hswap.mp ⟨out, hout⟩⟩

end Inference

end TensorProgram
