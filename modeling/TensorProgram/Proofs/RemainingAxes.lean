import Mathlib.Algebra.BigOperators.Group.List.Basic
import Mathlib.Data.List.Zip
import Mathlib.Data.Option.Basic
import TensorProgram.Proofs.Axes

/-!
# Axes that remain

Some axes of a tensor are listed, in any order and from either end, and the others remain:
`Inference.axesExcept`.  The extents that remain are those of the axes that remain, in order,
`map_getElem?_remaining`, and together with the extents of the listed axes they are all extents,
`perm_extentsExcept`.  So the numbers of elements multiply, `prod_extentsExcept`.
-/

namespace TensorProgram

theorem Shape.size_eq_prod (s : Shape) : s.size = s.dimensions.prod :=
  List.prod_eq_foldl.symm

namespace Inference

/-- The axes of a tensor that are not listed. -/
def axesExcept (listed : List Int) (rank : Nat) : List Nat :=
  (List.range rank).filter fun axis => (axis : Int) ∉ listed.map (fromFront · rank)

variable {listed : List Int} {rank : Nat} {as dimensions extents : List Nat}

theorem axesExcept_eq (h : listed.map (fromFront · rank) = as.map Int.ofNat) :
    axesExcept listed rank = (List.range rank).filter (!as.contains ·) := by
  apply List.filter_congr
  intro axis _
  simp [natCast_mem_iff h]

/-- The extents that remain are those of the axes that remain. -/
theorem map_getElem?_remaining (dimensions as : List Nat) :
    ((List.range dimensions.length).filter (!as.contains ·)).map (dimensions[·]?) =
      (extentsExcept dimensions as).map some := by
  have hswap : (List.range dimensions.length).zip dimensions =
      dimensions.zipIdx.map Prod.swap := by
    rw [List.zipIdx_eq_zip_range', List.range_eq_range', List.zip_swap]
  rw [map_getElem?_filter_range, hswap, List.filter_map, List.map_map (f := Prod.swap)]
  rfl

theorem length_extentsExcept (dimensions as : List Nat) :
    (extentsExcept dimensions as).length =
      ((List.range dimensions.length).filter (!as.contains ·)).length := by
  simpa using (congrArg List.length (map_getElem?_remaining dimensions as)).symm

/-- Listed axes and those that remain are all axes. -/
theorem perm_range_of_nodup (hnodup : as.Nodup) (hlt : ∀ a ∈ as, a < rank) :
    (as ++ (List.range rank).filter (!as.contains ·)).Perm (List.range rank) := by
  have hall : (as ++ (List.range rank).filter (!as.contains ·)).Nodup := by
    apply hnodup.append (List.nodup_range.filter _)
    intro a ha hrest
    simp [ha] at hrest
  rw [List.perm_ext_iff_of_nodup hall List.nodup_range]
  intro a
  by_cases ha : a ∈ as
  · simp [ha, hlt a ha]
  · simp [ha]

/-- Axes that have extents are in range. -/
theorem lt_of_map_getElem? (hextents : as.map (dimensions[·]?) = extents.map some) :
    ∀ a ∈ as, a < dimensions.length := by
  intro a ha
  have hmem : dimensions[a]? ∈ extents.map some := hextents ▸ List.mem_map_of_mem ha
  obtain ⟨n, _, hn⟩ := List.mem_map.mp hmem
  exact (List.getElem?_eq_some_iff.mp hn.symm).1

/-- Axes in range have extents. -/
theorem exists_extents (h : ∀ a ∈ as, a < dimensions.length) :
    ∃ extents : List Nat, as.map (dimensions[·]?) = extents.map some := by
  obtain ⟨extents, hextents⟩ : ∃ extents, List.Forall₂ (fun a n => dimensions[a]? = some n) as
      extents :=
    exists_forall₂_iff.mpr fun a ha =>
      ⟨dimensions.get ⟨a, h a ha⟩, List.getElem?_eq_getElem (h a ha)⟩
  refine ⟨extents, ?_⟩
  rwa [← List.forall₂_eq_eq_eq, List.forall₂_map_left_iff, List.forall₂_map_right_iff]

/-- The extents of different axes, and those that remain without them, are all extents. -/
theorem perm_extentsExcept (hnodup : as.Nodup)
    (hextents : as.map (dimensions[·]?) = extents.map some) :
    (extents ++ extentsExcept dimensions as).Perm dimensions := by
  have hperm := (perm_range_of_nodup hnodup (lt_of_map_getElem? hextents)).map (dimensions[·]?)
  have hrange : (List.range dimensions.length).map (dimensions[·]?) = dimensions.map some := by
    apply List.ext_getElem?
    intro i
    by_cases hi : i < dimensions.length
    · simp [hi]
    · simp [hi]
  rw [List.map_append, hextents, map_getElem?_remaining, ← List.map_append, hrange] at hperm
  exact (List.map_perm_map_iff (Option.some_injective Nat)).mp hperm

theorem prod_extentsExcept (hnodup : as.Nodup)
    (hextents : as.map (dimensions[·]?) = extents.map some) :
    extents.prod * (extentsExcept dimensions as).prod = dimensions.prod := by
  rw [← List.prod_append]
  exact (perm_extentsExcept hnodup hextents).prod_eq

end Inference

end TensorProgram
