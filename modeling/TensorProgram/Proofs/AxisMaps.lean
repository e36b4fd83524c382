import Mathlib.Data.List.GetD
import TensorProgram.Proofs.Faults

/-!
# Maps of axes

The axes of one tensor are mapped to those of another one by a list that has an axis for each of
them.  Two such lists are composed by reading one at the positions that the other one holds,
`composeAxes`.  Lists that are normalized have a composition that is normalized,
`normalizeAxes_composeAxes`, since different entries are read at different positions.

A list permutes the axes of a tensor when it holds each of them once, from either end, `Permutes`.
The checks ask for as many axes as the tensor has, in range and without repetitions, which is the
same, `permutes_iff`.  A permutation has an inverse, `exists_inverse`.
-/

namespace TensorProgram.Inference

/-- Every axis in its own place. -/
def identityAxes (rank : Nat) : List Int :=
  (List.range rank).map Int.ofNat

/-- The entries of one list of axes at the positions that another one holds, counted from the
front. -/
def composeAxes (outer inner : List Int) (rank : Nat) : List Int :=
  inner.map fun position => fromFront (outer.getD (fromFront position outer.length).toNat 0) rank

/-- The list holds all axes of a tensor, in any order and from either end. -/
def Permutes (axes : List Int) (rank : Nat) : Prop :=
  (axes.map (fromFront · rank)).Perm (identityAxes rank)

instance (axes : List Int) (rank : Nat) : Decidable (Permutes axes rank) :=
  inferInstanceAs (Decidable (List.Perm _ _))

/-- The second list permutes the axes back, whichever of the two comes first. -/
structure Inverse (axes back : List Int) (rank : Nat) : Prop where
  permutes : Permutes back rank
  after : composeAxes axes back rank = identityAxes rank
  before : composeAxes back axes rank = identityAxes rank

section Maps

variable {parameter parameter' parameter'' : String} {rank i : Nat} {axes outer inner : List Int}
  {as os is : List Nat}

theorem normalizeAxes_identityAxes :
    normalizeAxes parameter (identityAxes rank) rank = .ok (List.range rank) :=
  normalizeAxes_map_ofNat (fun _ ha => List.mem_range.mp ha) List.nodup_range

/-! ## Compositions -/

/-- An entry that is normalized is read from the normalized list. -/
theorem fromFront_getD (h : normalizeAxes parameter outer rank = .ok os) (hi : i < outer.length) :
    fromFront (outer.getD i 0) rank = (os.getD i 0 : Nat) := by
  have hfront := (normalizeAxes_eq_ok_iff.mp h).1
  have hlength : outer.length = os.length := (length_of_normalizeAxes h).symm
  have hentry : (outer.map (fromFront · rank))[i]? = (os.map Int.ofNat)[i]? := by rw [hfront]
  rw [List.getD_eq_getElem _ _ hi, List.getD_eq_getElem _ _ (hlength ▸ hi)]
  simpa [hi, hlength ▸ hi] using hentry

theorem composeAxes_eq (houter : normalizeAxes parameter outer rank = .ok os)
    (hinner : normalizeAxes parameter' inner outer.length = .ok is) :
    composeAxes outer inner rank = (is.map (os.getD · 0)).map Int.ofNat := by
  obtain ⟨hpositions, hlt, _⟩ := normalizeAxes_eq_ok_iff.mp hinner
  have hread : composeAxes outer inner rank = (inner.map (fromFront · outer.length)).map
      fun position => fromFront (outer.getD position.toNat 0) rank := by
    rw [List.map_map]
    rfl
  rw [hread, hpositions, List.map_map, List.map_map]
  apply List.map_congr_left
  intro i hi
  exact fromFront_getD houter (hlt i hi)

/-- A composition of normalized lists is normalized. -/
theorem normalizeAxes_composeAxes (houter : normalizeAxes parameter outer rank = .ok os)
    (hinner : normalizeAxes parameter' inner outer.length = .ok is) :
    normalizeAxes parameter'' (composeAxes outer inner rank) rank = .ok (is.map (os.getD · 0)) := by
  obtain ⟨_, hlt, hnodup⟩ := normalizeAxes_eq_ok_iff.mp houter
  obtain ⟨_, hpositions, hdistinct⟩ := normalizeAxes_eq_ok_iff.mp hinner
  have hread : ∀ i ∈ is, i < os.length := by
    intro i hi
    rw [length_of_normalizeAxes houter]
    exact hpositions i hi
  rw [composeAxes_eq houter hinner]
  apply normalizeAxes_map_ofNat
  · intro a ha
    obtain ⟨i, hi, rfl⟩ := List.mem_map.mp ha
    rw [List.getD_eq_getElem _ _ (hread i hi)]
    exact hlt _ (List.getElem_mem _)
  · apply List.Nodup.map_on _ hdistinct
    intro i hi j hj hij
    rw [List.getD_eq_getElem _ _ (hread i hi), List.getD_eq_getElem _ _ (hread j hj)] at hij
    exact hnodup.getElem_inj_iff.mp hij

/-! ## Permutations -/

/-- As many axes as the tensor has, all of them in range and different, are all axes. -/
theorem permutes_iff :
    Permutes axes rank ↔
      rank = axes.length ∧ ∃ as, normalizeAxes parameter axes rank = .ok as := by
  constructor
  · intro h
    have hrange : List.Forall₂ (fun axis a => axis = Int.ofNat a) (identityAxes rank)
        (List.range rank) := by
      rw [identityAxes, List.forall₂_map_left_iff, List.forall₂_same]
      exact fun _ _ => rfl
    obtain ⟨as, has, hperm⟩ := List.perm_comp_forall₂ h hrange
    obtain ⟨_, hnodup, hlt⟩ := perm_range_iff.mp hperm
    have hlength : rank = axes.length := by simpa [identityAxes] using h.length_eq.symm
    refine ⟨hlength, as, normalizeAxes_eq_ok_iff.mpr ⟨?_, hlt, hnodup⟩⟩
    rwa [← List.forall₂_eq_eq_eq, List.forall₂_map_right_iff]
  · intro h
    obtain ⟨hlength, as, has⟩ := h
    obtain ⟨hfront, hlt, hnodup⟩ := normalizeAxes_eq_ok_iff.mp has
    have hrank : as.length = rank := (length_of_normalizeAxes has).trans hlength.symm
    unfold Permutes
    rw [hfront]
    exact (perm_range_iff.mpr ⟨hrank, hnodup, hlt⟩).map Int.ofNat

/-- The position of each axis in a list. -/
def positionsIn (as : List Nat) (rank : Nat) : List Nat :=
  (List.range rank).map as.idxOf

section Positions

variable (hperm : as.Perm (List.range rank))
include hperm

theorem idxOf_lt_rank (h : i < rank) : as.idxOf i < rank := by
  have hmem : i ∈ as := hperm.mem_iff.mpr (List.mem_range.mpr h)
  have hlength : as.length = rank := by simpa using hperm.length_eq
  rw [← hlength]
  exact List.idxOf_lt_length_of_mem hmem

theorem normalizeAxes_positionsIn :
    normalizeAxes parameter ((positionsIn as rank).map Int.ofNat) rank =
      .ok (positionsIn as rank) := by
  apply normalizeAxes_map_ofNat
  · intro position hposition
    obtain ⟨i, hi, rfl⟩ := List.mem_map.mp hposition
    exact idxOf_lt_rank hperm (List.mem_range.mp hi)
  · apply List.Nodup.map_on _ List.nodup_range
    intro i hi j _ hij
    exact (List.idxOf_inj (hperm.mem_iff.mpr hi)).mp hij

/-- The entry at the position of an axis is the axis. -/
theorem map_getD_positionsIn : (positionsIn as rank).map (as.getD · 0) = List.range rank := by
  rw [positionsIn, List.map_map]
  conv_rhs => rw [← List.map_id (List.range rank)]
  apply List.map_congr_left
  intro i hi
  have hlt := List.idxOf_lt_length_of_mem (hperm.mem_iff.mpr hi)
  show as.getD (as.idxOf i) 0 = i
  rw [List.getD_eq_getElem _ _ hlt, List.getElem_idxOf]

/-- An axis has the position at which it is found. -/
theorem map_positionsIn_getD : as.map ((positionsIn as rank).getD · 0) = List.range rank := by
  have hnodup : as.Nodup := hperm.nodup_iff.mpr List.nodup_range
  have hlength : as.length = rank := by simpa using hperm.length_eq
  apply List.ext_getElem
  · simpa using hlength
  · intro i hi _
    have hi : i < as.length := by simpa using hi
    have hlt : as[i] < rank := List.mem_range.mp (hperm.mem_iff.mp (List.getElem_mem hi))
    simp [positionsIn, hlt, hnodup.idxOf_getElem]

end Positions

/-- A permutation is undone by the positions of the axes. -/
theorem exists_inverse (h : Permutes axes rank) : ∃ back, Inverse axes back rank := by
  obtain ⟨rfl, as, has⟩ : rank = axes.length ∧ ∃ as, normalizeAxes "" axes rank = .ok as :=
    permutes_iff.mp h
  obtain ⟨_, hlt, hnodup⟩ := normalizeAxes_eq_ok_iff.mp has
  have hperm : as.Perm (List.range axes.length) :=
    perm_range_iff.mpr ⟨length_of_normalizeAxes has, hnodup, hlt⟩
  have hback : normalizeAxes "" ((positionsIn as axes.length).map Int.ofNat) axes.length =
      .ok (positionsIn as axes.length) :=
    normalizeAxes_positionsIn hperm
  have hrank : ((positionsIn as axes.length).map Int.ofNat).length = axes.length := by
    simp [positionsIn]
  refine ⟨(positionsIn as axes.length).map Int.ofNat, ?_, ?_, ?_⟩
  · exact permutes_iff.mpr ⟨hrank.symm, _, hback⟩
  · rw [composeAxes_eq has hback, map_getD_positionsIn hperm]
    rfl
  · have hinner : normalizeAxes "" axes ((positionsIn as axes.length).map Int.ofNat).length =
        .ok as := by
      rwa [hrank]
    rw [composeAxes_eq hback hinner, map_positionsIn_getD hperm]
    rfl

end Maps

end TensorProgram.Inference
