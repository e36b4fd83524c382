import TensorProgram.Inference.Layout
import TensorProgram.Proofs.AxisMaps
import TensorProgram.Proofs.DotProducts

/-!
# Transposes

A transpose is accepted when its list permutes the axes of a valid operand, and reads the extents of
the operand at the listed axes, `transpose_eq_ok`.  So permutations act on shapes: two transposes
one after the other are the transpose by the composition of their lists, `transpose_transpose`, and
the inverse of a permutation gives the operand back, `transpose_back`.  The extents stay the same in
another order, `perm_of_transpose`.
-/

namespace TensorProgram.Inference

section Rule

variable {x y z : Shape} {p q : List Int} {as : List Nat}

/-- The rule in terms of the axes counted from the front. -/
theorem transpose_eq_ok_of_axes (has : normalizeAxes "permutation" p x.rank = .ok as) :
    transpose x p = .ok y ↔
      x.isValid = true ∧ x.rank = p.length ∧ y.elementType? = x.elementType? ∧
        as.map (x.dimensions[·]?) = y.dimensions.map some := by
  unfold transpose
  simp only [has, bind_eq_ok, elementType_eq_ok, requireLength_eq_ok, mapM_entry_eq_ok, pure_eq_ok,
    Except.ok.injEq, of_eq_iff]
  constructor
  · intro h
    obtain ⟨t, ht, _, hlength, _, rfl, _, hextents, htype, rfl⟩ := h
    exact ⟨Option.isSome_iff_exists.mpr ⟨t, ht⟩, hlength, htype.trans ht.symm, hextents⟩
  · intro h
    obtain ⟨hvalid, hlength, htype, hextents⟩ := h
    obtain ⟨t, ht⟩ := Option.isSome_iff_exists.mp hvalid
    exact ⟨t, ht, (), hlength, as, rfl, y.dimensions, hextents, htype.trans ht, rfl⟩

theorem exists_axes_of_transpose (h : transpose x p = .ok y) :
    ∃ as, normalizeAxes "permutation" p x.rank = .ok as := by
  simp only [transpose, bind_eq_ok] at h
  obtain ⟨_, _, _, _, as, has, _⟩ := h
  exact ⟨as, has⟩

/-- The list permutes the axes of the operand, and the extents of the result are read at the listed
axes. -/
theorem transpose_eq_ok :
    transpose x p = .ok y ↔
      (x.isValid = true ∧ Permutes p x.rank) ∧ y.elementType? = x.elementType? ∧
        p.map x.dimension? = y.dimensions.map some := by
  constructor
  · intro h
    obtain ⟨as, has⟩ := exists_axes_of_transpose h
    obtain ⟨hvalid, hlength, htype, hextents⟩ := (transpose_eq_ok_of_axes has).mp h
    refine ⟨⟨hvalid, permutes_iff.mpr ⟨hlength, as, has⟩⟩, htype, ?_⟩
    rw [map_dimension? (normalizeAxes_eq_ok_iff.mp has).1, hextents]
  · intro h
    obtain ⟨⟨hvalid, hpermutes⟩, htype, hextents⟩ := h
    obtain ⟨hlength, as, has⟩ := permutes_iff.mp hpermutes
    rw [map_dimension? (normalizeAxes_eq_ok_iff.mp has).1] at hextents
    exact (transpose_eq_ok_of_axes has).mpr ⟨hvalid, hlength, htype, hextents⟩

/-- Every permutation of the axes of a valid operand is accepted. -/
theorem exists_transpose_iff :
    (∃ y, transpose x p = .ok y) ↔ x.isValid = true ∧ Permutes p x.rank := by
  constructor
  · intro h
    obtain ⟨y, h⟩ := h
    exact (transpose_eq_ok.mp h).1
  · intro h
    obtain ⟨hvalid, hpermutes⟩ := h
    obtain ⟨hlength, as, has⟩ := permutes_iff.mp hpermutes
    obtain ⟨extents, hextents⟩ := exists_extents (lt_of_normalizeAxes has)
    exact ⟨⟨x.elementType?, extents⟩,
      (transpose_eq_ok_of_axes has).mpr ⟨hvalid, hlength, rfl, hextents⟩⟩

/-! ## The same extents in another order -/

theorem perm_of_transpose (h : transpose x p = .ok y) : y.dimensions.Perm x.dimensions := by
  obtain ⟨as, has⟩ := exists_axes_of_transpose h
  obtain ⟨_, hlength, _, hextents⟩ := (transpose_eq_ok_of_axes has).mp h
  have hall := perm_extentsExcept (normalizeAxes_eq_ok_iff.mp has).2.2 hextents
  -- no axis remains, since as many are listed as there are
  have hnone : extentsExcept x.dimensions as = [] := by
    have hp : as.length = p.length := length_of_normalizeAxes has
    have hy : as.length = y.dimensions.length := by simpa using congrArg List.length hextents
    have hx : x.dimensions.length = p.length := hlength
    have hsum := hall.length_eq
    rw [List.length_append] at hsum
    apply List.length_eq_zero_iff.mp
    omega
  rwa [hnone, List.append_nil] at hall

theorem rank_of_transpose (h : transpose x p = .ok y) : y.rank = x.rank :=
  (perm_of_transpose h).length_eq

theorem isValid_of_transpose (h : transpose x p = .ok y) : y.isValid = true := by
  obtain ⟨⟨hvalid, _⟩, htype, _⟩ := transpose_eq_ok.mp h
  unfold Shape.isValid
  rw [htype]
  exact hvalid

theorem size_of_transpose (h : transpose x p = .ok y) : y.size = x.size := by
  rw [Shape.size_eq_prod, Shape.size_eq_prod]
  exact (perm_of_transpose h).prod_eq

/-! ## Transposes one after the other -/

theorem transpose_identityAxes (hvalid : x.isValid = true) :
    transpose x (identityAxes x.rank) = .ok x := by
  rw [transpose_eq_ok_of_axes normalizeAxes_identityAxes]
  refine ⟨hvalid, by simp [identityAxes], rfl, ?_⟩
  apply List.ext_getElem?
  intro i
  by_cases hi : i < x.dimensions.length
  · simp [Shape.rank, hi]
  · simp [Shape.rank, hi]

/-- The second list is read in the first one. -/
theorem transpose_transpose (hy : transpose x p = .ok y) (hz : transpose y q = .ok z) :
    transpose x (composeAxes p q x.rank) = .ok z := by
  obtain ⟨as, has⟩ := exists_axes_of_transpose hy
  obtain ⟨bs, hbs⟩ := exists_axes_of_transpose hz
  obtain ⟨hvalid, hp, htype, hextents⟩ := (transpose_eq_ok_of_axes has).mp hy
  obtain ⟨_, hq, htype', hextents'⟩ := (transpose_eq_ok_of_axes hbs).mp hz
  rw [rank_of_transpose hy] at hq hbs
  have hcompose : normalizeAxes "permutation" (composeAxes p q x.rank) x.rank =
      .ok (bs.map (as.getD · 0)) :=
    normalizeAxes_composeAxes has (hp ▸ hbs)
  rw [transpose_eq_ok_of_axes hcompose]
  refine ⟨hvalid, by simpa [composeAxes] using hq, htype'.trans htype, ?_⟩
  rw [List.map_map, ← hextents']
  apply List.map_congr_left
  intro b hb
  have hlength : as.length = y.dimensions.length := by simpa using congrArg List.length hextents
  have hlt : b < y.dimensions.length := by
    rw [← Shape.rank, rank_of_transpose hy]
    exact lt_of_normalizeAxes hbs b hb
  have hentry : (as.map (x.dimensions[·]?))[b]? = (y.dimensions.map some)[b]? := by rw [hextents]
  show x.dimensions[as.getD b 0]? = y.dimensions[b]?
  rw [List.getD_eq_getElem _ _ (hlength ▸ hlt)]
  simpa [hlt, hlength ▸ hlt] using hentry

/-- The inverse of a permutation gives the operand back. -/
theorem transpose_back (hy : transpose x p = .ok y) (hq : Inverse p q x.rank) :
    transpose y q = .ok x := by
  have hpermutes : Permutes q y.rank := by
    rw [rank_of_transpose hy]
    exact hq.permutes
  obtain ⟨z, hz⟩ := exists_transpose_iff.mpr ⟨isValid_of_transpose hy, hpermutes⟩
  have hxz := transpose_transpose hy hz
  rw [hq.after, transpose_identityAxes (transpose_eq_ok.mp hy).1.1] at hxz
  rw [hz, hxz]

end Rule

/-- Permutations act on valid shapes by transposes.  A transpose is accepted when its list permutes
the axes, counted from either end, and reads the extents at the listed axes.  Two transposes are the
transpose by the second list read in the first one, the inverse of a permutation gives the operand
back, and the extents and their product stay the same. -/
theorem transpose_acts (x : Shape) :
    (∀ p, (∃ y, transpose x p = .ok y) ↔ x.isValid = true ∧ Permutes p x.rank) ∧
    (∀ p y, transpose x p = .ok y →
      y.elementType? = x.elementType? ∧ p.map x.dimension? = y.dimensions.map some) ∧
    (∀ p q y w, transpose x p = .ok y → transpose x q = .ok w →
      ∃ z, transpose y q = .ok z ∧ transpose x (composeAxes p q x.rank) = .ok z) ∧
    (∀ p y, transpose x p = .ok y →
      (∃ q, Inverse p q x.rank) ∧ ∀ q, Inverse p q x.rank → transpose y q = .ok x) ∧
    ∀ p y, transpose x p = .ok y → y.dimensions.Perm x.dimensions ∧ y.size = x.size := by
  refine ⟨fun p => exists_transpose_iff, fun p y hy => (transpose_eq_ok.mp hy).2, ?_, ?_, ?_⟩
  · intro p q y w hy hw
    have hpermutes : Permutes q y.rank := by
      rw [rank_of_transpose hy]
      exact (transpose_eq_ok.mp hw).1.2
    obtain ⟨z, hz⟩ := exists_transpose_iff.mpr ⟨isValid_of_transpose hy, hpermutes⟩
    exact ⟨z, hz, transpose_transpose hy hz⟩
  · intro p y hy
    exact ⟨exists_inverse (transpose_eq_ok.mp hy).1.2, fun q => transpose_back hy⟩
  · intro p y hy
    exact ⟨perm_of_transpose hy, size_of_transpose hy⟩

/-- The axes of a tensor without elements are rotated, two of them are swapped after that, and the
rotation alone is undone.  Axes are counted from either end. -/
theorem transpose_acts_rotated :
    let x := Shape.of (.real .f32) [2, 3, 0]
    let y := Shape.of (.real .f32) [0, 2, 3]
    transpose x [-1, 0, 1] = .ok y ∧ transpose x [0, 2, 1] = .ok (.of (.real .f32) [2, 0, 3]) ∧
      (∃ z, transpose y [0, 2, 1] = .ok z ∧ transpose x [2, 1, 0] = .ok z) ∧
      Inverse [-1, 0, 1] [1, -1, 0] x.rank ∧ transpose y [1, -1, 0] = .ok x ∧
      y.dimensions.Perm x.dimensions ∧ y.size = x.size := by
  intro x y
  have hy : transpose x [-1, 0, 1] = .ok y := by decide
  have hw : transpose x [0, 2, 1] = .ok (.of (.real .f32) [2, 0, 3]) := by decide
  have hcompose : composeAxes [-1, 0, 1] [0, 2, 1] x.rank = [2, 1, 0] := by decide
  have hback : Inverse [-1, 0, 1] [1, -1, 0] x.rank := ⟨by decide, by decide, by decide⟩
  obtain ⟨_, _, htwice, hinverse, hextents⟩ := transpose_acts x
  have hz := htwice _ _ _ _ hy hw
  rw [hcompose] at hz
  exact ⟨hy, hw, hz, hback, (hinverse _ _ hy).2 _ hback, hextents _ _ hy⟩

end TensorProgram.Inference
