import Mathlib.Algebra.BigOperators.Group.List.Basic
import Mathlib.Algebra.Order.BigOperators.GroupWithZero.List
import Mathlib.Algebra.Order.Ring.Nat
import TensorProgram.Mesh.Coordinates

/-!
# Places of a grid and their numbers

`coordinates_cons` and `linearIndex_cons` unfold the two directions from the first axis, which is
the slowest one.  A place is within the grid when every coordinate is below the size of its axis,
and places within the grid and numbers below the number of places are the same thing:
`linearIndex_coordinates` and `coordinates_linearIndex`.  Larger numbers have places that come later
in the lexicographic order, `lex_coordinates_iff`.
-/

namespace TensorProgram

variable {size index : Nat} {sizes place : List Nat}

/-! ## From the first axis on -/

theorem peel_concat (sizes : List Nat) (size index : Nat) :
    peel (sizes ++ [size]) index = peel sizes index ++ [index / sizes.prod % size] := by
  induction sizes generalizing index with
  | nil => simp [peel]
  | cons first sizes ih =>
    simp only [List.cons_append, peel, ih, List.prod_cons]
    rw [Nat.div_div_eq_div_mul]

theorem coordinates_cons (size : Nat) (sizes : List Nat) (index : Nat) :
    coordinates (size :: sizes) index =
      (index / sizes.prod % size) :: coordinates sizes index := by
  rw [coordinates, List.reverse_cons, peel_concat, List.reverse_append, List.prod_reverse]
  rfl

theorem length_coordinates (sizes : List Nat) (index : Nat) :
    (coordinates sizes index).length = sizes.length := by
  induction sizes with
  | nil => rfl
  | cons size sizes ih => rw [coordinates_cons, List.length_cons, ih, List.length_cons]

theorem foldl_linearIndex (axes : List (Nat × Nat)) (start : Nat) :
    axes.foldl (fun index (coordinate, size) => index * size + coordinate) start =
      start * (axes.map Prod.snd).prod + linearIndex axes := by
  induction axes generalizing start with
  | nil => simp [linearIndex]
  | cons axis axes ih =>
    obtain ⟨coordinate, size⟩ := axis
    have hfirst : linearIndex ((coordinate, size) :: axes) =
        (0 * size + coordinate) * (axes.map Prod.snd).prod + linearIndex axes := ih _
    rw [List.foldl_cons, ih, hfirst, List.map_cons, List.prod_cons, Nat.zero_mul, Nat.zero_add,
      Nat.add_mul, Nat.mul_assoc, Nat.add_assoc]

theorem linearIndex_cons (coordinate size : Nat) (axes : List (Nat × Nat)) :
    linearIndex ((coordinate, size) :: axes) =
      coordinate * (axes.map Prod.snd).prod + linearIndex axes := by
  have h : linearIndex ((coordinate, size) :: axes) =
      (0 * size + coordinate) * (axes.map Prod.snd).prod + linearIndex axes :=
    foldl_linearIndex axes _
  rwa [Nat.zero_mul, Nat.zero_add] at h

theorem linearIndex_append (first rest : List (Nat × Nat)) :
    linearIndex (first ++ rest) =
      linearIndex first * (rest.map Prod.snd).prod + linearIndex rest := by
  rw [linearIndex, List.foldl_append]
  exact foldl_linearIndex rest _

/-- The number of a place is not smaller than what has been summed up for its first axes. -/
theorem linearIndex_le_append {first rest : List (Nat × Nat)}
    (hpos : ∀ axis ∈ rest, 0 < axis.2) : linearIndex first ≤ linearIndex (first ++ rest) := by
  have hprod : 0 < (rest.map Prod.snd).prod := List.prod_pos (List.forall_mem_map.mpr hpos)
  calc linearIndex first
      ≤ linearIndex first * (rest.map Prod.snd).prod := Nat.le_mul_of_pos_right _ hprod
    _ ≤ linearIndex first * (rest.map Prod.snd).prod + linearIndex rest := Nat.le_add_right _ _
    _ = linearIndex (first ++ rest) := (linearIndex_append first rest).symm

/-! ## Within the grid -/

/-- The number of a place within the grid is below the number of places. -/
theorem linearIndex_lt (h : List.Forall₂ (· < ·) place sizes) :
    linearIndex (place.zip sizes) < sizes.prod := by
  induction h with
  | nil => exact Nat.one_pos
  | @cons coordinate size place sizes hlt hrest ih =>
    rw [List.zip_cons_cons, linearIndex_cons,
      List.map_snd_zip (Nat.le_of_eq hrest.length_eq.symm), List.prod_cons]
    calc coordinate * sizes.prod + linearIndex (place.zip sizes)
        < coordinate * sizes.prod + sizes.prod := Nat.add_lt_add_left ih _
      _ = (coordinate + 1) * sizes.prod := by rw [Nat.add_mul, Nat.one_mul]
      _ ≤ size * sizes.prod := Nat.mul_le_mul_right _ hlt

theorem coordinates_lt (hpos : ∀ size ∈ sizes, 0 < size) (index : Nat) :
    List.Forall₂ (· < ·) (coordinates sizes index) sizes := by
  induction sizes with
  | nil => exact .nil
  | cons size sizes ih =>
    rw [List.forall_mem_cons] at hpos
    rw [coordinates_cons]
    exact .cons (Nat.mod_lt _ hpos.1) (ih hpos.2)

/-- Only the remainder of a number counts. -/
theorem coordinates_mod (sizes : List Nat) (index : Nat) :
    coordinates sizes (index % sizes.prod) = coordinates sizes index := by
  induction sizes generalizing index with
  | nil => rfl
  | cons size sizes ih =>
    rw [coordinates_cons, coordinates_cons, List.prod_cons, Nat.mod_mul_left_div_self,
      Nat.mod_mod, ← ih (index % _), Nat.mod_mul_left_mod, ih]

theorem coordinates_mul_add (sizes : List Nat) (start index : Nat) :
    coordinates sizes (start * sizes.prod + index) = coordinates sizes index := by
  rw [← coordinates_mod, Nat.mul_add_mod_self_right, coordinates_mod]

/-- The place with a number has that number. -/
theorem linearIndex_coordinates (h : index < sizes.prod) :
    linearIndex ((coordinates sizes index).zip sizes) = index := by
  induction sizes generalizing index with
  | nil =>
    rw [List.prod_nil] at h
    rw [Nat.lt_one_iff.mp h]
    rfl
  | cons size sizes ih =>
    rw [List.prod_cons] at h
    have hrest : 0 < sizes.prod := Nat.pos_of_mul_pos_left (Nat.zero_lt_of_lt h)
    have hdigit : index / sizes.prod < size := (Nat.div_lt_iff_lt_mul hrest).mpr h
    rw [coordinates_cons, List.zip_cons_cons, linearIndex_cons,
      List.map_snd_zip (Nat.le_of_eq (length_coordinates sizes index).symm),
      Nat.mod_eq_of_lt hdigit, ← coordinates_mod, ih (Nat.mod_lt _ hrest)]
    exact Nat.div_add_mod' index sizes.prod

/-- A place within the grid is the one with its number. -/
theorem coordinates_linearIndex (h : List.Forall₂ (· < ·) place sizes) :
    coordinates sizes (linearIndex (place.zip sizes)) = place := by
  induction h with
  | nil => rfl
  | @cons coordinate size place sizes hlt hrest ih =>
    have hbelow := linearIndex_lt hrest
    rw [List.zip_cons_cons, linearIndex_cons,
      List.map_snd_zip (Nat.le_of_eq hrest.length_eq.symm), coordinates_cons,
      coordinates_mul_add, ih, Nat.mul_comm, Nat.mul_add_div (Nat.zero_lt_of_lt hbelow),
      Nat.div_eq_of_lt hbelow, Nat.add_zero, Nat.mod_eq_of_lt hlt]

/-! ## Order -/

/-- Numbers are compared by their first digits, and then by the rest. -/
theorem lt_iff_div_mod (i j n : Nat) :
    i < j ↔ i / n < j / n ∨ i / n = j / n ∧ i % n < j % n := by
  have hi := Nat.div_add_mod i n
  have hj := Nat.div_add_mod j n
  rcases Nat.lt_trichotomy (i / n) (j / n) with hlt | heq | hgt
  · exact iff_of_true (Nat.lt_of_div_lt_div hlt) (.inl hlt)
  · rw [heq] at hi ⊢
    omega
  · have hji := Nat.lt_of_div_lt_div hgt
    omega

/-- Places are in the lexicographic order of their coordinates. -/
theorem lex_coordinates_iff {i j : Nat} (hi : i < sizes.prod) (hj : j < sizes.prod) :
    List.Lex (· < ·) (coordinates sizes i) (coordinates sizes j) ↔ i < j := by
  induction sizes generalizing i j with
  | nil =>
    rw [List.prod_nil] at hi hj
    rw [Nat.lt_one_iff.mp hi, Nat.lt_one_iff.mp hj]
    exact iff_of_false nofun (Nat.lt_irrefl 0)
  | cons size sizes ih =>
    rw [List.prod_cons] at hi hj
    have hrest : 0 < sizes.prod := Nat.pos_of_mul_pos_left (Nat.zero_lt_of_lt hi)
    have hdigit {k : Nat} (hk : k < size * sizes.prod) : k / sizes.prod % size = k / sizes.prod :=
      Nat.mod_eq_of_lt ((Nat.div_lt_iff_lt_mul hrest).mpr hk)
    rw [coordinates_cons, coordinates_cons, List.cons_lex_cons_iff, hdigit hi, hdigit hj,
      ← coordinates_mod sizes i, ← coordinates_mod sizes j,
      ih (Nat.mod_lt i hrest) (Nat.mod_lt j hrest), ← lt_iff_div_mod]

/-- The numbers below the number of places and the places within the grid belong to each other, and
come in the same order.  No sum on the way from a place to its number is greater than that
number. -/
theorem coordinates_bijective (sizes : List Nat) (hpos : ∀ size ∈ sizes, 0 < size) :
    (∀ index < sizes.prod,
        List.Forall₂ (· < ·) (coordinates sizes index) sizes ∧
          linearIndex ((coordinates sizes index).zip sizes) = index ∧
          ∀ first, first <+: (coordinates sizes index).zip sizes → linearIndex first ≤ index) ∧
      (∀ place, List.Forall₂ (· < ·) place sizes →
        ∃! index, index < sizes.prod ∧ coordinates sizes index = place) ∧
      ∀ i < sizes.prod, ∀ j < sizes.prod,
        (List.Lex (· < ·) (coordinates sizes i) (coordinates sizes j) ↔ i < j) := by
  refine ⟨fun index hindex => ⟨coordinates_lt hpos index, linearIndex_coordinates hindex, ?_⟩,
    fun place hplace => ?_, fun i hi j hj => lex_coordinates_iff hi hj⟩
  · rintro first ⟨rest, hzip⟩
    have hrest : ∀ axis ∈ rest, 0 < axis.2 := fun axis haxis =>
      hpos axis.2 (List.of_mem_zip (hzip ▸ List.mem_append_right first haxis)).2
    calc linearIndex first
        ≤ linearIndex (first ++ rest) := linearIndex_le_append hrest
      _ = index := by rw [hzip, linearIndex_coordinates hindex]
  · refine ⟨linearIndex (place.zip sizes),
      ⟨linearIndex_lt hplace, coordinates_linearIndex hplace⟩, ?_⟩
    rintro index ⟨hindex, rfl⟩
    exact (linearIndex_coordinates hindex).symm

/-- A grid with an axis of a single place. -/
theorem coordinates_bijective_slab :
    coordinates [2, 1, 3] 4 = [1, 0, 1] ∧ linearIndex [(1, 2), (0, 1), (1, 3)] = 4 ∧
      linearIndex [(1, 2), (0, 1)] ≤ 4 ∧
      (∃! index, index < 6 ∧ coordinates [2, 1, 3] index = [1, 0, 2]) ∧
      List.Lex (· < ·) (coordinates [2, 1, 3] 2) (coordinates [2, 1, 3] 3) := by
  obtain ⟨hnumbers, hplaces, horder⟩ :=
    coordinates_bijective [2, 1, 3] (by decide)
  obtain ⟨_, hfour, hsums⟩ := hnumbers 4 (by decide)
  exact ⟨rfl, hfour, hsums _ ⟨[(1, 3)], rfl⟩, hplaces [1, 0, 2] (by simp),
    (horder 2 (by decide) 3 (by decide)).mpr (by decide)⟩

end TensorProgram
