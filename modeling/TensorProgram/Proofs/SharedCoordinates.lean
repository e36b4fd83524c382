import Mathlib.Algebra.BigOperators.Intervals
import Mathlib.Algebra.BigOperators.Ring.Finset
import TensorProgram.Mesh.Basic
import TensorProgram.Proofs.Coordinates

/-!
# Devices that share coordinates

`entriesAt wanted axes xs` are the entries of a list that belong to some of the axes, and
`indexAlong wanted axes device` is the number of the place that a device has along these axes.
Two devices have the same number when their coordinates agree along these axes,
`indexAlong_eq_iff`, and every number below the number of places belongs to as many devices as
there are places along the other axes, `countP_indexAlong`.
-/

namespace TensorProgram.Mesh

variable {α β : Type} {wanted : MeshAxis → Bool} {axis : MeshAxis} {axes : List MeshAxis}

/-- The number of places along some axes. -/
def placeCount (axes : List MeshAxis) : Nat :=
  (axes.map MeshAxis.size).prod

/-- The entries of a list that belong to the wanted axes. -/
def entriesAt (wanted : MeshAxis → Bool) : List MeshAxis → List α → List α
  | axis :: axes, x :: xs =>
    if wanted axis then x :: entriesAt wanted axes xs else entriesAt wanted axes xs
  | _, _ => []

/-- The coordinates of a device. -/
def place (axes : List MeshAxis) (device : Nat) : List Nat :=
  coordinates (axes.map MeshAxis.size) device

/-- The number of the place that a device has along the wanted axes. -/
def indexAlong (wanted : MeshAxis → Bool) (axes : List MeshAxis) (device : Nat) : Nat :=
  linearIndex ((entriesAt wanted axes (place axes device)).zip
    ((axes.filter wanted).map MeshAxis.size))

/-! ## Entries of some axes -/

theorem placeCount_cons : placeCount (axis :: axes) = axis.size * placeCount axes := rfl

theorem placeCount_pos (h : ∀ axis ∈ axes, 0 < axis.size) : 0 < placeCount axes := by
  induction axes with
  | nil => exact Nat.one_pos
  | cons axis axes ih =>
    rw [List.forall_mem_cons] at h
    exact Nat.mul_pos h.1 (ih h.2)

/-- Places are places along the wanted axes together with places along the others. -/
theorem placeCount_filter (wanted : MeshAxis → Bool) (axes : List MeshAxis) :
    placeCount (axes.filter wanted) * placeCount (axes.filter fun axis => !wanted axis) =
      placeCount axes := by
  induction axes with
  | nil => rfl
  | cons axis axes ih =>
    cases h : wanted axis with
    | true => simp [h, placeCount_cons, ← ih, Nat.mul_assoc]
    | false => simp [h, placeCount_cons, ← ih, Nat.mul_left_comm]

theorem entriesAt_map (f : MeshAxis → α) :
    entriesAt wanted axes (axes.map f) = (axes.filter wanted).map f := by
  induction axes with
  | nil => rfl
  | cons axis axes ih =>
    rw [List.map_cons, entriesAt, ih, List.filter_cons]
    split_ifs <;> rfl

theorem entriesAt_zip {xs : List α} {ys : List β} (hxs : xs.length = axes.length)
    (hys : ys.length = axes.length) :
    entriesAt wanted axes (xs.zip ys) =
      (entriesAt wanted axes xs).zip (entriesAt wanted axes ys) := by
  induction axes generalizing xs ys with
  | nil => simp [entriesAt]
  | cons axis axes ih =>
    obtain ⟨x, xs, rfl⟩ := List.exists_cons_of_length_eq_add_one hxs
    obtain ⟨y, ys, rfl⟩ := List.exists_cons_of_length_eq_add_one hys
    simp only [List.length_cons, Nat.add_right_cancel_iff] at hxs hys
    simp only [List.zip_cons_cons, entriesAt, ih hxs hys]
    split_ifs <;> rfl

theorem length_entriesAt {xs : List α} (hxs : xs.length = axes.length) :
    (entriesAt wanted axes xs).length = (axes.filter wanted).length := by
  induction axes generalizing xs with
  | nil => simp [entriesAt]
  | cons axis axes ih =>
    obtain ⟨x, xs, rfl⟩ := List.exists_cons_of_length_eq_add_one hxs
    simp only [List.length_cons, Nat.add_right_cancel_iff] at hxs
    rw [entriesAt, List.filter_cons]
    split_ifs
    · rw [List.length_cons, List.length_cons, ih hxs]
    · exact ih hxs

/-- What holds of all entries holds of those that belong to the wanted axes. -/
theorem forall₂_entriesAt {R : α → β → Prop} {f : MeshAxis → β} {xs : List α}
    (h : List.Forall₂ R xs (axes.map f)) :
    List.Forall₂ R (entriesAt wanted axes xs) ((axes.filter wanted).map f) := by
  induction axes generalizing xs with
  | nil =>
    obtain rfl := List.forall₂_nil_right_iff.mp h
    exact .nil
  | cons axis axes ih =>
    obtain ⟨x, xs, hx, hxs, rfl⟩ := List.forall₂_cons_right_iff.mp h
    rw [entriesAt, List.filter_cons]
    split_ifs
    · exact .cons hx (ih hxs)
    · exact ih hxs

/-! ## Places along some axes -/

theorem length_place (axes : List MeshAxis) (device : Nat) :
    (place axes device).length = axes.length := by
  rw [place, length_coordinates, List.length_map]

theorem place_cons (axis : MeshAxis) (axes : List MeshAxis) (device : Nat) :
    place (axis :: axes) device =
      (device / placeCount axes % axis.size) :: place axes device :=
  coordinates_cons _ _ _

theorem place_mul_add (axes : List MeshAxis) (start device : Nat) :
    place axes (start * placeCount axes + device) = place axes device :=
  coordinates_mul_add _ _ _

theorem place_lt (hpos : ∀ axis ∈ axes, 0 < axis.size) (device : Nat) :
    List.Forall₂ (· < ·) (place axes device) (axes.map MeshAxis.size) :=
  coordinates_lt (by simpa using hpos) device

theorem indexAlong_lt (hpos : ∀ axis ∈ axes, 0 < axis.size) (device : Nat) :
    indexAlong wanted axes device < placeCount (axes.filter wanted) :=
  linearIndex_lt (forall₂_entriesAt (place_lt hpos device))

/-- The wanted coordinates of two devices are the same when they agree along each wanted axis.  The
coordinate along an axis is the one with weight the number of places along the axes after it. -/
theorem entriesAt_place_eq_iff {i j : Nat} :
    entriesAt wanted axes (place axes i) = entriesAt wanted axes (place axes j) ↔
      ∀ before axis after, axes = before ++ axis :: after → wanted axis = true →
        i / placeCount after % axis.size = j / placeCount after % axis.size := by
  induction axes with
  | nil => simp [entriesAt]
  | cons first axes ih =>
    have hsplit (P : MeshAxis → List MeshAxis → Prop) :
        (∀ before axis after, first :: axes = before ++ axis :: after → P axis after) ↔
          P first axes ∧ ∀ before axis after, axes = before ++ axis :: after → P axis after := by
      constructor
      · intro h
        exact ⟨h [] first axes rfl, fun before axis after hax =>
          h (first :: before) axis after (by rw [hax, List.cons_append])⟩
      · rintro ⟨hfirst, hrest⟩ (_ | ⟨b, before⟩) axis after hax
        · obtain ⟨rfl, rfl⟩ := List.cons_eq_cons.mp hax
          exact hfirst
        · exact hrest before axis after (List.cons_eq_cons.mp hax).2
    rw [hsplit fun axis after => wanted axis = true →
      i / placeCount after % axis.size = j / placeCount after % axis.size, ← ih, place_cons,
      place_cons, entriesAt, entriesAt]
    split_ifs with h
    · simp [h]
    · simp [h]

/-- Devices have the same number along the wanted axes when their coordinates agree there. -/
theorem indexAlong_eq_iff (hpos : ∀ axis ∈ axes, 0 < axis.size) {i j : Nat} :
    indexAlong wanted axes i = indexAlong wanted axes j ↔
      ∀ before axis after, axes = before ++ axis :: after → wanted axis = true →
        i / placeCount after % axis.size = j / placeCount after % axis.size := by
  rw [← entriesAt_place_eq_iff]
  constructor
  · intro h
    have hplace (device : Nat) : coordinates ((axes.filter wanted).map MeshAxis.size)
        (indexAlong wanted axes device) = entriesAt wanted axes (place axes device) :=
      coordinates_linearIndex (forall₂_entriesAt (place_lt hpos device))
    rw [← hplace i, ← hplace j, h]
  · intro h
    rw [indexAlong, indexAlong, h]

theorem indexAlong_cons (axis : MeshAxis) (axes : List MeshAxis) (device : Nat) :
    indexAlong wanted (axis :: axes) device =
      if wanted axis then
        device / placeCount axes % axis.size * placeCount (axes.filter wanted) +
          indexAlong wanted axes device
      else indexAlong wanted axes device := by
  have hlength : (entriesAt wanted axes (place axes device)).length = (axes.filter wanted).length :=
    length_entriesAt (length_place axes device)
  rw [indexAlong, place_cons, entriesAt, List.filter_cons]
  split_ifs with h
  · rw [List.map_cons, List.zip_cons_cons, linearIndex_cons, List.map_snd_zip]
    · rfl
    · rw [List.length_map, hlength]
  · rfl

/-! ## How many devices have a number -/

/-- A range of products is counted block by block. -/
theorem countP_range_mul (p : Nat → Bool) (m n : Nat) :
    (List.range (m * n)).countP p =
      ∑ c ∈ Finset.range m, (List.range n).countP fun r => p (c * n + r) := by
  induction m with
  | zero => simp
  | succ m ih =>
    rw [Nat.succ_mul, List.range_add, List.countP_append, ih, List.countP_map,
      Finset.sum_range_succ]
    rfl

/-- A two-digit number is told from its digits. -/
theorem mul_add_eq_iff {c r n k : Nat} (hr : r < n) :
    c * n + r = k ↔ c = k / n ∧ r = k % n := by
  have hn : 0 < n := Nat.zero_lt_of_lt hr
  constructor
  · rintro rfl
    rw [Nat.mul_comm, Nat.mul_add_div hn, Nat.mul_add_mod, Nat.div_eq_of_lt hr, Nat.mod_eq_of_lt hr]
    exact ⟨rfl, rfl⟩
  · rintro ⟨rfl, rfl⟩
    exact Nat.div_add_mod' k n

/-- The devices with one first coordinate are a copy of the smaller mesh. -/
theorem indexAlong_mul_add {axis : MeshAxis} {c r : Nat} (hc : c < axis.size)
    (hr : r < placeCount axes) :
    indexAlong wanted (axis :: axes) (c * placeCount axes + r) =
      if wanted axis then c * placeCount (axes.filter wanted) + indexAlong wanted axes r
      else indexAlong wanted axes r := by
  have hfirst : (c * placeCount axes + r) / placeCount axes % axis.size = c := by
    rw [((mul_add_eq_iff hr).mp rfl).1.symm, Nat.mod_eq_of_lt hc]
  rw [indexAlong_cons, hfirst]
  simp only [indexAlong, place_mul_add]

/-- Along an axis that counts, only the devices with the first digit of a number can have it. -/
theorem countP_copy (hpos : ∀ axis ∈ axes, 0 < axis.size) {axis : MeshAxis}
    (haxis : wanted axis = true) {c k : Nat} (hc : c < axis.size) :
    ((List.range (placeCount axes)).countP fun r =>
        indexAlong wanted (axis :: axes) (c * placeCount axes + r) == k) =
      if k / placeCount (axes.filter wanted) = c then
        (List.range (placeCount axes)).countP fun r =>
          indexAlong wanted axes r == k % placeCount (axes.filter wanted)
      else 0 := by
  have hnumber : ∀ r ∈ List.range (placeCount axes),
      (indexAlong wanted (axis :: axes) (c * placeCount axes + r) = k ↔
        k / placeCount (axes.filter wanted) = c ∧
          indexAlong wanted axes r = k % placeCount (axes.filter wanted)) := by
    intro r hr
    rw [indexAlong_mul_add hc (List.mem_range.mp hr), if_pos haxis,
      mul_add_eq_iff (indexAlong_lt hpos r), eq_comm (a := c)]
  split_ifs with hfirst
  · exact List.countP_congr fun r hr => by simp [hnumber r hr, hfirst]
  · exact List.countP_eq_zero.mpr fun r hr => by simp [hnumber r hr, hfirst]

/-- As many devices have a number along the wanted axes as there are places along the others. -/
theorem countP_indexAlong (hpos : ∀ axis ∈ axes, 0 < axis.size) {k : Nat}
    (hk : k < placeCount (axes.filter wanted)) :
    (List.range (placeCount axes)).countP (fun device => indexAlong wanted axes device == k) =
      placeCount (axes.filter fun axis => !wanted axis) := by
  induction axes generalizing k with
  | nil =>
    obtain rfl : k = 0 := Nat.lt_one_iff.mp hk
    rfl
  | cons axis axes ih =>
    rw [List.forall_mem_cons] at hpos
    rw [placeCount_cons, countP_range_mul]
    cases haxis : wanted axis with
    | true =>
      rw [List.filter_cons_of_pos haxis, placeCount_cons] at hk
      rw [List.filter_cons_of_neg (by simp [haxis])]
      have hplaces : 0 < placeCount (axes.filter wanted) :=
        Nat.pos_of_mul_pos_left (Nat.zero_lt_of_lt hk)
      have hdigit : k / placeCount (axes.filter wanted) < axis.size :=
        (Nat.div_lt_iff_lt_mul hplaces).mpr hk
      rw [Finset.sum_congr rfl fun c hc => countP_copy hpos.2 haxis (Finset.mem_range.mp hc),
        Finset.sum_ite_eq, if_pos (Finset.mem_range.mpr hdigit)]
      exact ih hpos.2 (Nat.mod_lt k hplaces)
    | false =>
      rw [List.filter_cons_of_neg (by simp [haxis])] at hk
      rw [List.filter_cons_of_pos (by simp [haxis]), placeCount_cons]
      have hcount : ∀ c ∈ Finset.range axis.size,
          ((List.range (placeCount axes)).countP fun r =>
            indexAlong wanted (axis :: axes) (c * placeCount axes + r) == k) =
          placeCount (axes.filter fun axis => !wanted axis) := by
        intro c hc
        rw [← ih hpos.2 hk]
        exact List.countP_congr fun r hr => by
          simp [indexAlong_mul_add (Finset.mem_range.mp hc) (List.mem_range.mp hr), haxis]
      rw [Finset.sum_congr rfl hcount, Finset.sum_const, Finset.card_range, Nat.nsmul_eq_mul]

end TensorProgram.Mesh
