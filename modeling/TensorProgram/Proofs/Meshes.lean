import Mathlib.Algebra.BigOperators.Group.Finset.Basic
import Mathlib.Algebra.Order.BigOperators.GroupWithZero.List
import Mathlib.Algebra.Order.Ring.Nat
import TensorProgram.Mesh.Basic
import TensorProgram.Proofs.Axes

/-!
# Meshes that are accepted

`Mesh.Built` is a mesh that `Mesh.ofAxes` has accepted, with or without ids for its devices.  Such
a mesh is well-formed, `Mesh.Built.wellFormed`: its axes have names of their own and places, it has
fewer devices than the limit, and the ids are the logical indices in some order.

The axes are taken one after the other, and so are the factors of the number of devices.  What is
accepted does not show this order: `Mesh.AcceptableAxes` is a condition on all names and sizes,
`Mesh.ofAxes_eq_ok_iff_acceptable`, and ids have to be a rearrangement of the logical indices,
`Mesh.withDeviceIds_eq_ok`.
-/

namespace TensorProgram

namespace Mesh

/-- A mesh that has been accepted, and that may have been given ids for its devices. -/
inductive Built : Mesh → Prop
  | ofAxes {name : String} {axisNames : List String} {axisSizes : List Nat} {m : Mesh}
      (h : Mesh.ofAxes name axisNames axisSizes = .ok m) : Built m
  | withDeviceIds {m m' : Mesh} {ids : List Nat} (hm : Built m)
      (h : m.withDeviceIds ids = .ok m') : Built m'

/-- What holds of every mesh that is accepted. -/
structure WellFormed (m : Mesh) : Prop where
  names : (m.axes.map MeshAxis.name).Nodup
  positive : ∀ axis ∈ m.axes, 0 < axis.size
  devices : m.deviceCount < deviceLimit
  assignment : ∀ ids, m.assignment? = some ids → ids.Perm (List.range m.deviceCount)

variable {m m' : Mesh}

/-! ## Axes -/

theorem ofNameSize_eq_ok {name : String} {size : Nat} {axis : MeshAxis} :
    MeshAxis.ofNameSize name size = .ok axis ↔
      Identifier.isIdentifier name = true ∧ 0 < size ∧ axis = ⟨name, size⟩ := by
  unfold MeshAxis.ofNameSize
  split_ifs with hname hsize
  · simp only [false_iff, not_and]
    intro h
    simp [h] at hname
  · simp [hsize]
  · simp only [Except.ok.injEq]
    constructor
    · rintro rfl
      exact ⟨by simpa using hname, by omega, rfl⟩
    · rintro ⟨_, _, rfl⟩
      rfl

theorem addAxis_eq_ok {axes found : List MeshAxis} {entry : String × Nat} :
    addAxis axes entry = .ok found ↔
      ∃ axis, MeshAxis.ofNameSize entry.1 entry.2 = .ok axis ∧ (∀ a ∈ axes, a.name ≠ axis.name) ∧
        found = axes ++ [axis] := by
  simp only [addAxis, bind_eq_ok]
  refine exists_congr fun axis => and_congr_right fun _ => ?_
  split_ifs with h
  · have hsome : ¬ ∀ a ∈ axes, a.name ≠ axis.name := by simpa using h
    simp [hsome, bind_eq_ok]
  · have hnone : ∀ a ∈ axes, a.name ≠ axis.name := by simpa using h
    simp only [pure_eq_ok, Except.ok.injEq]
    exact ⟨fun h => ⟨hnone, h.symm⟩, fun h => h.2.symm⟩

theorem addFactor_eq_ok {count total : Nat} {axis : MeshAxis} :
    addFactor count axis = .ok total ↔
      count * axis.size < deviceLimit ∧ total = count * axis.size := by
  unfold addFactor
  split_ifs with h
  · simp only [Except.ok.injEq, h, true_and]
    exact eq_comm
  · simp only [h, false_and]

/-- The axes with the given names and sizes. -/
def namedAxes (entries : List (String × Nat)) : List MeshAxis :=
  entries.map fun entry => ⟨entry.1, entry.2⟩

@[simp] theorem map_name_namedAxes (entries : List (String × Nat)) :
    (namedAxes entries).map MeshAxis.name = entries.map Prod.fst := by
  simp [namedAxes]

@[simp] theorem map_size_namedAxes (entries : List (String × Nat)) :
    (namedAxes entries).map MeshAxis.size = entries.map Prod.snd := by
  simp [namedAxes]

/-- Axes are collected when their names are different identifiers and their sizes positive. -/
theorem foldlM_addAxis_eq_ok {entries : List (String × Nat)} {seen found : List MeshAxis}
    (hseen : (seen.map MeshAxis.name).Nodup) :
    entries.foldlM addAxis seen = .ok found ↔
      (∀ name ∈ entries.map Prod.fst, Identifier.isIdentifier name = true) ∧
        (∀ size ∈ entries.map Prod.snd, 0 < size) ∧
        (seen.map MeshAxis.name ++ entries.map Prod.fst).Nodup ∧
        found = seen ++ namedAxes entries := by
  induction entries generalizing seen with
  | nil =>
    simp only [List.foldlM_nil, pure_eq_ok, Except.ok.injEq, List.map_nil, List.not_mem_nil,
      false_imp_iff, implies_true, namedAxes, List.append_nil, hseen, true_and]
    exact eq_comm
  | cons entry entries ih =>
    obtain ⟨name, size⟩ := entry
    have hfresh (h : ∀ a ∈ seen, a.name ≠ name) :
        ((seen ++ [MeshAxis.mk name size]).map MeshAxis.name).Nodup := by
      rw [List.map_append, List.map_singleton, ← List.concat_eq_append]
      exact List.Nodup.concat (by simpa using h) hseen
    have hnames : seen.map MeshAxis.name ++ name :: entries.map Prod.fst =
        (seen ++ [MeshAxis.mk name size]).map MeshAxis.name ++ entries.map Prod.fst := by simp
    have haxes : seen ++ namedAxes ((name, size) :: entries) =
        seen ++ [⟨name, size⟩] ++ namedAxes entries := by simp [namedAxes]
    rw [List.foldlM_cons, bind_eq_ok, List.map_cons, List.map_cons, List.forall_mem_cons,
      List.forall_mem_cons, hnames, haxes]
    constructor
    · rintro ⟨_, hadd, hrest⟩
      obtain ⟨axis, haxis, hnew, rfl⟩ := addAxis_eq_ok.mp hadd
      obtain ⟨hname, hsize, rfl⟩ := ofNameSize_eq_ok.mp haxis
      obtain ⟨hidentifiers, hsizes, hnodup, rfl⟩ := (ih (hfresh hnew)).mp hrest
      exact ⟨⟨hname, hidentifiers⟩, ⟨hsize, hsizes⟩, hnodup, rfl⟩
    · rintro ⟨⟨hname, hidentifiers⟩, ⟨hsize, hsizes⟩, hnodup, rfl⟩
      have hnew : ∀ a ∈ seen, a.name ≠ name := fun a ha =>
        (List.nodup_append.mp (hnames ▸ hnodup)).2.2 _ (List.mem_map_of_mem ha) _
          List.mem_cons_self
      have hadd : addAxis seen (name, size) = .ok (seen ++ [⟨name, size⟩]) :=
        addAxis_eq_ok.mpr ⟨_, ofNameSize_eq_ok.mpr ⟨hname, hsize, rfl⟩, hnew, rfl⟩
      exact ⟨_, hadd, (ih (hfresh hnew)).mpr ⟨hidentifiers, hsizes, hnodup, rfl⟩⟩

/-- The product is taken from the first axis on.  As no size is zero, no factor takes it to the
limit unless the whole product is there. -/
theorem foldlM_addFactor_eq_ok {axes : List MeshAxis} {count total : Nat}
    (hpos : ∀ axis ∈ axes, 0 < axis.size) (hcount : count < deviceLimit) :
    axes.foldlM addFactor count = .ok total ↔
      total = count * (axes.map MeshAxis.size).prod ∧ total < deviceLimit := by
  induction axes generalizing count with
  | nil =>
    simp only [List.foldlM_nil, pure_eq_ok, Except.ok.injEq, List.map_nil, List.prod_nil,
      Nat.mul_one]
    constructor
    · rintro rfl
      exact ⟨rfl, hcount⟩
    · rintro ⟨rfl, _⟩
      rfl
  | cons axis axes ih =>
    rw [List.forall_mem_cons] at hpos
    rw [List.foldlM_cons, bind_eq_ok, List.map_cons, List.prod_cons, ← Nat.mul_assoc]
    constructor
    · rintro ⟨_, hadd, hrest⟩
      obtain ⟨hlt, rfl⟩ := addFactor_eq_ok.mp hadd
      exact (ih hpos.2 hlt).mp hrest
    · rintro ⟨rfl, htotal⟩
      have hrest : 0 < (axes.map MeshAxis.size).prod :=
        List.prod_pos (List.forall_mem_map.mpr hpos.2)
      have hlt : count * axis.size < deviceLimit :=
        Nat.lt_of_le_of_lt (Nat.le_mul_of_pos_right _ hrest) htotal
      exact ⟨_, addFactor_eq_ok.mpr ⟨hlt, rfl⟩, (ih hpos.2 hlt).mpr ⟨rfl, htotal⟩⟩

/-- The number of devices is the product of the sizes of the axes. -/
theorem deviceCount_eq (m : Mesh) : m.deviceCount = (m.axes.map MeshAxis.size).prod :=
  (List.prod_eq_foldl).symm

/-- The names are identifiers, different ones for different axes, and every axis has a positive
size.  The number of devices is below the limit. -/
structure AcceptableAxes (name : String) (axisNames : List String) (axisSizes : List Nat) :
    Prop where
  name : Identifier.isIdentifier name = true
  names : ∀ axisName ∈ axisNames, Identifier.isIdentifier axisName = true
  lengths : axisNames.length = axisSizes.length
  distinct : axisNames.Nodup
  positive : ∀ size ∈ axisSizes, 0 < size
  devices : axisSizes.prod < deviceLimit

variable {name : String} {axisNames : List String} {axisSizes : List Nat}

theorem ofAxes_eq_ok :
    Mesh.ofAxes name axisNames axisSizes = .ok m ↔
      Identifier.isIdentifier name = true ∧ axisNames.length = axisSizes.length ∧
        ∃ axes, (axisNames.zip axisSizes).foldlM addAxis [] = .ok axes ∧
          (∃ total, axes.foldlM addFactor 1 = .ok total) ∧ m = ⟨name, axes, none⟩ := by
  unfold Mesh.ofAxes
  by_cases hname : Identifier.isIdentifier name = true
  · by_cases hlength : axisNames.length = axisSizes.length
    · simp only [hname, hlength, Bool.not_true, Bool.false_eq_true, if_false, ne_eq,
        not_true_eq_false, bind_eq_ok, pure_eq_ok, Except.ok.injEq, true_and]
      refine exists_congr fun axes => and_congr_right fun _ => ?_
      rw [eq_comm (a := m)]
      constructor
      · rintro ⟨total, htotal, hm⟩
        exact ⟨⟨total, htotal⟩, hm⟩
      · rintro ⟨⟨total, htotal⟩, hm⟩
        exact ⟨total, htotal, hm⟩
    · simp only [hname, hlength, Bool.not_true, Bool.false_eq_true, if_false, ne_eq,
        not_false_eq_true, if_true, false_and, and_false, iff_false]
      exact nofun
  · simp only [Bool.not_eq_true] at hname
    simp only [hname, Bool.not_false, if_true, Bool.false_eq_true, false_and, iff_false]
    exact nofun

theorem map_name_namedAxes_zip (h : axisNames.length = axisSizes.length) :
    (namedAxes (axisNames.zip axisSizes)).map MeshAxis.name = axisNames := by
  rw [map_name_namedAxes]
  exact List.map_fst_zip (Nat.le_of_eq h)

theorem map_size_namedAxes_zip (h : axisNames.length = axisSizes.length) :
    (namedAxes (axisNames.zip axisSizes)).map MeshAxis.size = axisSizes := by
  rw [map_size_namedAxes]
  exact List.map_snd_zip (Nat.le_of_eq h.symm)

/-- A mesh is made of acceptable axes, and of no others. -/
theorem ofAxes_eq_ok_iff_acceptable :
    Mesh.ofAxes name axisNames axisSizes = .ok m ↔
      AcceptableAxes name axisNames axisSizes ∧
        m = ⟨name, namedAxes (axisNames.zip axisSizes), none⟩ := by
  have hnone : (([] : List MeshAxis).map MeshAxis.name).Nodup := List.nodup_nil
  have hpositive (hlengths : axisNames.length = axisSizes.length)
      (hpos : ∀ size ∈ axisSizes, 0 < size) :
      ∀ axis ∈ namedAxes (axisNames.zip axisSizes), 0 < axis.size := by
    rwa [← List.forall_mem_map (f := MeshAxis.size), map_size_namedAxes_zip hlengths]
  rw [ofAxes_eq_ok]
  constructor
  · rintro ⟨hname, hlengths, axes, haxes, ⟨total, htotal⟩, rfl⟩
    rw [foldlM_addAxis_eq_ok hnone, List.map_fst_zip (Nat.le_of_eq hlengths),
      List.map_snd_zip (Nat.le_of_eq hlengths.symm)] at haxes
    obtain ⟨hnames, hpos, hdistinct, rfl⟩ := haxes
    obtain ⟨rfl, hdevices⟩ :=
      (foldlM_addFactor_eq_ok (hpositive hlengths hpos) (by decide)).mp htotal
    rw [map_size_namedAxes_zip hlengths, Nat.one_mul] at hdevices
    exact ⟨⟨hname, hnames, hlengths, hdistinct, hpos, hdevices⟩, rfl⟩
  · rintro ⟨h, rfl⟩
    refine ⟨h.name, h.lengths, _, ?_, ⟨axisSizes.prod, ?_⟩, rfl⟩
    · rw [foldlM_addAxis_eq_ok hnone, List.map_fst_zip (Nat.le_of_eq h.lengths),
        List.map_snd_zip (Nat.le_of_eq h.lengths.symm)]
      exact ⟨h.names, h.positive, h.distinct, rfl⟩
    · rw [foldlM_addFactor_eq_ok (hpositive h.lengths h.positive) (by decide),
        map_size_namedAxes_zip h.lengths, Nat.one_mul]
      exact ⟨rfl, h.devices⟩

theorem wellFormed_ofAxes (h : Mesh.ofAxes name axisNames axisSizes = .ok m) : m.WellFormed := by
  obtain ⟨haxes, rfl⟩ := ofAxes_eq_ok_iff_acceptable.mp h
  have hsizes := map_size_namedAxes_zip haxes.lengths
  refine ⟨?_, ?_, ?_, nofun⟩
  · rw [map_name_namedAxes_zip haxes.lengths]
    exact haxes.distinct
  · rw [← List.forall_mem_map (f := MeshAxis.size), hsizes]
    exact haxes.positive
  · rw [deviceCount_eq, hsizes]
    exact haxes.devices

theorem WellFormed.deviceCount_pos (h : m.WellFormed) : 0 < m.deviceCount := by
  rw [deviceCount_eq]
  exact List.prod_pos (List.forall_mem_map.mpr h.positive)

/-- What divides the number of devices is below the limit too. -/
theorem WellFormed.lt_deviceLimit (h : m.WellFormed) {n : Nat} (hn : n ∣ m.deviceCount) :
    n < deviceLimit :=
  Nat.lt_of_le_of_lt (Nat.le_of_dvd h.deviceCount_pos hn) h.devices

/-! ## Lookups -/

/-- The position that is found for a name is the one of the axis with this name. -/
theorem axisIndex?_eq_some (hm : m.WellFormed) {name : String} {a : Nat} :
    m.axisIndex? name = some a ↔ (m.axes.map MeshAxis.name)[a]? = some name := by
  rw [axisIndex?, List.findIdx?_eq_some_iff_getElem]
  constructor
  · rintro ⟨ha, hname, _⟩
    simpa [ha] using hname
  · intro h
    obtain ⟨ha, hname⟩ := List.getElem?_eq_some_iff.mp h
    rw [List.getElem_map] at hname
    refine ⟨by simpa using ha, by simpa using hname, fun b hb hsame => ?_⟩
    -- an earlier axis of this name would be a second one
    have hother : (m.axes.map MeshAxis.name)[b]? = some name := by
      rw [List.length_map] at ha
      simpa [Nat.lt_trans hb ha] using hsame
    have hab : a = b := (List.getElem?_inj ha hm.names).mp (h.trans hother.symm)
    omega

/-- The size that is found for a name is the one of the axis with this name. -/
theorem WellFormed.axisSize?_eq_some (h : m.WellFormed) {name : String} {size : Nat} :
    m.axisSize? name = some size ↔ ⟨name, size⟩ ∈ m.axes := by
  unfold axisSize?
  constructor
  · intro hsize
    obtain ⟨axis, hfound, rfl⟩ := Option.map_eq_some_iff.mp hsize
    obtain rfl : axis.name = name := by simpa using List.find?_some hfound
    exact List.mem_of_find?_eq_some hfound
  · intro hmem
    have hfound : (m.axes.find? (·.name == name)).isSome := by
      rw [List.find?_isSome]
      exact ⟨_, hmem, beq_self_eq_true name⟩
    obtain ⟨axis, haxis⟩ := Option.isSome_iff_exists.mp hfound
    have hname : axis.name = name := by simpa using List.find?_some haxis
    have hsame : axis = ⟨name, size⟩ :=
      List.inj_on_of_nodup_map h.names (List.mem_of_find?_eq_some haxis) hmem hname
    rw [haxis, hsame]
    rfl

/-! ## Ids -/

theorem addDeviceId_eq_ok {count device : Nat} {seen found : List Nat} :
    addDeviceId count seen device = .ok found ↔
      ∃ b, (b = device ∧ device < count) ∧ b ∉ seen ∧ found = b :: seen := by
  unfold addDeviceId
  split_ifs with hrange hseen
  · simp only [false_iff]
    rintro ⟨_, ⟨_, hlt⟩, _⟩
    omega
  · simp only [false_iff]
    rintro ⟨_, ⟨rfl, _⟩, hnew, _⟩
    exact hnew (by simpa using hseen)
  · simp only [Except.ok.injEq]
    constructor
    · rintro rfl
      exact ⟨device, ⟨rfl, by omega⟩, by simpa using hseen, rfl⟩
    · rintro ⟨_, ⟨rfl, _⟩, _, rfl⟩
      rfl

/-- Ids are collected when they are different numbers below the number of devices. -/
theorem foldlM_addDeviceId {count : Nat} {ids : List Nat} :
    (∃ found, ids.foldlM (addDeviceId count) [] = .ok found) ↔
      ids.Nodup ∧ ∀ id ∈ ids, id < count :=
  foldlM_distinct_same (fun _ _ _ => addDeviceId_eq_ok)

/-- Ids are accepted when they are the logical indices in some order. -/
theorem withDeviceIds_eq_ok {ids : List Nat} :
    m.withDeviceIds ids = .ok m' ↔
      ids.Perm (List.range m.deviceCount) ∧ m' = { m with assignment? := some ids } := by
  rw [perm_range_iff, ← foldlM_addDeviceId]
  unfold withDeviceIds
  by_cases hlength : ids.length = m.deviceCount
  · simp only [hlength, ne_eq, not_true_eq_false, if_false, bind_eq_ok, pure_eq_ok,
      Except.ok.injEq, true_and]
    rw [eq_comm (a := m')]
    constructor
    · rintro ⟨found, hfound, hm⟩
      exact ⟨⟨found, hfound⟩, hm⟩
    · rintro ⟨⟨found, hfound⟩, hm⟩
      exact ⟨found, hfound, hm⟩
  · simp only [hlength, ne_eq, not_false_eq_true, if_true, false_and, iff_false]
    exact nofun

theorem Built.wellFormed (h : m.Built) : m.WellFormed := by
  induction h with
  | ofAxes h => exact wellFormed_ofAxes h
  | withDeviceIds _ h ih =>
    obtain ⟨hperm, rfl⟩ := withDeviceIds_eq_ok.mp h
    refine ⟨ih.names, ih.positive, ih.devices, fun ids hids => ?_⟩
    obtain rfl := Option.some.inj hids
    exact hperm

theorem WellFormed.deviceIds_perm (h : m.WellFormed) :
    m.deviceIds.Perm (List.range m.deviceCount) := by
  unfold deviceIds
  cases hids : m.assignment? with
  | none => exact .refl _
  | some ids => exact h.assignment ids hids

/-! ## What is accepted -/

/-- The mesh has the axes with the given names and sizes.  Each name gives the position and the
size of its axis, and any axes of the mesh take a number of devices that divides the number of all
devices and is below the limit. -/
structure Over (m : Mesh) (axisNames : List String) (axisSizes : List Nat) : Prop where
  names : m.axes.map MeshAxis.name = axisNames
  sizes : m.axes.map MeshAxis.size = axisSizes
  deviceCount : m.deviceCount = axisSizes.prod
  axisIndex : ∀ name (a : Nat), m.axisIndex? name = some a ↔ axisNames[a]? = some name
  axisSize : ∀ name size, m.axisSize? name = some size ↔
    ∃ a : Nat, axisNames[a]? = some name ∧ axisSizes[a]? = some size
  divides : ∀ axes ⊆ m.axes.toFinset, (∏ axis ∈ axes, axis.size) ∣ m.deviceCount
  fits : ∀ axes ⊆ m.axes.toFinset, (∏ axis ∈ axes, axis.size) < deviceLimit

/-- Some of the axes of a mesh take a part of its devices. -/
theorem WellFormed.prod_dvd_deviceCount (hm : m.WellFormed) {axes : Finset MeshAxis}
    (h : axes ⊆ m.axes.toFinset) : (∏ axis ∈ axes, axis.size) ∣ m.deviceCount := by
  have hall : ∏ axis ∈ m.axes.toFinset, axis.size = m.deviceCount := by
    rw [deviceCount_eq]
    exact List.prod_toFinset MeshAxis.size hm.names.of_map
  rw [← hall]
  exact Finset.prod_dvd_prod_of_subset axes m.axes.toFinset MeshAxis.size h

/-- An axis has its name and its size in one place. -/
theorem mem_axes_iff {axis : MeshAxis} :
    axis ∈ m.axes ↔ ∃ a : Nat, (m.axes.map MeshAxis.name)[a]? = some axis.name ∧
      (m.axes.map MeshAxis.size)[a]? = some axis.size := by
  rw [List.mem_iff_getElem?]
  refine exists_congr fun a => ?_
  rw [List.getElem?_map, List.getElem?_map]
  cases m.axes[a]? with
  | none => simp
  | some found =>
    cases found
    cases axis
    simp

theorem over_ofAxes (h : Mesh.ofAxes name axisNames axisSizes = .ok m) :
    m.Over axisNames axisSizes := by
  have hm := wellFormed_ofAxes h
  obtain ⟨haxes, rfl⟩ := ofAxes_eq_ok_iff_acceptable.mp h
  have hnames := map_name_namedAxes_zip haxes.lengths
  have hsizes := map_size_namedAxes_zip haxes.lengths
  constructor
  · exact hnames
  · exact hsizes
  · rw [deviceCount_eq, hsizes]
  · intro name a
    rw [axisIndex?_eq_some hm, hnames]
  · intro name size
    rw [hm.axisSize?_eq_some, mem_axes_iff, hnames, hsizes]
  · intro axes hsubset
    exact hm.prod_dvd_deviceCount hsubset
  · intro axes hsubset
    exact hm.lt_deviceLimit (hm.prod_dvd_deviceCount hsubset)

/-- Ids are accepted when they are the logical indices in some order, and axes when their names
are different identifiers, their sizes are positive and the exact product of all sizes is below the
limit. -/
theorem meshes_accepted :
    (∀ (m : Mesh) (ids : List Nat),
        (∃ m', m.withDeviceIds ids = .ok m') ↔ ids.Perm (List.range m.deviceCount)) ∧
      ∀ (name : String) (axisNames : List String) (axisSizes : List Nat),
        ((∃ m, Mesh.ofAxes name axisNames axisSizes = .ok m) ↔
          AcceptableAxes name axisNames axisSizes) ∧
        ∀ m, Mesh.ofAxes name axisNames axisSizes = .ok m → m.Over axisNames axisSizes := by
  refine ⟨fun m ids => ?_, fun name axisNames axisSizes => ⟨?_, fun m h => over_ofAxes h⟩⟩
  · simp only [withDeviceIds_eq_ok, exists_and_left, exists_eq, and_true]
  · simp only [ofAxes_eq_ok_iff_acceptable, exists_and_left, exists_eq, and_true]

/-- Six devices in a grid, with ids in another order.  Two axes of `2 ^ 32` places are too many. -/
theorem meshes_accepted_grid :
    let m : Mesh := ⟨"mesh", [⟨"x", 2⟩, ⟨"y", 3⟩, ⟨"z", 1⟩], none⟩
    m.deviceCount = 6 ∧ m.axisIndex? "y" = some 1 ∧ m.axisSize? "y" = some 3 ∧
      (∏ axis ∈ {⟨"y", 3⟩, ⟨"z", 1⟩}, MeshAxis.size axis) ∣ m.deviceCount ∧
      (∃ m', m.withDeviceIds [5, 3, 4, 0, 1, 2] = .ok m') ∧
      ¬∃ m', Mesh.ofAxes "mesh" ["x", "y"] [0x100000000, 0x100000000] = .ok m' := by
  intro m
  have hofAxes : Mesh.ofAxes "mesh" ["x", "y", "z"] [2, 3, 1] = .ok m := by decide
  obtain ⟨hids, haxes⟩ := meshes_accepted
  have hover := (haxes _ _ _).2 m hofAxes
  refine ⟨hover.deviceCount, (hover.axisIndex "y" 1).mpr rfl,
    (hover.axisSize "y" 3).mpr ⟨1, rfl, rfl⟩, hover.divides _ (by decide),
    (hids m _).mpr (by decide), fun h => ?_⟩
  have hdevices := ((haxes _ _ _).1.mp h).devices
  exact absurd hdevices (by decide)

end Mesh

end TensorProgram
