import TensorProgram.Mesh.Groups
import TensorProgram.Proofs.GroupSizes
import TensorProgram.Proofs.Meshes
import TensorProgram.Proofs.SharedCoordinates

/-!
# The replica groups of a mesh

The groups of a collective over some axes of a mesh partition its devices:
`Mesh.replicaGroups_partition`.  A device belongs to the group with the number that it has along
the axes that are not listed, `replicaGroups_eq_ok`, and `SharedCoordinates` says how many devices
have a number.
-/

namespace TensorProgram

/-- The entries with a key are put together, key by key. -/
theorem flatten_buckets_perm {α : Type} (key : α → Nat) (n : Nat) (xs : List α) :
    ((List.range n).map fun k => xs.filter fun x => key x == k).flatten.Perm
      (xs.filter fun x => decide (key x < n)) := by
  induction n with
  | zero => simp
  | succ n ih =>
    rw [List.range_succ, List.map_append, List.flatten_append, List.map_singleton,
      List.flatten_singleton]
    have hbelow : xs.filter (fun x => decide (key x < n)) =
        (xs.filter fun x => decide (key x < n + 1)).filter fun x => decide (key x < n) := by
      rw [List.filter_filter]
      congr 1
      funext x
      simp only [← Bool.decide_and]
      exact decide_eq_decide.mpr (by omega)
    have hlast : xs.filter (fun x => key x == n) =
        (xs.filter fun x => decide (key x < n + 1)).filter fun x => !decide (key x < n) := by
      rw [List.filter_filter]
      congr 1
      funext x
      rw [Bool.eq_iff_iff]
      simp only [beq_iff_eq, Bool.and_eq_true, Bool.not_eq_true', decide_eq_true_eq,
        decide_eq_false_iff_not]
      omega
    refine (ih.append_right _).trans ?_
    rw [hbelow, hlast]
    exact List.filter_append_perm _ _

namespace Inference.Offset

/-- A size below the limit is the offset itself. -/
theorem ofSize_eq {n : Nat} (h : (n : Int) < limit) : ofSize n = n := by
  simp only [ofSize, limit, Size.limit] at *
  rw [Int.bmod_eq_of_le] <;> omega

end Inference.Offset

namespace Mesh

variable {m : Mesh} {names : List String} {listed : List Nat}

/-- The product of the sizes of the listed axes. -/
def groupSize (m : Mesh) (names : List String) : Nat :=
  placeCount (m.axes.filter fun axis => decide (axis.name ∈ names))

/-- The number of the place that a device has along the axes that are not listed. -/
def sharedIndex (m : Mesh) (names : List String) (device : Nat) : Nat :=
  indexAlong (fun axis => !decide (axis.name ∈ names)) m.axes device

/-- The coordinates of two devices agree along every axis that is not listed.  The coordinate
along an axis is the one with weight the number of places along the axes after it. -/
def AgreeOff (m : Mesh) (names : List String) (i j : Nat) : Prop :=
  ∀ before axis after, m.axes = before ++ axis :: after → axis.name ∉ names →
    i / placeCount after % axis.size = j / placeCount after % axis.size

/-- The groups partition the devices into the classes of those that differ only along the listed
axes. -/
structure PartitionedBy (m : Mesh) (names : List String) (groups : List (List Int)) : Prop where
  count : groups.length = m.deviceCount / m.groupSize names
  sizes : ∀ group ∈ groups, group.length = m.groupSize names
  devices : groups.flatten.Perm ((List.range m.deviceCount).map Nat.cast)
  together : ∀ (i j a b : Nat), m.deviceIds[i]? = some a → m.deviceIds[j]? = some b →
    ((∃ group ∈ groups, (a : Int) ∈ group ∧ (b : Int) ∈ group) ↔ m.AgreeOff names i j)
  memberOrder : ∀ group ∈ groups, group.Sublist (m.deviceIds.map Nat.cast)
  groupOrder : ∀ (k : Nat) group, groups[k]? = some group → ∀ (i a : Nat),
    m.deviceIds[i]? = some a → ((a : Int) ∈ group ↔ m.sharedIndex names i = k)

/-! ## Listed axes -/

/-- Names and the positions of their axes belong to each other. -/
theorem biUnique_axisIndex? (hm : m.WellFormed) :
    Relator.BiUnique fun name a => m.axisIndex? name = some a := by
  constructor
  · intro name a name' h h'
    rw [axisIndex?_eq_some hm] at h h'
    exact Option.some.inj (h.symm.trans h')
  · intro name a b h h'
    exact Option.some.inj (h.symm.trans h')

theorem addListedAxis_eq_ok (seen : List Nat) (name : String) (found : List Nat) :
    m.addListedAxis seen name = .ok found ↔
      ∃ a, m.axisIndex? name = some a ∧ a ∉ seen ∧ found = a :: seen := by
  unfold addListedAxis
  cases h : m.axisIndex? name with
  | none => simp
  | some a =>
    simp only [List.contains_eq_mem, decide_eq_true_eq, Option.some.injEq, exists_eq_left']
    split_ifs with hseen
    · simp [hseen]
    · simp [hseen, eq_comm]

theorem foldlM_addListedAxis :
    names.foldlM (addListedAxis m) [] = .ok listed ↔
      ∃ new, List.Forall₂ (fun name a => m.axisIndex? name = some a) names new ∧ new.Nodup ∧
        listed = new.reverse := by
  rw [foldlM_distinct addListedAxis_eq_ok List.nodup_nil]
  simp only [List.append_nil, List.nodup_reverse]

/-- The axes are listed when their names are known and different. -/
theorem exists_listed_iff (hm : m.WellFormed) :
    (∃ listed, names.foldlM (addListedAxis m) [] = .ok listed) ↔
      (∀ name ∈ names, name ∈ m.axes.map MeshAxis.name) ∧ names.Nodup := by
  constructor
  · rintro ⟨listed, h⟩
    obtain ⟨new, hnew, hnodup, _⟩ := foldlM_addListedAxis.mp h
    have hknown := (List.forall₂_and_left names new).mp <| hnew.imp fun name a ha =>
      And.intro (List.mem_of_getElem? ((axisIndex?_eq_some hm).mp ha)) ha
    exact ⟨hknown.1, (List.rel_nodup (biUnique_axisIndex? hm) hnew).mpr hnodup⟩
  · rintro ⟨hknown, hnodup⟩
    have hnew : List.Forall₂ (fun name a => m.axisIndex? name = some a) names
        (names.map fun name => (m.axes.map MeshAxis.name).idxOf name) := by
      rw [List.forall₂_map_right_iff, List.forall₂_same]
      intro name hname
      rw [axisIndex?_eq_some hm]
      exact List.getElem?_idxOf (hknown name hname)
    exact ⟨_, foldlM_addListedAxis.mpr
      ⟨_, hnew, (List.rel_nodup (biUnique_axisIndex? hm) hnew).mp hnodup, rfl⟩⟩

/-- The axes that are listed are the ones with the names. -/
theorem contains_listed (hm : m.WellFormed)
    (h : names.foldlM (addListedAxis m) [] = .ok listed) {a : Nat} {axis : MeshAxis}
    (ha : m.axes[a]? = some axis) : listed.contains a = decide (axis.name ∈ names) := by
  obtain ⟨new, hnew, _, rfl⟩ := foldlM_addListedAxis.mp h
  have hname : m.axisIndex? axis.name = some a := by
    rw [axisIndex?_eq_some hm, List.getElem?_map, ha, Option.map_some]
  have hmem : axis.name ∈ names ↔ a ∈ new := List.rel_mem (biUnique_axisIndex? hm) hname hnew
  simp [hmem]

/-- Selecting by position is selecting by axis. -/
theorem filter_zipIdx {α : Type} {wanted : MeshAxis → Bool} (keep : Nat → Bool)
    {axes : List MeshAxis} {xs : List α} {start : Nat} (hxs : xs.length = axes.length)
    (hkeep : ∀ k axis, axes[k]? = some axis → keep (start + k) = wanted axis) :
    ((xs.zipIdx start).filter fun entry => keep entry.2).map Prod.fst =
      entriesAt wanted axes xs := by
  induction axes generalizing xs start with
  | nil =>
    obtain rfl := List.eq_nil_of_length_eq_zero hxs
    rfl
  | cons axis axes ih =>
    obtain ⟨x, xs, rfl⟩ := List.exists_cons_of_length_eq_add_one hxs
    simp only [List.length_cons, Nat.add_right_cancel_iff] at hxs
    have hfirst : keep start = wanted axis := hkeep 0 axis rfl
    have hrest : ((xs.zipIdx (start + 1)).filter fun entry => keep entry.2).map Prod.fst =
        entriesAt wanted axes xs := ih hxs fun k a ha => by
      rw [Nat.add_right_comm]
      exact hkeep (k + 1) a (by simpa using ha)
    rw [List.zipIdx_cons, List.filter_cons, entriesAt, ← hrest]
    simp only [hfirst]
    split_ifs <;> rfl

theorem selectAxes_eq (hm : m.WellFormed)
    (h : names.foldlM (addListedAxis m) [] = .ok listed) {α : Type} {xs : List α}
    (hxs : xs.length = m.axes.length) (wanted : Bool) :
    selectAxes listed wanted xs =
      entriesAt (fun axis => decide (axis.name ∈ names) == wanted) m.axes xs := by
  refine filter_zipIdx (fun a => listed.contains a == wanted) hxs fun k axis hk => ?_
  rw [Nat.zero_add, contains_listed hm h hk]

theorem groupIndex_eq (hm : m.WellFormed)
    (h : names.foldlM (addListedAxis m) [] = .ok listed) (device : Nat) :
    groupIndex (m.axes.map MeshAxis.size) listed device = m.sharedIndex names device := by
  rw [groupIndex, selectAxes_eq hm h (by simp [length_coordinates]), entriesAt_zip
    (by simp [length_coordinates]) (by simp), entriesAt_map]
  simp only [beq_false]
  rfl

/-! ## Groups -/

/-- The ids of the devices with a number along the axes that are not listed. -/
def group (m : Mesh) (names : List String) (k : Nat) : List Int :=
  (m.deviceIds.zipIdx.filter fun entry => m.sharedIndex names entry.2 == k).map
    fun entry => (entry.1 : Int)

theorem groupSize_eq (hm : m.WellFormed)
    (h : names.foldlM (addListedAxis m) [] = .ok listed) :
    (selectAxes listed true (m.axes.map MeshAxis.size)).foldl (· * ·) 1 = m.groupSize names := by
  rw [selectAxes_eq hm h (by simp), entriesAt_map, ← List.prod_eq_foldl]
  simp only [beq_true]
  rfl

/-- Every device has an id below the number of devices. -/
theorem WellFormed.lt_of_mem_deviceIds (hm : m.WellFormed) {id : Nat} (h : id ∈ m.deviceIds) :
    id < m.deviceCount :=
  List.mem_range.mp (hm.deviceIds_perm.mem_iff.mp h)

/-- The names are accepted when they are known and different, and the groups are then the classes
of the devices with one number. -/
theorem replicaGroups_eq_ok (hm : m.WellFormed)
    (hlimit : (m.deviceCount : Int) < Inference.Offset.limit) {groups : List (List Int)} :
    m.replicaGroups names = .ok groups ↔
      ((∀ name ∈ names, name ∈ m.axes.map MeshAxis.name) ∧ names.Nodup) ∧
        groups = (List.range (m.deviceCount / m.groupSize names)).map (m.group names) := by
  rw [← exists_listed_iff hm]
  simp only [replicaGroups, bind_eq_ok, pure_eq_ok, Except.ok.injEq]
  have hgroups {listed : List Nat} (h : names.foldlM (addListedAxis m) [] = .ok listed) (k : Nat) :
      ((m.deviceIds.zipIdx.map fun entry =>
        (groupIndex (m.axes.map MeshAxis.size) listed entry.2,
          Inference.Offset.ofSize entry.1)).filter fun entry => entry.1 == k).map Prod.snd =
        m.group names k := by
    rw [List.filter_map, List.map_map, group]
    simp only [Function.comp_def, groupIndex_eq hm h]
    refine List.map_congr_left fun entry hentry => Inference.Offset.ofSize_eq ?_
    have hid := hm.lt_of_mem_deviceIds (List.fst_mem_of_mem_zipIdx (List.mem_filter.mp hentry).1)
    omega
  constructor
  · rintro ⟨listed, h, hresult⟩
    refine ⟨⟨listed, h⟩, ?_⟩
    rw [← hresult, groupSize_eq hm h]
    exact List.map_congr_left fun k _ => hgroups h k
  · rintro ⟨⟨listed, h⟩, rfl⟩
    refine ⟨listed, h, ?_⟩
    rw [groupSize_eq hm h]
    exact List.map_congr_left fun k _ => hgroups h k

theorem mem_group {k : Nat} {a : Nat} :
    (a : Int) ∈ m.group names k ↔ ∃ i, m.deviceIds[i]? = some a ∧ m.sharedIndex names i = k := by
  simp only [group, List.mem_map, List.mem_filter, Prod.exists, List.mem_zipIdx_iff_getElem?,
    beq_iff_eq, Int.natCast_inj]
  constructor
  · rintro ⟨_, i, ⟨hi, hk⟩, rfl⟩
    exact ⟨i, hi, hk⟩
  · rintro ⟨i, hi, hk⟩
    exact ⟨a, i, ⟨hi, hk⟩, rfl⟩

/-- The device with an id belongs to the group with its number. -/
theorem mem_group_iff (hm : m.WellFormed) {k i a : Nat} (hi : m.deviceIds[i]? = some a) :
    (a : Int) ∈ m.group names k ↔ m.sharedIndex names i = k := by
  rw [mem_group]
  constructor
  · rintro ⟨j, hj, hk⟩
    have hnodup : m.deviceIds.Nodup := hm.deviceIds_perm.nodup_iff.mpr List.nodup_range
    obtain ⟨hlt, _⟩ := List.getElem?_eq_some_iff.mp hi
    obtain rfl : i = j := (List.getElem?_inj hlt hnodup).mp (hi.trans hj.symm)
    exact hk
  · intro hk
    exact ⟨i, hi, hk⟩

theorem map_zipIdx_deviceIds (m : Mesh) :
    m.deviceIds.zipIdx.map (fun entry => (entry.1 : Int)) = m.deviceIds.map Nat.cast := by
  have h := congrArg (List.map (Nat.cast : Nat → Int)) (List.zipIdx_map_fst 0 m.deviceIds)
  rwa [List.map_map] at h

theorem group_sublist (k : Nat) : (m.group names k).Sublist (m.deviceIds.map Nat.cast) := by
  rw [← map_zipIdx_deviceIds]
  exact List.filter_sublist.map _

/-! ## The partition -/

/-- Groups and places along the axes that are not listed are as many. -/
theorem placeCount_unlisted (m : Mesh) (names : List String) :
    placeCount (m.axes.filter fun axis => !decide (axis.name ∈ names)) * m.groupSize names =
      m.deviceCount := by
  rw [deviceCount_eq, groupSize, Nat.mul_comm, placeCount_filter]
  rfl

theorem groupSize_pos (hm : m.WellFormed) : 0 < m.groupSize names :=
  placeCount_pos fun axis h => hm.positive axis (List.mem_of_mem_filter h)

theorem deviceCount_div (hm : m.WellFormed) :
    m.deviceCount / m.groupSize names =
      placeCount (m.axes.filter fun axis => !decide (axis.name ∈ names)) := by
  rw [← placeCount_unlisted m names, Nat.mul_div_cancel _ (groupSize_pos hm)]

theorem sharedIndex_lt (hm : m.WellFormed) (device : Nat) :
    m.sharedIndex names device < m.deviceCount / m.groupSize names := by
  rw [deviceCount_div hm]
  exact indexAlong_lt hm.positive device

theorem length_group (hm : m.WellFormed) {k : Nat}
    (hk : k < m.deviceCount / m.groupSize names) :
    (m.group names k).length = m.groupSize names := by
  rw [deviceCount_div hm] at hk
  have hcount := countP_indexAlong hm.positive hk
  simp only [Bool.not_not] at hcount
  rw [groupSize, ← hcount, group, List.length_map, ← List.countP_eq_length_filter]
  have hdevices : List.range (placeCount m.axes) = m.deviceIds.zipIdx.map Prod.snd := by
    rw [List.zipIdx_map_snd, hm.deviceIds_perm.length_eq, List.length_range, deviceCount_eq,
      List.range_eq_range']
    rfl
  rw [hdevices, List.countP_map]
  rfl

theorem flatten_groups_perm (hm : m.WellFormed) :
    ((List.range (m.deviceCount / m.groupSize names)).map (m.group names)).flatten.Perm
      ((List.range m.deviceCount).map Nat.cast) := by
  have hkept : (m.deviceIds.zipIdx.filter fun entry =>
      decide (m.sharedIndex names entry.2 < m.deviceCount / m.groupSize names)) =
        m.deviceIds.zipIdx :=
    List.filter_eq_self.mpr fun entry _ => by simpa using sharedIndex_lt hm entry.2
  have hbuckets := flatten_buckets_perm (fun entry => m.sharedIndex names entry.2)
    (m.deviceCount / m.groupSize names) m.deviceIds.zipIdx
  rw [hkept] at hbuckets
  have hcast := hbuckets.map fun entry => (entry.1 : Int)
  rw [List.map_flatten, List.map_map] at hcast
  refine hcast.trans ?_
  rw [map_zipIdx_deviceIds]
  exact hm.deviceIds_perm.map _

/-- The groups of a mesh partition its devices. -/
theorem partitionedBy_groups (hm : m.WellFormed) :
    m.PartitionedBy names
      ((List.range (m.deviceCount / m.groupSize names)).map (m.group names)) where
  count := by rw [List.length_map, List.length_range]
  sizes := by
    rw [List.forall_mem_map]
    exact fun k hk => length_group hm (List.mem_range.mp hk)
  devices := flatten_groups_perm hm
  together i j a b hi hj := by
    have hsame : m.sharedIndex names i = m.sharedIndex names j ↔ m.AgreeOff names i j := by
      simp [sharedIndex, indexAlong_eq_iff hm.positive, AgreeOff]
    rw [← hsame]
    constructor
    · rintro ⟨_, hgroup, ha, hb⟩
      obtain ⟨k, _, rfl⟩ := List.mem_map.mp hgroup
      rw [(mem_group_iff hm hi).mp ha, (mem_group_iff hm hj).mp hb]
    · intro h
      exact ⟨_, List.mem_map_of_mem (List.mem_range.mpr (sharedIndex_lt hm i)),
        (mem_group_iff hm hi).mpr rfl, (mem_group_iff hm hj).mpr h.symm⟩
  memberOrder := by
    rw [List.forall_mem_map]
    exact fun k _ => group_sublist k
  groupOrder k group hk i a hi := by
    rw [List.getElem?_map] at hk
    obtain ⟨k', hk', rfl⟩ := Option.map_eq_some_iff.mp hk
    obtain ⟨_, rfl⟩ := List.getElem?_eq_some_iff.mp hk'
    rw [List.getElem_range, mem_group_iff hm hi]

/-! ## Acceptance -/

variable {names' : List String}

/-- The groups do not depend on the order of the names. -/
theorem replicaGroups_perm (hm : m.WellFormed)
    (hlimit : (m.deviceCount : Int) < Inference.Offset.limit) {groups : List (List Int)}
    (hnames : names'.Perm names) (h : m.replicaGroups names = .ok groups) :
    m.replicaGroups names' = .ok groups := by
  obtain ⟨⟨hknown, hnodup⟩, hgroups⟩ := (replicaGroups_eq_ok hm hlimit).mp h
  refine (replicaGroups_eq_ok hm hlimit).mpr
    ⟨⟨fun name hname => hknown name (hnames.mem_iff.mp hname), hnames.nodup_iff.mpr hnodup⟩, ?_⟩
  have hgroup : m.group names' = m.group names := by
    funext k
    simp only [group, sharedIndex, hnames.mem_iff]
  rw [hgroups, hgroup, groupSize, groupSize]
  simp only [hnames.mem_iff]

/-- A partition of the devices is a list of groups that collectives accept. -/
theorem PartitionedBy.replicaGroupSize (hm : m.WellFormed) {groups : List (List Int)}
    (h : m.PartitionedBy names groups) :
    Inference.replicaGroupSize groups = .ok (m.groupSize names) := by
  refine Inference.replicaGroupSize_eq_ok.mpr
    ⟨?_, Nat.ne_of_gt (groupSize_pos hm), h.sizes, ?_, ?_⟩
  · have hplaces : 0 < m.deviceCount / m.groupSize names :=
      Nat.zero_lt_of_lt (sharedIndex_lt hm 0)
    rw [← h.count] at hplaces
    exact List.ne_nil_of_length_pos hplaces
  · rw [h.devices.nodup_iff]
    exact List.nodup_range.map Nat.cast_injective
  · intro device hdevice
    obtain ⟨n, _, rfl⟩ := List.mem_map.mp (h.devices.mem_iff.mp hdevice)
    exact Int.natCast_nonneg n

/-- The groups of a collective over some axes: the names of the axes are accepted when they are
known and different, in whatever order, and the groups then partition the devices and are accepted
as replica groups. -/
theorem replicaGroups_partition (hm : m.Built)
    (hlimit : (m.deviceCount : Int) < Inference.Offset.limit) (names : List String) :
    ((∃ e, m.replicaGroups names = .error e) ↔
      (∃ name ∈ names, name ∉ m.axes.map MeshAxis.name) ∨ ¬ names.Nodup) ∧
    ∀ groups, m.replicaGroups names = .ok groups →
      m.PartitionedBy names groups ∧
        (∀ names', names'.Perm names → m.replicaGroups names' = .ok groups) ∧
        Inference.replicaGroupSize groups = .ok (m.groupSize names) := by
  have hwf := hm.wellFormed
  constructor
  · have hfails : (∃ e, m.replicaGroups names = .error e) ↔
        ¬ ∃ groups, m.replicaGroups names = .ok groups := by
      cases m.replicaGroups names <;> simp
    rw [hfails]
    simp only [replicaGroups_eq_ok hwf hlimit, exists_and_left, exists_eq, and_true, not_and_or,
      not_forall, exists_prop]
  · intro groups h
    obtain ⟨_, hgroups⟩ := (replicaGroups_eq_ok hwf hlimit).mp h
    have hpartition : m.PartitionedBy names groups := hgroups ▸ partitionedBy_groups hwf
    exact ⟨hpartition, fun names' hnames => replicaGroups_perm hwf hlimit hnames h,
      hpartition.replicaGroupSize hwf⟩

/-- Two rows of three devices with ids in falling order: the groups along the second axis are the
rows, and a collective may list the groups as they are. -/
theorem replicaGroups_partition_rows :
    let m : Mesh := ⟨"mesh", [⟨"x", 2⟩, ⟨"y", 3⟩], some [5, 4, 3, 2, 1, 0]⟩
    m.Built ∧ (m.deviceCount : Int) < Inference.Offset.limit ∧
      m.PartitionedBy ["y"] [[5, 4, 3], [2, 1, 0]] ∧
      Inference.replicaGroupSize [[5, 4, 3], [2, 1, 0]] = .ok 3 := by
  let unassigned : Mesh := ⟨"mesh", [⟨"x", 2⟩, ⟨"y", 3⟩], none⟩
  have hofAxes : Mesh.ofAxes "mesh" ["x", "y"] [2, 3] = .ok unassigned := by decide
  have hassigned : unassigned.withDeviceIds [5, 4, 3, 2, 1, 0] =
      .ok ⟨"mesh", [⟨"x", 2⟩, ⟨"y", 3⟩], some [5, 4, 3, 2, 1, 0]⟩ := by decide
  have hbuilt := (Built.ofAxes hofAxes).withDeviceIds hassigned
  have hresult := (replicaGroups_partition hbuilt (by decide) ["y"]).2 [[5, 4, 3], [2, 1, 0]]
    (by decide)
  exact ⟨hbuilt, by decide, hresult.1, hresult.2.2⟩

end Mesh

end TensorProgram
