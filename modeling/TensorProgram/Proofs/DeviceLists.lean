import Mathlib.Data.List.Perm.Basic
import TensorProgram.Attribute
import TensorProgram.NearestConversions
import TensorProgram.Proofs.ElementTexts
import TensorProgram.Proofs.GroupSizes
import TensorProgram.Proofs.TensorTypes

/-!
# Lists of devices

A collective is given its devices as replica groups or as pairs of a source and a target.  Both
are walked through once, with a list of the devices seen before.  For groups that is the check of
all devices together.  A pair is checked and added as a whole, so the walk over pairs succeeds when
the walks over the sources and over the targets do: `foldlM_addPair`.  Neither check depends on the
order, `replicaGroupSize_regrouped` and `collectivePermute_perm`.

Groups are written as the rows of a matrix, and rows that are too short are filled up with a number
that is no device.  So rows that are written like accepted groups are these groups,
`Attribute.eq_of_ofRows`.
-/

namespace TensorProgram

namespace Inference

/-! ## Groups in another order -/

/-- The same groups up to the order of the groups and the order in each group. -/
def Regrouped (groups others : List (List Int)) : Prop :=
  ∃ middle, groups.Perm middle ∧ List.Forall₂ List.Perm middle others

section Regrouped

variable {groups others : List (List Int)} {size : Nat}

theorem forall_length_iff (h : List.Forall₂ List.Perm groups others) :
    (∀ group ∈ groups, group.length = size) ↔ ∀ group ∈ others, group.length = size := by
  induction h with
  | nil => rfl
  | cons hgroup _ ih => rw [List.forall_mem_cons, List.forall_mem_cons, hgroup.length_eq, ih]

/-- The check of the groups does not depend on their order. -/
theorem replicaGroupSize_regrouped (h : Regrouped groups others) :
    replicaGroupSize others = .ok size ↔ replicaGroupSize groups = .ok size := by
  obtain ⟨middle, hperm, hmembers⟩ := h
  have hdevices : groups.flatten.Perm others.flatten :=
    hperm.flatten.trans (.flatten_congr hmembers)
  have hempty : groups = [] ↔ others = [] := by
    rw [← List.length_eq_zero_iff, ← List.length_eq_zero_iff, hperm.length_eq,
      hmembers.length_eq]
  have hlengths : (∀ group ∈ groups, group.length = size) ↔
      ∀ group ∈ others, group.length = size := by
    rw [← forall_length_iff hmembers]
    simp only [hperm.mem_iff]
  simp only [replicaGroupSize_eq_ok, ne_eq, hempty, hlengths, hdevices.nodup_iff,
    hdevices.mem_iff]

end Regrouped

/-! ## Pairs -/

section Pairs

variable {seen found : List Int × List Int} {pairs others : List (Int × Int)}
  {operand output : Shape}

theorem addPair_eq_ok {pair : Int × Int} :
    addPair seen pair = .ok found ↔
      addDevice seen.1 pair.1 = .ok found.1 ∧ addDevice seen.2 pair.2 = .ok found.2 := by
  obtain ⟨sources, targets⟩ := seen
  obtain ⟨sources', targets'⟩ := found
  obtain ⟨source, target⟩ := pair
  simp only [addPair, addDevice, bind_eq_ok, require_eq_ok, pure_eq_ok, Except.ok.injEq,
    Prod.mk.injEq, exists_const, Bool.and_eq_true]
  constructor
  · rintro ⟨⟨hsource, htarget⟩, ⟨hnewSource, hnewTarget⟩, rfl, rfl⟩
    exact ⟨⟨hsource, hnewSource, rfl⟩, htarget, hnewTarget, rfl⟩
  · rintro ⟨⟨hsource, hnewSource, rfl⟩, htarget, hnewTarget, rfl⟩
    exact ⟨⟨hsource, htarget⟩, ⟨hnewSource, hnewTarget⟩, rfl, rfl⟩

/-- Sources and targets are collected next to each other. -/
theorem foldlM_addPair :
    pairs.foldlM addPair seen = .ok found ↔
      (pairs.map Prod.fst).foldlM addDevice seen.1 = .ok found.1 ∧
        (pairs.map Prod.snd).foldlM addDevice seen.2 = .ok found.2 := by
  induction pairs generalizing seen with
  | nil => simp [Prod.ext_iff]
  | cons pair pairs ih =>
    simp only [List.map_cons, List.foldlM_cons, bind_eq_ok, addPair_eq_ok]
    constructor
    · rintro ⟨seen', ⟨hsource, htarget⟩, hrest⟩
      obtain ⟨hsources, htargets⟩ := ih.mp hrest
      exact ⟨⟨seen'.1, hsource, hsources⟩, seen'.2, htarget, htargets⟩
    · rintro ⟨⟨sources, hsource, hsources⟩, targets, htarget, htargets⟩
      exact ⟨(sources, targets), ⟨hsource, htarget⟩, ih.mpr ⟨hsources, htargets⟩⟩

/-- Devices are sent one to one: no device is the source of two pairs or the target of two pairs,
and none is negative. -/
structure OneToOne (pairs : List (Int × Int)) : Prop where
  sources : (pairs.map Prod.fst).Nodup
  targets : (pairs.map Prod.snd).Nodup
  devices : ∀ pair ∈ pairs, 0 ≤ pair.1 ∧ 0 ≤ pair.2

theorem oneToOne_iff :
    (∃ found, pairs.foldlM addPair ([], []) = .ok found) ↔ OneToOne pairs := by
  have hwalks : (∃ found, pairs.foldlM addPair ([], []) = .ok found) ↔
      (∃ sources, (pairs.map Prod.fst).foldlM addDevice [] = .ok sources) ∧
        ∃ targets, (pairs.map Prod.snd).foldlM addDevice [] = .ok targets := by
    simp only [foldlM_addPair, Prod.exists, exists_and_left, exists_and_right]
  rw [hwalks, foldlM_addDevice, foldlM_addDevice, List.forall_mem_map, List.forall_mem_map]
  constructor
  · rintro ⟨⟨hsources, hfst⟩, htargets, hsnd⟩
    exact ⟨hsources, htargets, fun pair hpair => ⟨hfst pair hpair, hsnd pair hpair⟩⟩
  · rintro ⟨hsources, htargets, hdevices⟩
    exact ⟨⟨hsources, fun pair hpair => (hdevices pair hpair).1⟩, htargets,
      fun pair hpair => (hdevices pair hpair).2⟩

/-- Pairs are accepted when they send devices one to one, and the operand is passed on. -/
theorem collectivePermute_eq_ok :
    collectivePermute operand pairs = .ok output ↔
      operand.isValid = true ∧ output = operand ∧ pairs ≠ [] ∧ OneToOne pairs := by
  simp only [collectivePermute, bind_eq_ok, elementType_eq_ok, require_eq_ok, pure_eq_ok,
    Except.ok.injEq, Shape.isValid, Option.isSome_iff_exists, ← oneToOne_iff]
  constructor
  · rintro ⟨type, htype, _, hpairs, found, hfound, rfl⟩
    exact ⟨⟨type, htype⟩, rfl, by simpa using hpairs, found, hfound⟩
  · rintro ⟨⟨type, htype⟩, rfl, hpairs, found, hfound⟩
    exact ⟨type, htype, (), by simpa using hpairs, found, hfound, rfl⟩

theorem OneToOne.of_perm (h : pairs.Perm others) (hpairs : OneToOne pairs) : OneToOne others where
  sources := (h.map Prod.fst).nodup_iff.mp hpairs.sources
  targets := (h.map Prod.snd).nodup_iff.mp hpairs.targets
  devices pair hpair := hpairs.devices pair (h.mem_iff.mpr hpair)

theorem OneToOne.swap (hpairs : OneToOne pairs) : OneToOne (pairs.map Prod.swap) where
  sources := by
    rw [List.map_map]
    exact hpairs.targets
  targets := by
    rw [List.map_map]
    exact hpairs.sources
  devices := List.forall_mem_map.mpr fun pair hpair => (hpairs.devices pair hpair).symm

/-- The check of the pairs does not depend on their order. -/
theorem collectivePermute_perm (h : pairs.Perm others) :
    collectivePermute operand others = .ok output ↔ collectivePermute operand pairs = .ok output := by
  have hempty : others = [] ↔ pairs = [] := by
    rw [← List.isEmpty_iff, ← List.isEmpty_iff, h.isEmpty_eq]
  have hone : OneToOne others ↔ OneToOne pairs := ⟨.of_perm h.symm, .of_perm h⟩
  rw [collectivePermute_eq_ok, collectivePermute_eq_ok, ne_eq, hempty, hone]

/-- Devices can be sent back where they came from. -/
theorem collectivePermute_swap :
    collectivePermute operand (pairs.map Prod.swap) = .ok output ↔
      collectivePermute operand pairs = .ok output := by
  have hone : OneToOne (pairs.map Prod.swap) ↔ OneToOne pairs := by
    constructor
    · intro h
      have hback := h.swap
      rwa [List.map_map, Prod.swap_swap_eq, List.map_id] at hback
    · exact OneToOne.swap
  rw [collectivePermute_eq_ok, collectivePermute_eq_ok, ne_eq, List.map_eq_nil_iff, hone]

end Pairs

end Inference

/-! ## Reading rows -/

namespace Attribute

section Rows

variable {rows groups : List (List Int)} {columns size : Nat}

/-- The length of the longest row. -/
def columnCount (rows : List (List Int)) : Nat :=
  (rows.map List.length).foldl max 0

def rowText (columns : Nat) (row : List Int) : String :=
  "[" ++ FieldText.joined (paddedRow columns row) ++ "]"

/-- The rows in brackets. -/
def rowsBody (rows : List (List Int)) : String :=
  if rows.isEmpty ∨ columnCount rows = 0 then ""
  else "[" ++ ", ".intercalate (rows.map (rowText (columnCount rows))) ++ "]"

theorem render_ofRows [NarrowConversions] (rows : List (List Int)) :
    (ofRows rows).render = "dense<" ++ rowsBody rows ++ "> : " ++
      (Shape.of (.signed .w64) [rows.length, columnCount rows]).wireType := rfl

theorem enclosed_rowText (columns : Nat) (row : List Int) : Enclosed (rowText columns row) := by
  refine Enclosed.bracketed fun text htext => ?_
  obtain ⟨x, _, rfl⟩ := List.mem_map.mp htext
  exact IntText.enclosed x

theorem rowText_ne_empty (columns : Nat) (row : List Int) : rowText columns row ≠ "" := by
  simp [rowText]

/-- The body ends at the first angle bracket. -/
theorem notMem_rowsBody (rows : List (List Int)) : '>' ∉ (rowsBody rows).toList := by
  have hbracketed {texts : List String} (h : ∀ text ∈ texts, '>' ∉ text.toList) :
      '>' ∉ ("[" ++ ", ".intercalate texts ++ "]").toList := by
    have := notMem_intercalate (by decide) (by decide) h
    simpa using this
  unfold rowsBody
  split_ifs
  · decide
  · refine hbracketed (List.forall_mem_map.mpr fun row _ => ?_)
    exact hbracketed (List.forall_mem_map.mpr fun x _ =>
      (Numeral.toString_int x).notMem (by decide))

/-- The size and the body of a matrix can be read off its text. -/
theorem rowsBody_of_render [NarrowConversions] (h : (ofRows rows).render = (ofRows groups).render) :
    rows.length = groups.length ∧ columnCount rows = columnCount groups ∧
      rowsBody rows = rowsBody groups := by
  rw [render_ofRows, render_ofRows] at h
  obtain ⟨hbody, hshape⟩ := Shape.dense_inj (notMem_rowsBody rows) (notMem_rowsBody groups) h
  have hdimensions := congrArg Shape.dimensions hshape
  simp only [Shape.of, List.cons.injEq, and_true] at hdimensions
  exact ⟨hdimensions.1, hdimensions.2, hbody⟩

theorem columnCount_eq (hne : groups ≠ []) (h : ∀ group ∈ groups, group.length = size) :
    columnCount groups = size := by
  have hlengths : groups.map List.length = List.replicate groups.length size :=
    List.eq_replicate_iff.mpr ⟨List.length_map _, List.forall_mem_map.mpr h⟩
  have hmax (count : Nat) : (List.replicate count size).foldl max size = size := by
    induction count with
    | zero => rfl
    | succ count ih => rwa [List.replicate_succ, List.foldl_cons, max_self]
  obtain ⟨count, hcount⟩ := Nat.exists_eq_succ_of_ne_zero (List.length_eq_zero_iff.not.mpr hne)
  rw [columnCount, hlengths, hcount, List.replicate_succ, List.foldl_cons, Nat.zero_max, hmax]

/-- A row that is written like a group without padding is that group. -/
theorem eq_of_rowText {row group : List Int} (hlength : group.length = columns)
    (hdevices : ∀ device ∈ group, 0 ≤ device) (h : rowText columns row = rowText columns group) :
    row = group := by
  simp only [rowText, String.append_left_inj, String.append_right_inj] at h
  have hpadded := FieldText.joined_injective h
  have hgroup : paddedRow columns group = group := by
    rw [paddedRow, hlength, Nat.sub_self, List.replicate_zero, List.append_nil]
  rw [hgroup, paddedRow] at hpadded
  -- a number that is filled in would be a device
  have hfull : columns - row.length = 0 := by
    by_contra hne
    have hmem : (-1 : Int) ∈ group :=
      hpadded ▸ List.mem_append_right _ (List.mem_replicate.mpr ⟨hne, rfl⟩)
    exact absurd (hdevices _ hmem) (by decide)
  rwa [hfull, List.replicate_zero, List.append_nil] at hpadded

/-- Rows that are written like accepted groups are these groups. -/
theorem eq_of_ofRows [NarrowConversions] (h : Inference.replicaGroupSize groups = .ok size)
    (htext : (ofRows rows).render = (ofRows groups).render) : rows = groups := by
  obtain ⟨hne, hsize, hlengths, _, hdevices⟩ := Inference.replicaGroupSize_eq_ok.mp h
  obtain ⟨hcount, hcolumns, hbody⟩ := rowsBody_of_render htext
  rw [columnCount_eq hne hlengths] at hcolumns
  have hbodies {rows : List (List Int)} (hrows : rows ≠ []) (hcolumns : columnCount rows = size) :
      rowsBody rows = "[" ++ ", ".intercalate (rows.map (rowText size)) ++ "]" := by
    have hsome : ¬ (rows.isEmpty = true ∨ columnCount rows = 0) := by
      rw [List.isEmpty_iff, hcolumns]
      exact not_or.mpr ⟨hrows, hsize⟩
    rw [rowsBody, if_neg hsome, hcolumns]
  have hrows : rows ≠ [] := by
    rw [← List.length_pos_iff, hcount]
    exact List.length_pos_iff.mpr hne
  rw [hbodies hrows hcolumns, hbodies hne (columnCount_eq hne hlengths), String.append_left_inj,
    String.append_right_inj] at hbody
  have htexts (rows : List (List Int)) :
      ∀ text ∈ rows.map (rowText size), Enclosed text ∧ text ≠ "" :=
    List.forall_mem_map.mpr fun row _ => ⟨enclosed_rowText size row, rowText_ne_empty size row⟩
  refine eq_of_map_eq (fun row _ group hgroup => ?_)
    (intercalate_injective (htexts rows) (htexts groups) hbody)
  exact eq_of_rowText (hlengths group hgroup) fun device hdevice =>
    hdevices device (List.mem_flatten_of_mem hgroup hdevice)

/-- Rows that are not accepted may be written alike. -/
example : ofRows [[0, 1], [2]] = ofRows [[0, 1], [2, -1]] := by
  decide

end Rows

end Attribute

namespace Inference

/-! ## Accepted devices -/

/-- Groups have a size when they are of that size, and no device is negative or occurs twice; their
order does not matter, and they can be read off their text.  A valid operand is sent along pairs
when there are some and they are one to one; that depends neither on their order nor on their
direction. -/
theorem devices_accepted [NarrowConversions] (groups : List (List Int)) (operand : Shape)
    (pairs : List (Int × Int)) (hvalid : operand.isValid = true) :
    (∀ size, replicaGroupSize groups = .ok size ↔
      groups ≠ [] ∧ (∀ group ∈ groups, group.length = size) ∧ 1 ≤ size ∧
        (∀ device ∈ groups.flatten, 0 ≤ device) ∧ groups.flatten.Nodup) ∧
      (∀ others, Regrouped groups others →
        ∀ size, replicaGroupSize others = .ok size ↔ replicaGroupSize groups = .ok size) ∧
      (∀ size rows, replicaGroupSize groups = .ok size →
        (Attribute.ofRows rows).render = (Attribute.ofRows groups).render → rows = groups) ∧
      (∀ output, collectivePermute operand pairs = .ok output ↔
        output = operand ∧ pairs ≠ [] ∧ (∀ pair ∈ pairs, 0 ≤ pair.1 ∧ 0 ≤ pair.2) ∧
          (pairs.map Prod.fst).Nodup ∧ (pairs.map Prod.snd).Nodup) ∧
      (∀ output, collectivePermute operand (pairs.map Prod.swap) = .ok output ↔
        collectivePermute operand pairs = .ok output) ∧
      ∀ others, pairs.Perm others → ∀ output,
        collectivePermute operand others = .ok output ↔
          collectivePermute operand pairs = .ok output := by
  refine ⟨fun size => ?_, fun others h size => replicaGroupSize_regrouped h,
    fun size rows h htext => Attribute.eq_of_ofRows h htext, fun output => ?_,
    fun output => collectivePermute_swap, fun others h output => collectivePermute_perm h⟩
  · rw [replicaGroupSize_eq_ok]
    constructor
    · rintro ⟨hne, hsize, hlengths, hnodup, hdevices⟩
      exact ⟨hne, hlengths, Nat.one_le_iff_ne_zero.mpr hsize, hdevices, hnodup⟩
    · rintro ⟨hne, hlengths, hsize, hdevices, hnodup⟩
      exact ⟨hne, Nat.one_le_iff_ne_zero.mp hsize, hlengths, hnodup, hdevices⟩
  · rw [collectivePermute_eq_ok]
    constructor
    · rintro ⟨_, houtput, hne, hsources, htargets, hdevices⟩
      exact ⟨houtput, hne, hdevices, hsources, htargets⟩
    · rintro ⟨houtput, hne, hdevices, hsources, htargets⟩
      exact ⟨hvalid, houtput, hne, hsources, htargets, hdevices⟩

/-- Two groups in another order, and a ring of three devices in the other direction. -/
theorem devices_accepted_ring :
    let operand := Shape.of (.real .f32) [2]
    operand.isValid = true ∧ replicaGroupSize [[0, 3], [2, 1]] = .ok 2 ∧
      replicaGroupSize [[1, 2], [0, 3]] = .ok 2 ∧
      collectivePermute operand [(1, 0), (2, 1), (0, 2)] = .ok operand := by
  intro operand
  have hvalid : operand.isValid = true := rfl
  obtain ⟨hsize, hregrouped, -, hpairs, hswap, -⟩ :=
    devices_accepted [[0, 3], [2, 1]] operand [(0, 1), (1, 2), (2, 0)] hvalid
  have hgroups : replicaGroupSize [[0, 3], [2, 1]] = .ok 2 := (hsize 2).mpr (by decide)
  have hothers : Regrouped [[0, 3], [2, 1]] [[1, 2], [0, 3]] :=
    ⟨[[2, 1], [0, 3]], .swap .., .cons (.swap ..) (.cons (.refl _) .nil)⟩
  have hring : collectivePermute operand [(0, 1), (1, 2), (2, 0)] = .ok operand :=
    (hpairs operand).mpr ⟨rfl, by decide⟩
  exact ⟨hvalid, hgroups, (hregrouped _ hothers 2).mpr hgroups, (hswap operand).mpr hring⟩

end Inference

end TensorProgram
