import TensorProgram.Proofs.Checks
import TensorProgram.Sharding

/-!
# Mesh axes that a sharding uses

`Sharding.validate` remembers what was used so far.  What it remembers is determined by the
references it has seen, `Sharding.usageOf`, and one more reference is accepted when it fits the
mesh and goes together with each of them: `addReference_eq_ok`.  A sharding is then accepted when
every reference fits and every two of them go together, `Sharding.validate_eq_ok`.
-/

namespace TensorProgram

namespace AxisReference

/-- The reference is to an axis of the mesh, and a part of it divides it. -/
def Fits (m : Mesh) : AxisReference → Prop
  | whole name => ∃ n, m.axisSize? name = some n
  | part name preSize size =>
    ∃ n, m.axisSize? name = some n ∧ 0 < preSize ∧ 0 < size ∧ preSize * size ∣ n

/-- Both references are to parts, and one part ends where the other starts or before. -/
def Apart : AxisReference → AxisReference → Prop
  | part _ preSize size, part _ preSize' size' =>
    preSize * size ≤ preSize' ∨ preSize' * size' ≤ preSize
  | _, _ => False

/-- The references are to different axes, or to parts of one axis that do not overlap. -/
def Compatible (r r' : AxisReference) : Prop :=
  r.name = r'.name → r.Apart r'

theorem Compatible.symm {r r' : AxisReference} (h : r.Compatible r') : r'.Compatible r := by
  intro hname
  have hapart := h hname.symm
  cases r <;> cases r'
  case part.part => exact hapart.symm
  all_goals cases hapart

end AxisReference

namespace Sharding

variable {m : Mesh} {u u' : Usage} {seen : List AxisReference} {r : AxisReference}
  {name : String} {preSize size : Nat}

/-- All references of a sharding, tensor axis after tensor axis. -/
def references (s : Sharding) : List AxisReference :=
  s.axes.flatMap AxisSharding.references

namespace Usage

/-- One more reference is remembered. -/
def record (u : Usage) : AxisReference → Usage
  | .whole name => { u with whole := name :: u.whole }
  | .part name preSize size => { u with parts := (name, preSize, preSize * size) :: u.parts }

end Usage

/-- What is remembered of the references, the last one first. -/
def usageOf : List AxisReference → Usage
  | [] => ⟨[], []⟩
  | r :: seen => (usageOf seen).record r

theorem mem_whole_usageOf : name ∈ (usageOf seen).whole ↔ .whole name ∈ seen := by
  induction seen with
  | nil => simp [usageOf]
  | cons r seen ih =>
    cases r with
    | whole name' => simp [usageOf, Usage.record, ih]
    | part name' preSize size => simp [usageOf, Usage.record, ih]

theorem mem_parts_usageOf {stop : Nat} :
    (name, preSize, stop) ∈ (usageOf seen).parts ↔
      ∃ size, .part name preSize size ∈ seen ∧ stop = preSize * size := by
  induction seen with
  | nil => simp [usageOf]
  | cons r seen ih =>
    cases r with
    | whole name' => simp [usageOf, Usage.record, ih]
    | part name' preSize' size' =>
      simp only [usageOf, Usage.record, List.mem_cons, ih, Prod.mk.injEq, AxisReference.part.injEq]
      constructor
      · rintro (⟨rfl, rfl, rfl⟩ | ⟨size, hsize, rfl⟩)
        · exact ⟨size', .inl ⟨rfl, rfl, rfl⟩, rfl⟩
        · exact ⟨size, .inr hsize, rfl⟩
      · rintro ⟨size, ⟨rfl, rfl, rfl⟩ | hsize, rfl⟩
        · exact .inl ⟨rfl, rfl, rfl⟩
        · exact .inr ⟨size, hsize, rfl⟩

/-! ## One more reference -/

/-- The whole axis is in use already when it does not go together with what is remembered. -/
theorem used_whole_iff :
    ((usageOf seen).parts.any (·.1 == name) || (usageOf seen).whole.contains name) = true ↔
      ¬ ∀ other ∈ seen, (AxisReference.whole name).Compatible other := by
  rw [Bool.or_eq_true, List.any_eq_true, List.contains_iff_mem, mem_whole_usageOf]
  constructor
  · rintro (⟨⟨name', preSize, stop⟩, hmem, hname⟩ | hwhole) h
    · obtain ⟨size, hpart, _⟩ := mem_parts_usageOf.mp hmem
      exact h _ hpart (beq_iff_eq.mp hname).symm
    · exact h _ hwhole rfl
  · contrapose
    rintro h other hother hname
    rw [not_or] at h
    cases other with
    | whole name' =>
      obtain rfl : name = name' := hname
      exact h.2 hother
    | part name' preSize size =>
      obtain rfl : name = name' := hname
      exact h.1 ⟨_, mem_parts_usageOf.mpr ⟨size, hother, rfl⟩, beq_self_eq_true name⟩

/-- A part is in use already when it does not go together with what is remembered. -/
theorem used_part_iff :
    ((usageOf seen).whole.contains name ||
      ((usageOf seen).parts.filter (·.1 == name)).any
        fun other => !Usage.apart (preSize, preSize * size) other.2) = true ↔
      ¬ ∀ other ∈ seen, (AxisReference.part name preSize size).Compatible other := by
  rw [Bool.or_eq_true, List.any_eq_true, List.contains_iff_mem, mem_whole_usageOf]
  simp only [List.mem_filter, Usage.apart, Bool.not_eq_true', Bool.or_eq_false_iff,
    decide_eq_false_iff_not, beq_iff_eq]
  constructor
  · rintro (hwhole | ⟨⟨name', preSize', stop⟩, ⟨hmem, hname⟩, hoverlap⟩) h
    · exact h _ hwhole rfl
    · obtain ⟨size', hpart, rfl⟩ := mem_parts_usageOf.mp hmem
      exact not_or.mpr hoverlap (h _ hpart hname.symm)
  · contrapose
    rintro h other hother hname
    rw [not_or] at h
    cases other with
    | whole name' =>
      obtain rfl : name = name' := hname
      exact absurd hother h.1
    | part name' preSize' size' =>
      obtain rfl : name = name' := hname
      by_contra hoverlap
      exact h.2 ⟨_, ⟨mem_parts_usageOf.mpr ⟨size', hother, rfl⟩, rfl⟩, not_or.mp hoverlap⟩

theorem addWhole_eq_ok :
    (usageOf seen).addWhole name = .ok u ↔
      (∀ other ∈ seen, (AxisReference.whole name).Compatible other) ∧
        u = usageOf (.whole name :: seen) := by
  unfold Usage.addWhole
  split_ifs with h
  · rw [used_whole_iff] at h
    exact iff_of_false nofun fun hok => h hok.1
  · rw [used_whole_iff, not_not] at h
    rw [Except.ok.injEq, eq_comm, and_iff_right h]
    rfl

theorem addPart_eq_ok {n : Nat} :
    (usageOf seen).addPart name n preSize size = .ok u ↔
      (0 < preSize ∧ 0 < size ∧ preSize * size ∣ n) ∧
        (∀ other ∈ seen, (AxisReference.part name preSize size).Compatible other) ∧
        u = usageOf (.part name preSize size :: seen) := by
  unfold Usage.addPart
  simp only
  split_ifs with hdivides h
  · refine iff_of_false nofun fun ⟨⟨hpre, hsize, hdvd⟩, _⟩ => ?_
    have := Nat.mod_eq_zero_of_dvd hdvd
    omega
  · rw [used_part_iff] at h
    exact iff_of_false nofun fun hok => h hok.2.1
  · rw [used_part_iff, not_not] at h
    have hfits : 0 < preSize ∧ 0 < size ∧ preSize * size ∣ n :=
      ⟨by omega, by omega, Nat.dvd_of_mod_eq_zero (by omega)⟩
    rw [Except.ok.injEq, eq_comm, and_iff_right hfits, and_iff_right h]
    rfl

theorem addReference_eq_ok :
    (usageOf seen).addReference m r = .ok u ↔
      r.Fits m ∧ (∀ other ∈ seen, r.Compatible other) ∧ u = usageOf (r :: seen) := by
  unfold Usage.addReference
  cases hsize : m.axisSize? r.name with
  | none =>
    refine iff_of_false nofun fun ⟨hfits, _⟩ => ?_
    cases r with
    | whole name =>
      obtain ⟨n, hn⟩ := hfits
      exact nomatch hsize.symm.trans hn
    | part name preSize size =>
      obtain ⟨n, hn, _⟩ := hfits
      exact nomatch hsize.symm.trans hn
  | some n =>
    cases r with
    | whole name =>
      have hfits : (AxisReference.whole name).Fits m := ⟨n, hsize⟩
      rw [and_iff_right hfits]
      exact addWhole_eq_ok
    | part name preSize size =>
      have hfits : (AxisReference.part name preSize size).Fits m ↔
          0 < preSize ∧ 0 < size ∧ preSize * size ∣ n := by
        constructor
        · rintro ⟨n', hn', h⟩
          obtain rfl : n = n' := Option.some.inj (hsize.symm.trans hn')
          exact h
        · intro h
          exact ⟨n, hsize, h⟩
      rw [hfits]
      exact addPart_eq_ok

/-! ## All references -/

/-- References are accepted one after the other when each fits the mesh, and goes together with
every other and with everything seen before. -/
theorem foldlM_addReference {rs : List AxisReference} :
    rs.foldlM (Usage.addReference m) (usageOf seen) = .ok u ↔
      (∀ r ∈ rs, r.Fits m) ∧ (∀ r ∈ rs, ∀ other ∈ seen, r.Compatible other) ∧
        rs.Pairwise AxisReference.Compatible ∧ u = usageOf (rs.reverse ++ seen) := by
  induction rs generalizing seen with
  | nil => simp [eq_comm]
  | cons r rs ih =>
    simp only [List.foldlM_cons, bind_eq_ok, addReference_eq_ok, List.forall_mem_cons,
      List.pairwise_cons, List.reverse_cons, List.append_assoc, List.singleton_append]
    constructor
    · rintro ⟨_, ⟨hfits, hseen, rfl⟩, hrest⟩
      obtain ⟨hfitsRest, hseenRest, hpairs, rfl⟩ := ih.mp hrest
      exact ⟨⟨hfits, hfitsRest⟩,
        ⟨hseen, fun r' hr' => fun other hother => hseenRest r' hr' other (.tail _ hother)⟩,
        ⟨fun r' hr' => (hseenRest r' hr' r (.head _)).symm, hpairs⟩, rfl⟩
    · rintro ⟨⟨hfits, hfitsRest⟩, ⟨hseen, hseenRest⟩, ⟨hfirst, hpairs⟩, rfl⟩
      refine ⟨_, ⟨hfits, hseen, rfl⟩, ih.mpr ⟨hfitsRest, fun r' hr' => ?_, hpairs, rfl⟩⟩
      rw [List.forall_mem_cons]
      exact ⟨(hfirst r' hr').symm, hseenRest r' hr'⟩

theorem addAxis_eq_ok {axis : AxisSharding} {dimension : Nat} :
    Usage.addAxis m u (axis, dimension) = .ok u' ↔
      .sharded [] ≠ axis ∧ axis.references.foldlM (Usage.addReference m) u = .ok u' := by
  cases axis with
  | replicated => simp [Usage.addAxis, AxisSharding.references]
  | undecided => simp [Usage.addAxis, AxisSharding.references]
  | sharded references =>
    cases references with
    | nil => simp [Usage.addAxis]
    | cons r rs => simp [Usage.addAxis, AxisSharding.references]

/-- The tensor axes are looked at one after the other, and none may be spread over nothing. -/
theorem foldlM_addAxis {axes : List AxisSharding} {start : Nat} :
    (axes.zipIdx start).foldlM (Usage.addAxis m) u = .ok u' ↔
      .sharded [] ∉ axes ∧
        (axes.flatMap AxisSharding.references).foldlM (Usage.addReference m) u = .ok u' := by
  induction axes generalizing u start with
  | nil => simp
  | cons axis axes ih =>
    simp only [List.zipIdx_cons, List.foldlM_cons, List.flatMap_cons, List.foldlM_append,
      bind_eq_ok, addAxis_eq_ok, ih, List.mem_cons, not_or]
    constructor
    · rintro ⟨u'', ⟨hne, hreferences⟩, haxes, hrest⟩
      exact ⟨⟨hne, haxes⟩, u'', hreferences, hrest⟩
    · rintro ⟨⟨hne, haxes⟩, u'', hreferences, hrest⟩
      exact ⟨u'', ⟨hne, hreferences⟩, haxes, hrest⟩

/-- A sharding is accepted when it spreads no tensor axis over nothing, every reference fits the
mesh, and every two references go together. -/
theorem validate_eq_ok {s : Sharding} :
    s.validate = .ok () ↔
      .sharded [] ∉ s.axes ∧ (∀ r ∈ s.references, r.Fits s.mesh) ∧
        s.references.Pairwise AxisReference.Compatible := by
  have hfold (u : Usage) : s.axes.zipIdx.foldlM (Usage.addAxis s.mesh) (usageOf []) = .ok u ↔ _ :=
    foldlM_addAxis.trans (and_congr_right' foldlM_addReference)
  simp only [validate, bind_eq_ok, pure_eq_ok, and_true]
  simp [← usageOf.eq_1, hfold, references]

end Sharding

end TensorProgram
