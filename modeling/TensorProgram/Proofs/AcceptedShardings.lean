import TensorProgram.Proofs.ShardCounts

/-!
# Shardings that are accepted

Seen from the mesh, a sharding is accepted when each axis is used as a whole by one reference, or
in parts of which one ends where the other starts or before, `Sharding.Exclusive`.  Together with
what is asked of single references this is `Sharding.Acceptable`.

The references are looked at in order, but the order does not matter: what was used before a
reference only counts as a set.  So a sharding stays accepted when its tensor axes, or the
references of all of them, change places, `Sharding.validate_of_rearranged`.
-/

namespace TensorProgram

/-! ## Products within limits -/

/-- What divides the size of an axis is within the limit that the number of devices has. -/
theorem Mesh.WellFormed.lt_deviceLimit_of_dvd {m : Mesh} (hm : m.WellFormed) {axis : MeshAxis}
    (haxis : axis ∈ m.axes) {n : Nat} (hn : n ∣ axis.size) : n < Mesh.deviceLimit := by
  have hmem : axis.size ∈ m.axes.map MeshAxis.size := List.mem_map_of_mem haxis
  refine hm.lt_deviceLimit ?_
  rw [m.deviceCount_eq]
  exact hn.trans (List.dvd_prod hmem)

namespace AxisReference

/-- A part has places, and it divides an axis of the given size. -/
def Divides : AxisReference → Nat → Prop
  | whole _, _ => True
  | part _ preSize size, axisSize => 0 < preSize ∧ 0 < size ∧ preSize * size ∣ axisSize

/-- A reference fits a mesh when it divides the axis of its name. -/
theorem fits_iff {m : Mesh} (hm : m.WellFormed) {r : AxisReference} :
    r.Fits m ↔ ∃ axis ∈ m.axes, axis.name = r.name ∧ r.Divides axis.size := by
  cases r with
  | whole name =>
    simp only [Fits, hm.axisSize?_eq_some]
    constructor
    · intro h
      obtain ⟨n, hn⟩ := h
      exact ⟨⟨name, n⟩, hn, rfl, trivial⟩
    · intro h
      obtain ⟨⟨_, n⟩, hmem, rfl, _⟩ := h
      exact ⟨n, hmem⟩
  | part name preSize size =>
    simp only [Fits, hm.axisSize?_eq_some]
    constructor
    · intro h
      obtain ⟨n, hn, hdivides⟩ := h
      exact ⟨⟨name, n⟩, hn, rfl, hdivides⟩
    · intro h
      obtain ⟨⟨_, n⟩, hmem, rfl, hdivides⟩ := h
      exact ⟨n, hmem, hdivides⟩

end AxisReference

namespace Sharding

variable {m : Mesh} {s : Sharding} {axes axes' : List AxisSharding} {name : String}

/-! ## Axis by axis -/

/-- The axis with the name is used as a whole by one reference, or only in parts that do not
overlap. -/
def Exclusive (s : Sharding) (name : String) : Prop :=
  s.references.filter (·.name == name) = [.whole name] ∨
    .whole name ∉ s.references ∧
      (s.partsOf name).Pairwise fun a b => a.1 * a.2 ≤ b.1 ∨ b.1 * b.2 ≤ a.1

/-- What a sharding has to obey: no tensor axis is spread over nothing, every reference is to an
axis of the mesh and divides it, and the references to each axis go together. -/
structure Acceptable (s : Sharding) : Prop where
  spread : .sharded [] ∉ s.axes
  divides : ∀ r ∈ s.references, ∃ axis ∈ s.mesh.axes, axis.name = r.name ∧ r.Divides axis.size
  exclusive : ∀ axis ∈ s.mesh.axes, s.Exclusive axis.name

theorem exclusive_of_validate (hs : s.validate = .ok ()) (name : String) : s.Exclusive name := by
  rcases filter_name_eq (references_pairwise hs) name with hwhole | hparts
  · exact .inl hwhole
  · refine .inr ⟨?_, partsOf_apart hs⟩
    intro hmem
    have hfilter : .whole name ∈ s.references.filter (·.name == name) :=
      List.mem_filter.mpr ⟨hmem, beq_self_eq_true name⟩
    rw [hparts] at hfilter
    simp at hfilter

/-- Two references to an axis that is used exclusively do not overlap. -/
theorem Exclusive.apart (h : s.Exclusive name) {r r' : AxisReference}
    (hpair : [r, r'].Sublist s.references) (hr : r.name = name) (hr' : r'.name = name) :
    r.Apart r' := by
  rcases h with hwhole | ⟨hnone, hparts⟩
  · -- both would be the one reference to the whole axis
    have hfilter : [r, r'].Sublist [.whole name] := by
      have := hpair.filter (·.name == name)
      rwa [hwhole, List.filter_cons_of_pos (by simpa using hr),
        List.filter_cons_of_pos (by simpa using hr'), List.filter_nil] at this
    have := hfilter.length_le
    simp at this
  · have hmem : ∀ other ∈ [r, r'], other ≠ .whole name := by
      intro other hother heq
      exact hnone (heq ▸ hpair.subset hother)
    cases r with
    | whole name' =>
      obtain rfl : name' = name := hr
      exact absurd rfl (hmem _ (by simp))
    | part name' preSize size =>
      cases r' with
      | whole name'' =>
        obtain rfl : name'' = name := hr'
        exact absurd rfl (hmem _ (by simp))
      | part name'' preSize' size' =>
        obtain rfl : name' = name := hr
        obtain rfl : name'' = name' := hr'
        have hsublist : [(preSize, size), (preSize', size')].Sublist (s.partsOf name'') := by
          simpa [partsOf, AxisReference.partOf?] using
            hpair.filterMap (AxisReference.partOf? name'')
        exact List.pairwise_iff_forall_sublist.mp hparts hsublist

theorem validate_eq_ok_iff_acceptable (hm : s.mesh.WellFormed) :
    s.validate = .ok () ↔ s.Acceptable := by
  constructor
  · intro hs
    obtain ⟨hspread, hfits, _⟩ := validate_eq_ok.mp hs
    constructor
    · exact hspread
    · intro r hr
      exact (AxisReference.fits_iff hm).mp (hfits r hr)
    · intro axis _
      exact exclusive_of_validate hs axis.name
  · intro hs
    refine validate_eq_ok.mpr ⟨hs.spread, ?_, ?_⟩
    · intro r hr
      exact (AxisReference.fits_iff hm).mpr (hs.divides r hr)
    · rw [List.pairwise_iff_forall_sublist]
      intro r r' hpair hname
      obtain ⟨axis, haxis, haxisName, _⟩ := hs.divides r (hpair.subset List.mem_cons_self)
      exact (hs.exclusive axis haxis).apart hpair haxisName.symm
        (hname.symm.trans haxisName.symm)

/-! ## Other orders -/

/-- The same references in other places, where again some tensor axis is spread over nothing or
none is. -/
structure Rearranged (axes axes' : List AxisSharding) : Prop where
  references : (axes.flatMap AxisSharding.references).Perm (axes'.flatMap AxisSharding.references)
  empty : .sharded [] ∈ axes ↔ .sharded [] ∈ axes'

theorem Rearranged.of_perm (h : axes.Perm axes') : Rearranged axes axes' where
  references := h.flatMap_right AxisSharding.references
  empty := h.mem_iff

theorem validate_of_rearranged (h : Rearranged axes axes') :
    (Sharding.mk m axes).validate = .ok () ↔ (Sharding.mk m axes').validate = .ok () := by
  rw [validate_eq_ok, validate_eq_ok]
  apply and_congr
  · exact not_congr h.empty
  · apply and_congr
    · exact forall_congr' fun r => imp_congr_left h.references.mem_iff
    · exact h.references.pairwise_iff AxisReference.Compatible.symm

/-- A sharding over a mesh is accepted exactly when it is acceptable.  A part whose product is
beyond the limit of the number of devices is never accepted, and neither the order of the tensor
axes nor the places of the references matter. -/
theorem validate_iff_acceptable (hm : m.Built) (axes : List AxisSharding) :
    ((Sharding.mk m axes).validate = .ok () ↔ (Sharding.mk m axes).Acceptable) ∧
    (∀ name preSize size, .part name preSize size ∈ (Sharding.mk m axes).references →
      Mesh.deviceLimit ≤ preSize * size → (Sharding.mk m axes).validate ≠ .ok ()) ∧
    (∀ axes', axes.Perm axes' →
      ((Sharding.mk m axes).validate = .ok () ↔ (Sharding.mk m axes').validate = .ok ())) ∧
    ∀ axes', Rearranged axes axes' →
      ((Sharding.mk m axes).validate = .ok () ↔ (Sharding.mk m axes').validate = .ok ()) := by
  have hwf : (Sharding.mk m axes).mesh.WellFormed := hm.wellFormed
  refine ⟨validate_eq_ok_iff_acceptable hwf, ?_, ?_, ?_⟩
  · intro name preSize size hpart hlimit hs
    have hacceptable := (validate_eq_ok_iff_acceptable hwf).mp hs
    obtain ⟨axis, haxis, _, _, _, hdvd⟩ := hacceptable.divides _ hpart
    have := hwf.lt_deviceLimit_of_dvd haxis hdvd
    omega
  · intro axes' hperm
    exact validate_of_rearranged (.of_perm hperm)
  · intro axes' hrearranged
    exact validate_of_rearranged hrearranged

/-- Two parts of an axis and the whole of another one are acceptable.  They can change places, also
between tensor axes. -/
theorem validate_iff_acceptable_moved :
    let m : Mesh := ⟨"mesh", [⟨"x", 8⟩, ⟨"y", 6⟩], none⟩
    let axes : List AxisSharding :=
      [.sharded [.part "x" 4 2, .whole "y"], .replicated, .sharded [.part "x" 1 2]]
    let axes' : List AxisSharding :=
      [.sharded [.part "x" 1 2], .sharded [.whole "y", .part "x" 4 2]]
    m.Built ∧ (Sharding.mk m axes).Acceptable ∧ Rearranged axes axes' ∧
      (Sharding.mk m axes').validate = .ok () := by
  intro m axes axes'
  have hofAxes : Mesh.ofAxes "mesh" ["x", "y"] [8, 6] = .ok m := by decide
  have hbuilt : m.Built := .ofAxes hofAxes
  have hvalid : (Sharding.mk m axes).validate = .ok () := by decide
  have hrearranged : Rearranged axes axes' := ⟨by decide, by decide⟩
  obtain ⟨haccepted, _, _, hmoved⟩ := validate_iff_acceptable hbuilt axes
  exact ⟨hbuilt, haccepted.mp hvalid, hrearranged, (hmoved axes' hrearranged).mp hvalid⟩

end Sharding

end TensorProgram
