import TensorProgram.Inference.Layout
import TensorProgram.Proofs.Faults

/-!
# Rules that go axis by axis

A slice and a pad have three parameters for each axis, in three lists.  `axesOf` puts what belongs
to an axis into one record.  A rule for one axis that accepts some records, and makes an extent of
each of them, is accepted for a shape when it accepts all records, and makes the list of their
extents: `mapM_axes_eq_ok`.

Two lists of records that are accepted alike, and made the same of, one by one, are accepted alike
and made the same of: `axes_agree`.
-/

namespace TensorProgram.Inference

section Records

variable {α : Type} {make : Nat → Int → Int → Int → α} {extents : List Nat} {xs ys zs : List Int}

/-- The extent of each axis and its entries in the three lists, in one record. -/
def axesOf (make : Nat → Int → Int → Int → α) (extents : List Nat) (xs ys zs : List Int) : List α :=
  (extents.zip (xs.zip (ys.zip zs))).map fun (n, x, y, z) => make n x y z

/-- The lists have an entry for every axis. -/
structure CoverAxes (extents : List Nat) (xs ys zs : List Int) : Prop where
  first : xs.length = extents.length
  second : ys.length = extents.length
  third : zs.length = extents.length

@[simp] theorem CoverAxes.length_axesOf (h : CoverAxes extents xs ys zs) :
    (axesOf make extents xs ys zs).length = extents.length := by
  simp [axesOf, h.first, h.second, h.third]

theorem exists_of_mem_axesOf {a : α} (h : a ∈ axesOf make extents xs ys zs) :
    ∃ n ∈ extents, ∃ x ∈ xs, ∃ y ∈ ys, ∃ z ∈ zs, make n x y z = a := by
  obtain ⟨⟨n, x, y, z⟩, hentry, rfl⟩ := List.mem_map.mp h
  obtain ⟨hn, hrest⟩ := List.of_mem_zip hentry
  obtain ⟨hx, hrest⟩ := List.of_mem_zip hrest
  obtain ⟨hy, hz⟩ := List.of_mem_zip hrest
  exact ⟨n, hn, x, hx, y, hy, z, hz, rfl⟩

/-- The entries of the lists are read one by one. -/
theorem mapM_entries {rule : Nat → α → Check Nat} (h : CoverAxes extents xs ys zs) :
    (extents.zipIdx.mapM fun (extent, axis) => do
      rule axis (make extent (← entry xs axis) (← entry ys axis) (← entry zs axis))) =
    (axesOf make extents xs ys zs).zipIdx.mapM fun (a, axis) => rule axis a := by
  have hentry {ws : List Int} {axis : Nat} (hlt : axis < ws.length) :
      entry ws axis = .ok ws[axis] := entry_eq_ok.mpr (List.getElem?_eq_getElem hlt)
  have hchecks : (extents.zipIdx.map fun (extent, axis) => do
        rule axis (make extent (← entry xs axis) (← entry ys axis) (← entry zs axis))) =
      (axesOf make extents xs ys zs).zipIdx.map fun (a, axis) => rule axis a := by
    refine List.ext_getElem (by simp [h]) fun axis haxis haxis' => ?_
    have hlt : axis < extents.length := by simpa using haxis
    simp [hentry (h.first ▸ hlt), hentry (h.second ▸ hlt), hentry (h.third ▸ hlt), axesOf]
  exact (List.mapM_map (g := id)).symm.trans (hchecks ▸ List.mapM_map)

/-- A rule that accepts some records and makes an extent of each accepts the records of a shape when
it accepts all of them. -/
theorem mapM_axes_eq_ok {P : α → Prop} {f : α → Nat} {out : List Nat}
    (make : Nat → Int → Int → Int → α) (rule : Nat → α → Check Nat)
    (h : CoverAxes extents xs ys zs)
    (hrule : ∀ a ∈ axesOf make extents xs ys zs, ∀ axis n, rule axis a = .ok n ↔ P a ∧ f a = n) :
    (extents.zipIdx.mapM fun (extent, axis) => do
      rule axis (make extent (← entry xs axis) (← entry ys axis) (← entry zs axis))) = .ok out ↔
    (∀ a ∈ axesOf make extents xs ys zs, P a) ∧ (axesOf make extents xs ys zs).map f = out := by
  rw [mapM_entries h]
  generalize axesOf make extents xs ys zs = as at hrule
  generalize 0 = start
  induction as generalizing start out with
  | nil => simp [eq_comm]
  | cons a as ih =>
    rw [List.forall_mem_cons] at hrule
    simp only [List.zipIdx_cons, List.mapM_cons, bind_eq_ok, hrule.1, ih hrule.2, pure_eq_ok,
      Except.ok.injEq, List.forall_mem_cons, List.map_cons]
    constructor
    · rintro ⟨_, ⟨ha, rfl⟩, _, ⟨has, rfl⟩, rfl⟩
      exact ⟨⟨ha, has⟩, rfl⟩
    · rintro ⟨⟨ha, has⟩, rfl⟩
      exact ⟨_, ⟨ha, rfl⟩, _, ⟨has, rfl⟩, rfl⟩

theorem failsOnlyWith_mapM_axes {allowed : ShapeError.Cause → Prop}
    (make : Nat → Int → Int → Int → α) (rule : Nat → α → Check Nat)
    (h : CoverAxes extents xs ys zs)
    (hrule : ∀ a ∈ axesOf make extents xs ys zs, ∀ axis, FailsOnlyWith allowed (rule axis a)) :
    FailsOnlyWith allowed (extents.zipIdx.mapM fun (extent, axis) => do
      rule axis (make extent (← entry xs axis) (← entry ys axis) (← entry zs axis))) := by
  rw [mapM_entries h]
  exact .mapM fun ⟨a, axis⟩ hentry => hrule a (List.fst_mem_of_mem_zipIdx hentry) axis

end Records

/-- Records that are accepted alike, and made the same of, axis by axis. -/
theorem axes_agree {α β : Type} {P : α → Prop} {Q : β → Prop} {f : α → Nat} {g : β → Nat}
    (as : List α) (bs : List β) (hlength : as.length = bs.length)
    (h : ∀ axis (ha : axis < as.length) (hb : axis < bs.length),
      (P as[axis] ↔ Q bs[axis]) ∧ f as[axis] = g bs[axis]) :
    ((∀ a ∈ as, P a) ↔ ∀ b ∈ bs, Q b) ∧ as.map f = bs.map g := by
  constructor
  · simp only [List.forall_mem_iff_forall_getElem]
    constructor
    · intro has axis hb
      exact (h axis (hlength ▸ hb) hb).1.mp (has axis (hlength ▸ hb))
    · intro hbs axis ha
      exact (h axis ha (hlength ▸ ha)).1.mpr (hbs axis (hlength ▸ ha))
  · refine List.ext_getElem (by simpa using hlength) fun axis ha hb => ?_
    rw [List.getElem_map, List.getElem_map]
    exact (h axis (by simpa using ha) (by simpa using hb)).2

end TensorProgram.Inference
