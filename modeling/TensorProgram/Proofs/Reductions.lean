import Mathlib.Tactic.Tauto
import TensorProgram.Proofs.Faults

/-!
# Reductions taken apart

What a reduction asks of its inputs, `reducedElementTypes_eq_ok`: an element type each, the
dimensions of the first one, and scalars of the same element types to start from.  A windowed
reduction asks besides that the window has an entry for every axis, `Covers`, and makes one extent
for each of them, `reduceWindow_eq_ok`.
-/

namespace TensorProgram.Inference

/-! ## Inputs -/

section Inputs

variable {input initial s : Shape} {t : ElementType}

theorem scalarElementType_eq_ok :
    scalarElementType s = .ok t ↔ elementType s = .ok t ∧ s.rank = 0 := by
  simp only [scalarElementType, bind_eq_ok, require_eq_ok, beq_iff_eq, pure_eq_ok,
    Except.ok.injEq]
  constructor
  · rintro ⟨_, ht, _, hrank, rfl⟩
    exact ⟨ht, hrank⟩
  · rintro ⟨ht, hrank⟩
    exact ⟨t, ht, (), hrank, rfl⟩

theorem reducedElementType_eq_ok {first : Shape} :
    reducedElementType first (input, initial) = .ok t ↔
      elementType input = .ok t ∧ input.dimensions = first.dimensions ∧
        scalarElementType initial = .ok t := by
  simp only [reducedElementType, bind_eq_ok, require_eq_ok, beq_iff_eq, pure_eq_ok,
    Except.ok.injEq]
  constructor
  · rintro ⟨_, ht, _, hdimensions, _, hinitial, _, rfl, rfl⟩
    exact ⟨ht, hdimensions, hinitial⟩
  · rintro ⟨ht, hdimensions, hinitial⟩
    exact ⟨t, ht, (), hdimensions, t, hinitial, (), rfl, rfl⟩

/-- The inputs of a reduction and their initial values, looked at apart. -/
theorem forall₂_reducedElementType {first : Shape} {inputs initials : List Shape}
    {types : List ElementType} (hlength : inputs.length = initials.length) :
    List.Forall₂ (fun pair t => reducedElementType first pair = .ok t) (inputs.zip initials)
        types ↔
      List.Forall₂ (fun input t => elementType input = .ok t) inputs types ∧
        (∀ input ∈ inputs, input.dimensions = first.dimensions) ∧
        List.Forall₂ (fun initial t => scalarElementType initial = .ok t) initials types := by
  induction inputs generalizing initials types with
  | nil =>
    obtain rfl := List.length_eq_zero_iff.mp hlength.symm
    simp
  | cons input inputs ih =>
    cases initials with
    | nil => cases hlength
    | cons initial initials =>
      cases types with
      | nil => simp
      | cons t types =>
        rw [List.zip_cons_cons, List.forall₂_cons, reducedElementType_eq_ok,
          ih (Nat.succ.inj hlength), List.forall₂_cons, List.forall₂_cons, List.forall_mem_cons]
        tauto

/-- Inputs have an element type each and the dimensions of the first one, and their initial values
are scalars of these element types. -/
theorem reducedElementTypes_eq_ok {first : Shape} {rest initials : List Shape}
    {types : List ElementType} :
    reducedElementTypes (first :: rest) initials = .ok types ↔
      List.Forall₂ (fun input t => elementType input = .ok t) (first :: rest) types ∧
        (∀ input ∈ first :: rest, input.dimensions = first.dimensions) ∧
        List.Forall₂ (fun initial t => scalarElementType initial = .ok t) initials types := by
  simp only [reducedElementTypes, bind_eq_ok, require_eq_ok, beq_iff_eq, mapM_eq_ok]
  constructor
  · rintro ⟨_, hlength, htypes⟩
    exact (forall₂_reducedElementType hlength.symm).mp htypes
  · rintro ⟨htypes, hdimensions, hinitials⟩
    have hlength := htypes.length_eq.trans hinitials.length_eq.symm
    exact ⟨(), hlength.symm,
      (forall₂_reducedElementType hlength).mpr ⟨htypes, hdimensions, hinitials⟩⟩

end Inputs

/-! ## Windows -/

/-- The window has an entry for every axis in every list. -/
structure Covers (w : Window) (rank : Nat) : Prop where
  dimensions : rank = w.dimensions.length
  strides : rank = w.strides.length
  baseDilations : rank = w.baseDilations.length
  windowDilations : rank = w.windowDilations.length
  padding : rank = w.padding.length

section Windows

variable {w : Window} {axis rank extent : Nat} {a : WindowedAxis}

theorem windowOnAxis_eq_ok :
    windowOnAxis w axis extent = .ok a ↔
      a.extent = extent ∧ w.padding[axis]? = some (a.low, a.high) ∧
        w.dimensions[axis]? = some a.window ∧ w.strides[axis]? = some a.stride ∧
        w.baseDilations[axis]? = some a.baseDilation ∧
        w.windowDilations[axis]? = some a.windowDilation := by
  simp only [windowOnAxis, bind_eq_ok, entry_eq_ok, pure_eq_ok, Except.ok.injEq]
  constructor
  · rintro ⟨padding, hpadding, window, hwindow, stride, hstride, base, hbase, dilation, hdilation,
      rfl⟩
    exact ⟨rfl, hpadding, hwindow, hstride, hbase, hdilation⟩
  · rintro ⟨rfl, hpadding, hwindow, hstride, hbase, hdilation⟩
    exact ⟨_, hpadding, _, hwindow, _, hstride, _, hbase, _, hdilation, rfl⟩

theorem exists_windowOnAxis (extent : Nat) (h : Covers w rank) (haxis : axis < rank) :
    ∃ a, windowOnAxis w axis extent = .ok a := by
  have hpadding : axis < w.padding.length := h.padding ▸ haxis
  have hdimensions : axis < w.dimensions.length := h.dimensions ▸ haxis
  have hstrides : axis < w.strides.length := h.strides ▸ haxis
  have hbase : axis < w.baseDilations.length := h.baseDilations ▸ haxis
  have hdilations : axis < w.windowDilations.length := h.windowDilations ▸ haxis
  exact ⟨⟨extent, w.dimensions[axis], w.strides[axis], w.baseDilations[axis],
      w.windowDilations[axis], w.padding[axis].1, w.padding[axis].2⟩,
    windowOnAxis_eq_ok.mpr ⟨rfl, List.getElem?_eq_getElem hpadding,
      List.getElem?_eq_getElem hdimensions, List.getElem?_eq_getElem hstrides,
      List.getElem?_eq_getElem hbase, List.getElem?_eq_getElem hdilations⟩⟩

/-- The extents that the window makes, axis by axis. -/
def WindowExtents (w : Window) (extents dimensions : List Nat) : Prop :=
  List.Forall₂ (fun (entry : Nat × Nat) n => ∃ a, windowOnAxis w entry.2 entry.1 = .ok a ∧
    windowedExtent entry.2 a = .ok n) extents.zipIdx dimensions

theorem reduceWindow_eq_ok {first : Shape} {rest initials outputs : List Shape} {c : Signature} :
    reduceWindow (first :: rest) initials w c = .ok outputs ↔
      ∃ types dimensions, reducedElementTypes (first :: rest) initials = .ok types ∧
        Covers w first.rank ∧ requireCombinator (· == ·) c types = .ok () ∧
        WindowExtents w first.dimensions dimensions ∧ outputs = types.map (.of · dimensions) := by
  simp only [reduceWindow, bind_eq_ok, entry_eq_ok, List.getElem?_cons_zero, Option.some.injEq,
    requireLength_eq_ok, mapM_eq_ok, pure_eq_ok, Except.ok.injEq]
  constructor
  · rintro ⟨types, htypes, _, rfl, _, hwindow, _, hstrides, _, hbase, _, hdilations, _, hpadding, _,
      hc, dimensions, hdimensions, rfl⟩
    exact ⟨types, dimensions, htypes, ⟨hwindow, hstrides, hbase, hdilations, hpadding⟩, hc,
      hdimensions, rfl⟩
  · rintro ⟨types, dimensions, htypes, ⟨hwindow, hstrides, hbase, hdilations, hpadding⟩, hc,
      hdimensions, rfl⟩
    exact ⟨types, htypes, first, rfl, (), hwindow, (), hstrides, (), hbase, (), hdilations, (),
      hpadding, (), hc, dimensions, hdimensions, rfl⟩

end Windows

end TensorProgram.Inference
