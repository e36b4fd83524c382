import TensorProgram.Proofs.Extents
import TensorProgram.Proofs.Reductions

/-!
# The stages of a windowed reduction

A windowed reduction pads its inputs, moves the window by one over what it gets, and keeps the
places that lie a stride apart.  Each of the stages is an operation of its own, with a formula of
its own for the extent that it makes.  On one axis the formulas agree, `windowedExtent_iff_stages`,
and `reduceWindow_iff_stages` says that a windowed reduction succeeds exactly when its stages do,
with the same results.
-/

namespace TensorProgram

/-- The window of the same extents that moves by one over an input without gaps and padding. -/
def Window.sliding (w : Window) : Window :=
  { Window.unit w.dimensions with windowDilations := w.windowDilations }

namespace Inference

open Offset (InLimits)

/-! ## One axis -/

namespace WindowedAxis

/-- The parameters and the extents on the way are within the limits of offsets.  The other numbers
on the way need not be: where a sum goes beyond the limits, the reduction and its stages are both
rejected. -/
structure Fits (a : WindowedAxis) : Prop where
  low : InLimits a.low
  high : InLimits a.high
  stride : (a.stride : Int) < Offset.limit
  input : (dilatedExtent a.extent a.baseDilation : Int) < Offset.limit
  span : (a.span : Int) < Offset.limit
  raised : dilatedExtent a.extent a.baseDilation + a.low < Offset.limit
  /-- The number of places of the window, rounded up to a multiple of the stride. -/
  rounded : a.padded - a.span + 1 + a.stride < Offset.limit

/-- The same window, moved by one over `extent` elements. -/
def sliding (a : WindowedAxis) (extent : Nat) : WindowedAxis where
  extent := extent
  window := a.window
  stride := 1
  baseDilation := 1
  windowDilation := a.windowDilation
  low := 0
  high := 0

end WindowedAxis

section Axis

variable {a : WindowedAxis} {axis n p u : Nat}

theorem windowedExtent_eq_ok_of_fits (h : a.Fits) :
    windowedExtent axis a = .ok n ↔
      a.Positive ∧ a.padded < Offset.limit ∧ a.span ≤ a.padded ∧
        ((a.padded - a.span) / a.stride + 1).toNat = n := by
  rw [windowedExtent_eq_ok h.input h.span h.stride]
  have hlow := h.low.1
  have hraised := h.raised
  constructor
  · rintro ⟨hpositive, _, hpadded, hle, hn⟩
    exact ⟨hpositive, hpadded.2, hle, hn⟩
  · rintro ⟨hpositive, hpadded, hle, hn⟩
    refine ⟨hpositive, ⟨by omega, hraised⟩, ⟨?_, hpadded⟩, hle, hn⟩
    exact Int.le_trans (Int.le_trans (by decide) (Int.natCast_nonneg a.span)) hle

/-- The base dilation fills the gaps between the elements. -/
theorem paddedExtent_eq_ok_of_fits (h : a.Fits) :
    paddedExtent axis a.extent a.low a.high (a.baseDilation - 1) = .ok p ↔
      0 < a.baseDilation ∧ a.padded < Offset.limit ∧ (p : Int) = a.padded := by
  have hinput := h.input
  by_cases hbase : 0 < a.baseDilation
  · have hsum := dilatedExtent_eq_add a.extent a.baseDilation
    have hgaps : 0 ≤ max ((a.extent : Int) - 1) 0 * (a.baseDilation - 1) :=
      Int.mul_nonneg (by omega) (by omega)
    have htotal : a.low + a.high + a.extent +
        max ((a.extent : Int) - 1) 0 * (a.baseDilation - 1) = a.padded := by
      rw [WindowedAxis.padded, hsum]
      ring
    rw [paddedExtent_eq_ok (by omega), htotal]
    constructor
    · rintro ⟨_, _, _, _, hnonneg, hlimit, rfl⟩
      exact ⟨hbase, hlimit, Int.toNat_of_nonneg hnonneg⟩
    · rintro ⟨_, hlimit, hp⟩
      refine ⟨by omega, ?_, ?_, ?_, by omega, hlimit, by omega⟩
      · simp only [InLimits, Offset.limit] at *
        omega
      · simp only [InLimits, Offset.limit] at *
        omega
      · simp only [InLimits, Offset.limit] at *
        omega
  · simp only [paddedExtent, bind_eq_ok, require_eq_ok, decide_eq_true_eq]
    constructor
    · rintro ⟨_, hinterior, _⟩
      omega
    · rintro ⟨hbase', _⟩
      exact absurd hbase' hbase

/-- A window that moves by one stops once for each element that it does not reach. -/
theorem windowedExtent_sliding_eq_ok (hspan : (a.span : Int) < Offset.limit)
    (hp : (p : Int) < Offset.limit) :
    windowedExtent axis (a.sliding p) = .ok u ↔
      0 < a.window ∧ 0 < a.windowDilation ∧ a.span ≤ p ∧ p - a.span + 1 = u := by
  have hpadded : (a.sliding p).padded = p := by
    simp [WindowedAxis.padded, WindowedAxis.sliding]
  have hspan' : (a.sliding p).span = a.span := rfl
  have hinput : (dilatedExtent (a.sliding p).extent (a.sliding p).baseDilation : Int) <
      Offset.limit := by simpa [WindowedAxis.sliding] using hp
  have hstride : ((a.sliding p).stride : Int) < Offset.limit := by
    show (1 : Int) < Offset.limit
    decide
  rw [windowedExtent_eq_ok hinput hspan hstride, hpadded, hspan']
  simp only [WindowedAxis.Positive, WindowedAxis.sliding, dilatedExtent_one, InLimits,
    Offset.limit] at *
  omega

/-- A windowed reduction of one axis in its stages: a pad, a window that moves by one, and a slice
with the stride. -/
theorem windowedExtent_iff_stages (h : a.Fits) :
    windowedExtent axis a = .ok n ↔
      ∃ p, paddedExtent axis a.extent a.low a.high (a.baseDilation - 1) = .ok p ∧
        ∃ u, windowedExtent axis (a.sliding p) = .ok u ∧
          slicedExtent axis u 0 u a.stride = .ok n := by
  have hspan := h.span
  have hrounded := h.rounded
  rw [windowedExtent_eq_ok_of_fits h]
  simp only [paddedExtent_eq_ok_of_fits h]
  have hpositive {i : Nat} (hstride : 0 < a.stride) :
      ((i : Int) + 1 - 0 + a.stride - 1) / a.stride = i / a.stride + 1 := by
    rw [show (i : Int) + 1 - 0 + a.stride - 1 = i + a.stride by ring,
      Int.add_ediv_of_dvd_right (Int.dvd_refl _), Int.ediv_self (by omega)]
  constructor
  · rintro ⟨⟨hwindow, hstride, hbase, hdilation⟩, hlimit, hle, rfl⟩
    have hp : ((a.padded.toNat : Nat) : Int) = a.padded := Int.toNat_of_nonneg (by omega)
    refine ⟨a.padded.toNat, ⟨hbase, hlimit, hp⟩, a.padded.toNat - a.span + 1,
      (windowedExtent_sliding_eq_ok hspan (by omega)).mpr
        ⟨hwindow, hdilation, by omega, rfl⟩, ?_⟩
    have hplaces : ((a.padded.toNat - a.span : Nat) : Int) = a.padded - a.span := by omega
    rw [slicedExtent_eq_ok (by omega)]
    refine ⟨by omega, le_refl 0, by omega, le_refl _, by omega, ?_⟩
    rw [Nat.cast_add, Nat.cast_one, hpositive hstride, hplaces]
  · rintro ⟨p, ⟨hbase, hlimit, hp⟩, u, hu, hn⟩
    obtain ⟨hwindow, hdilation, hle, rfl⟩ :=
      (windowedExtent_sliding_eq_ok hspan (by omega)).mp hu
    have hspan_pos := a.span_pos hwindow
    rw [slicedExtent_eq_ok (by omega)] at hn
    obtain ⟨hstride, _, _, _, _, rfl⟩ := hn
    have hplaces : ((p - a.span : Nat) : Int) = a.padded - a.span := by omega
    refine ⟨⟨hwindow, by omega, hbase, hdilation⟩, hlimit, by omega, ?_⟩
    rw [Nat.cast_add, Nat.cast_one, hpositive (by omega), hplaces]

end Axis

/-! ## Parts of a window -/

section Parts

variable {w : Window} {axis rank extent n : Nat} {a : WindowedAxis}

theorem Covers.sliding (hdimensions : rank = w.dimensions.length)
    (hdilations : rank = w.windowDilations.length) : Covers w.sliding rank where
  dimensions := hdimensions
  strides := by simpa [Window.sliding, Window.unit] using hdimensions
  baseDilations := by simpa [Window.sliding, Window.unit] using hdimensions
  windowDilations := hdilations
  padding := by simpa [Window.sliding, Window.unit] using hdimensions

/-- The sliding window on an axis. -/
theorem windowOnAxis_sliding (h : windowOnAxis w axis extent = .ok a) :
    windowOnAxis w.sliding axis n = .ok (a.sliding n) := by
  obtain ⟨_, _, hwindow, _, _, hdilation⟩ := windowOnAxis_eq_ok.mp h
  rw [windowOnAxis_eq_ok]
  simp only [Window.sliding, Window.unit, WindowedAxis.sliding, List.getElem?_map, hwindow,
    hdilation, Option.map_some, and_self]

end Parts

/-! ## Numbered lists -/

section Numbered

variable {α β γ : Type}

/-- An entry of a numbered list stands at its number. -/
theorem forall₂_zipIdx_imp {S T : α × Nat → β → Prop} {xs : List α} {ys : List β}
    (h : List.Forall₂ S xs.zipIdx ys)
    (himp : ∀ entry y, xs[entry.2]? = some entry.1 → S entry y → T entry y) :
    List.Forall₂ T xs.zipIdx ys := by
  have hplaced : ∀ entry ∈ xs.zipIdx, xs[entry.2]? = some entry.1 :=
    fun entry hentry => List.mk_mem_zipIdx_iff_getElem?.mp hentry
  exact ((List.forall₂_and_left _ _).mpr ⟨hplaced, h⟩).imp fun entry y hentry =>
    himp entry y hentry.1 hentry.2

/-- Steps that go through an entry on the way go through a list on the way. -/
theorem forall₂_zipIdx_comp {R : α × Nat → β → Prop} {S : β × Nat → γ → Prop} {xs : List α}
    {zs : List γ} {start : Nat} :
    List.Forall₂ (fun entry z => ∃ y, R entry y ∧ S (y, entry.2) z) (xs.zipIdx start) zs ↔
      ∃ ys, List.Forall₂ R (xs.zipIdx start) ys ∧ List.Forall₂ S (ys.zipIdx start) zs := by
  induction xs generalizing start zs with
  | nil =>
    rw [List.zipIdx_nil, List.forall₂_nil_left_iff]
    constructor
    · rintro rfl
      exact ⟨[], .nil, .nil⟩
    · rintro ⟨ys, hys, hzs⟩
      rw [List.forall₂_nil_left_iff] at hys
      subst hys
      exact List.forall₂_nil_left_iff.mp hzs
  | cons x xs ih =>
    rw [List.zipIdx_cons, List.forall₂_cons_left_iff]
    constructor
    · rintro ⟨z, zs, ⟨y, hxy, hyz⟩, hrest, rfl⟩
      obtain ⟨ys, hys, hzs⟩ := ih.mp hrest
      exact ⟨y :: ys, .cons hxy hys, .cons hyz hzs⟩
    · rintro ⟨ys, hys, hzs⟩
      obtain ⟨y, ys, hxy, hrest, rfl⟩ := List.forall₂_cons_left_iff.mp hys
      rw [List.zipIdx_cons] at hzs
      obtain ⟨z, zs, hyz, hrest', rfl⟩ := List.forall₂_cons_left_iff.mp hzs
      exact ⟨z, zs, ⟨y, hxy, hyz⟩, ih.mpr ⟨ys, hrest, hrest'⟩, rfl⟩

end Numbered

/-! ## Shapes -/

/-- An input as the window meets it: with its edges padded by the initial value, and with the gaps
of the base dilation between its elements. -/
def padAsWindow (w : Window) (input initial : Shape) : Check Shape :=
  pad input initial (w.padding.map Prod.fst) (w.padding.map Prod.snd)
    (w.baseDilations.map fun (dilation : Nat) => (dilation : Int) - 1)

/-- The places that a window stops at when it moves by its strides. -/
def sliceAsWindow (w : Window) (s : Shape) : Check Shape :=
  slice s (s.dimensions.map fun _ => 0) (s.dimensions.map fun (n : Nat) => (n : Int))
    (w.strides.map fun (stride : Nat) => (stride : Int))

section Shapes

variable {w : Window} {input initial s : Shape} {t : ElementType} {extents dimensions : List Nat}

/-- The extents after the padding of the window, axis by axis. -/
def PadExtents (w : Window) (extents dimensions : List Nat) : Prop :=
  List.Forall₂ (fun (entry : Nat × Nat) n => ∃ (padding : Int × Int) (base : Nat),
    w.padding[entry.2]? = some padding ∧ w.baseDilations[entry.2]? = some base ∧
      paddedExtent entry.2 entry.1 padding.1 padding.2 (base - 1) = .ok n)
    extents.zipIdx dimensions

/-- The extents that the strides of the window leave, axis by axis. -/
def SliceExtents (w : Window) (extents dimensions : List Nat) : Prop :=
  List.Forall₂ (fun (entry : Nat × Nat) n => ∃ (stride : Nat), w.strides[entry.2]? = some stride ∧
    slicedExtent entry.2 entry.1 0 entry.1 stride = .ok n) extents.zipIdx dimensions

theorem padAsWindow_eq_ok :
    padAsWindow w input initial = .ok s ↔
      ∃ t dimensions, elementType input = .ok t ∧ scalarElementType initial = .ok t ∧
        input.rank = w.padding.length ∧ input.rank = w.baseDilations.length ∧
        PadExtents w input.dimensions dimensions ∧ s = .of t dimensions := by
  simp only [padAsWindow, pad, commonElementType, bind_eq_ok, scalarElementType_eq_ok,
    requireLength_eq_ok, require_eq_ok, beq_iff_eq, mapM_eq_ok, entry_eq_ok, pure_eq_ok,
    Except.ok.injEq, List.length_map, List.getElem?_map, Option.map_eq_some_iff, PadExtents]
  constructor
  · rintro ⟨t, ht, t₁, ⟨ht₁, hrank⟩, _, ⟨_, ht₂, _, ht₃, _, rfl, rfl⟩, _, hlow, _, hhigh, _, hbase,
      dimensions, hdimensions, rfl⟩
    obtain rfl := Except.ok.inj (ht.symm.trans ht₂)
    obtain rfl := Except.ok.inj (ht₁.symm.trans ht₃)
    refine ⟨_, dimensions, ht, ⟨ht₁, hrank⟩, hlow, hbase, hdimensions.imp ?_, rfl⟩
    rintro entry n ⟨_, ⟨padding, hpadding, rfl⟩, _, ⟨padding', hpadding', rfl⟩, _,
      ⟨base, hbase, rfl⟩, hn⟩
    obtain rfl := Option.some.inj (hpadding.symm.trans hpadding')
    exact ⟨padding, base, hpadding, hbase, hn⟩
  · rintro ⟨t, dimensions, ht, hinitial, hpadding, hbase, hdimensions, rfl⟩
    refine ⟨t, ht, t, hinitial, t, ⟨t, ht, t, hinitial.1, (), rfl, rfl⟩, (), hpadding, (), hpadding,
      (), hbase, dimensions, hdimensions.imp ?_, rfl⟩
    rintro entry n ⟨padding, base, hpadding, hbase, hn⟩
    exact ⟨_, ⟨padding, hpadding, rfl⟩, _, ⟨padding, hpadding, rfl⟩, _, ⟨base, hbase, rfl⟩, hn⟩

theorem sliceAsWindow_eq_ok :
    sliceAsWindow w input = .ok s ↔
      ∃ t dimensions, elementType input = .ok t ∧ input.rank = w.strides.length ∧
        SliceExtents w input.dimensions dimensions ∧ s = .of t dimensions := by
  simp only [sliceAsWindow, slice, bind_eq_ok, requireLength_eq_ok, mapM_eq_ok, entry_eq_ok,
    pure_eq_ok, Except.ok.injEq, List.length_map, List.getElem?_map, Option.map_eq_some_iff,
    SliceExtents]
  constructor
  · rintro ⟨t, ht, _, _, _, _, _, hstrides, dimensions, hdimensions, rfl⟩
    refine ⟨t, dimensions, ht, hstrides, forall₂_zipIdx_imp hdimensions ?_, rfl⟩
    rintro entry n hentry ⟨_, ⟨_, _, rfl⟩, _, ⟨extent, hextent, rfl⟩, _, ⟨stride, hstride, rfl⟩, hn⟩
    obtain rfl := Option.some.inj (hentry.symm.trans hextent)
    exact ⟨stride, hstride, hn⟩
  · rintro ⟨t, dimensions, ht, hstrides, hdimensions, rfl⟩
    refine ⟨t, ht, (), rfl, (), rfl, (), hstrides, dimensions,
      forall₂_zipIdx_imp hdimensions ?_, rfl⟩
    rintro entry n hentry ⟨stride, hstride, hn⟩
    exact ⟨_, ⟨_, hentry, rfl⟩, _, ⟨_, hentry, rfl⟩, _, ⟨stride, hstride, rfl⟩, hn⟩

end Shapes

/-! ## Stages -/

section Stages

variable {w : Window} {extents others dimensions : List Nat}

/-- The parameters of the window fit on every axis. -/
def FitsOn (w : Window) (extents : List Nat) : Prop :=
  ∀ entry ∈ extents.zipIdx, ∀ a, windowOnAxis w entry.2 entry.1 = .ok a → a.Fits

/-- On an axis that the window covers, the stages find the entries that the window finds. -/
theorem windowedExtent_iff_stages_of_covers {axis extent rank n : Nat} (hcovers : Covers w rank)
    (haxis : axis < rank)
    (hfits : ∀ a, windowOnAxis w axis extent = .ok a → a.Fits) :
    (∃ a, windowOnAxis w axis extent = .ok a ∧ windowedExtent axis a = .ok n) ↔
      ∃ p, (∃ (padding : Int × Int) (base : Nat), w.padding[axis]? = some padding ∧
          w.baseDilations[axis]? = some base ∧
          paddedExtent axis extent padding.1 padding.2 (base - 1) = .ok p) ∧
        ∃ u, (∃ a, windowOnAxis w.sliding axis p = .ok a ∧ windowedExtent axis a = .ok u) ∧
          ∃ (stride : Nat), w.strides[axis]? = some stride ∧
            slicedExtent axis u 0 u stride = .ok n := by
  obtain ⟨a, ha⟩ := exists_windowOnAxis extent hcovers haxis
  obtain ⟨rfl, hpadding, _, hstride, hbase, _⟩ := windowOnAxis_eq_ok.mp ha
  simp only [ha, windowOnAxis_sliding ha, hpadding, hstride, hbase, Except.ok.injEq,
    Option.some.injEq, exists_and_left, exists_eq_left', windowedExtent_iff_stages (hfits a ha)]

/-- A window makes of the extents what its stages make of them. -/
theorem windowExtents_iff_stages (hfits : FitsOn w extents) (hcovers : Covers w extents.length) :
    WindowExtents w extents dimensions ↔
      ∃ padded, PadExtents w extents padded ∧
        ∃ counted, WindowExtents w.sliding padded counted ∧ SliceExtents w counted dimensions := by
  have hstages {entry : Nat × Nat} {n : Nat} (hentry : extents[entry.2]? = some entry.1) :=
    windowedExtent_iff_stages_of_covers (n := n) hcovers (List.getElem?_eq_some_iff.mp hentry).1
      (hfits entry (List.mk_mem_zipIdx_iff_getElem?.mpr hentry))
  simp only [WindowExtents, PadExtents, SliceExtents, ← forall₂_zipIdx_comp]
  constructor
  · intro h
    exact forall₂_zipIdx_imp h fun entry n hentry => (hstages hentry).mp
  · intro h
    exact forall₂_zipIdx_imp h fun entry n hentry => (hstages hentry).mpr

/-- An axis that is padded to the same extent had the same extent. -/
theorem paddedExtent_injective {a b : WindowedAxis} {axis n : Nat} (ha : a.Fits) (hb : b.Fits)
    (hbase : a.baseDilation = b.baseDilation) (hlow : a.low = b.low) (hhigh : a.high = b.high)
    (h : paddedExtent axis a.extent a.low a.high (a.baseDilation - 1) = .ok n)
    (h' : paddedExtent axis b.extent b.low b.high (b.baseDilation - 1) = .ok n) :
    a.extent = b.extent := by
  obtain ⟨hpositive, _, hn⟩ := (paddedExtent_eq_ok_of_fits ha).mp h
  obtain ⟨_, _, hn'⟩ := (paddedExtent_eq_ok_of_fits hb).mp h'
  rw [WindowedAxis.padded, hbase, hlow, hhigh] at hn
  rw [WindowedAxis.padded] at hn'
  refine dilatedExtent_injective (hbase ▸ hpositive) ?_
  omega

/-- The entry for an axis among padded extents. -/
theorem PadExtents.getElem {axis : Nat} {a : WindowedAxis} (h : PadExtents w extents dimensions)
    (haxis : axis < extents.length) (hpadded : axis < dimensions.length)
    (ha : windowOnAxis w axis extents[axis] = .ok a) :
    paddedExtent axis a.extent a.low a.high (a.baseDilation - 1) = .ok dimensions[axis] := by
  have hn := List.Forall₂.get h (by simpa using haxis) hpadded
  obtain ⟨hextent, hpadding, _, _, hbase, _⟩ := windowOnAxis_eq_ok.mp ha
  simp only [List.get_eq_getElem, List.getElem_zipIdx, Nat.zero_add, hpadding, hbase,
    Option.some.injEq, exists_and_left, exists_eq_left', ← hextent] at hn
  exact hn

/-- Extents that are padded to the same extents are the same. -/
theorem padExtents_injective (hfits : FitsOn w extents) (hothers : FitsOn w others)
    (hcovers : Covers w dimensions.length)
    (h : PadExtents w extents dimensions) (h' : PadExtents w others dimensions) :
    extents = others := by
  have hlength : extents.length = dimensions.length := by simpa using h.length_eq
  have hlength' : others.length = dimensions.length := by simpa using h'.length_eq
  refine List.ext_getElem (hlength.trans hlength'.symm) fun axis haxis haxis' => ?_
  have hpadded : axis < dimensions.length := hlength ▸ haxis
  obtain ⟨a, ha⟩ := exists_windowOnAxis extents[axis] hcovers hpadded
  obtain ⟨b, hb⟩ := exists_windowOnAxis others[axis] hcovers hpadded
  have hafits := hfits (extents[axis], axis)
    (List.mk_mem_zipIdx_iff_getElem?.mpr (List.getElem?_eq_getElem haxis)) a ha
  have hbfits := hothers (others[axis], axis)
    (List.mk_mem_zipIdx_iff_getElem?.mpr (List.getElem?_eq_getElem haxis')) b hb
  have hn := h.getElem haxis hpadded ha
  have hn' := h'.getElem haxis' hpadded hb
  obtain ⟨hextent, hpadding, _, _, hbase, _⟩ := windowOnAxis_eq_ok.mp ha
  obtain ⟨hextent', hpadding', _, _, hbase', _⟩ := windowOnAxis_eq_ok.mp hb
  obtain ⟨hlow, hhigh⟩ := Prod.mk.inj (Option.some.inj (hpadding.symm.trans hpadding'))
  rw [← hextent, ← hextent']
  exact paddedExtent_injective hafits hbfits (Option.some.inj (hbase.symm.trans hbase')) hlow hhigh
    hn hn'

section Reduction

variable {inputs initials outputs : List Shape} {c : Signature}

theorem exists_stages_of_reduceWindow (hfits : ∀ input ∈ inputs, FitsOn w input.dimensions)
    (h : reduceWindow inputs initials w c = .ok outputs) :
    inputs.length ≤ initials.length ∧ ∃ padded counted,
      List.Forall₂ (fun pair p => padAsWindow w pair.1 pair.2 = .ok p) (inputs.zip initials)
        padded ∧
      reduceWindow padded initials w.sliding c = .ok counted ∧
      List.Forall₂ (fun s o => sliceAsWindow w s = .ok o) counted outputs := by
  cases inputs with
  | nil =>
    obtain ⟨_, htypes, _⟩ := bind_eq_ok.mp h
    cases htypes
  | cons first rest =>
    obtain ⟨types, dimensions, hreduced, hcovers, hc, hdimensions, rfl⟩ := reduceWindow_eq_ok.mp h
    obtain ⟨htypes, hequal, hinitials⟩ := reducedElementTypes_eq_ok.mp hreduced
    obtain ⟨padded, hpadded, counted, hcounted, hsliced⟩ :=
      (windowExtents_iff_stages (hfits first List.mem_cons_self) hcovers).mp hdimensions
    have hlength := htypes.length_eq.trans hinitials.length_eq.symm
    have hpadded_length : padded.length = first.rank := by
      simpa [Shape.rank] using hpadded.length_eq.symm
    have hcounted_length : counted.length = first.rank := by
      simpa [hpadded_length] using hcounted.length_eq.symm
    refine ⟨hlength.le, types.map (.of · padded), types.map (.of · counted), ?_, ?_, ?_⟩
    · rw [List.forall₂_map_right_iff]
      refine ((forall₂_reducedElementType hlength).mpr ⟨htypes, hequal, hinitials⟩).imp ?_
      rintro ⟨input, initial⟩ t ht
      obtain ⟨ht, hinput, hinitial⟩ := reducedElementType_eq_ok.mp ht
      have hrank : input.rank = first.rank := congrArg List.length hinput
      exact padAsWindow_eq_ok.mpr ⟨t, padded, ht, hinitial, hrank.trans hcovers.padding,
        hrank.trans hcovers.baseDilations, hinput ▸ hpadded, rfl⟩
    · obtain ⟨t, types, _, _, rfl⟩ := List.forall₂_cons_left_iff.mp htypes
      refine reduceWindow_eq_ok.mpr ⟨t :: types, counted, ?_, ?_, hc, hcounted, rfl⟩
      · rw [reducedElementTypes_eq_ok, ← List.map_cons (f := (Shape.of · padded)),
          List.forall₂_map_left_iff, List.forall₂_same, List.forall_mem_map]
        exact ⟨fun _ _ => rfl, fun _ _ => rfl, hinitials⟩
      · exact .sliding (hpadded_length.trans hcovers.dimensions)
          (hpadded_length.trans hcovers.windowDilations)
    · rw [List.forall₂_map_left_iff, List.forall₂_map_right_iff, List.forall₂_same]
      intro t _
      exact sliceAsWindow_eq_ok.mpr
        ⟨t, dimensions, rfl, hcounted_length.trans hcovers.strides, hsliced, rfl⟩

section Padded

variable {padded : List Shape}
  (hinputs : List.Forall₂ (fun input p => ∃ initial, padAsWindow w input initial = .ok p)
    inputs padded)

include hinputs

/-- Padding keeps the element types. -/
theorem elementTypes_of_padded {types : List ElementType}
    (htypes : List.Forall₂ (fun p t => elementType p = .ok t) padded types) :
    List.Forall₂ (fun input t => elementType input = .ok t) inputs types := by
  refine forall₂_trans ?_ hinputs htypes
  rintro input p t ⟨_, hp⟩ ht
  obtain ⟨u, _, hu, _, _, _, _, rfl⟩ := padAsWindow_eq_ok.mp hp
  exact hu.trans ht

/-- Inputs that are padded to one shape have one shape. -/
theorem dimensions_of_padded {first : Shape} {extents : List Nat}
    (hfits : ∀ input ∈ inputs, FitsOn w input.dimensions) (hfirst : first ∈ inputs)
    (hcovers : Covers w extents.length) (hequal : ∀ p ∈ padded, p.dimensions = extents)
    (hextents : PadExtents w first.dimensions extents) :
    ∀ input ∈ inputs, input.dimensions = first.dimensions := by
  intro input hinput
  obtain ⟨p, hmem, _, hp⟩ := exists_of_mem_left hinputs hinput
  obtain ⟨_, others, _, _, _, _, hothers, rfl⟩ := padAsWindow_eq_ok.mp hp
  obtain rfl : others = extents := hequal _ hmem
  exact padExtents_injective (hfits input hinput) (hfits first hfirst) hcovers hothers hextents

end Padded

theorem reduceWindow_of_stages (hfits : ∀ input ∈ inputs, FitsOn w input.dimensions)
    (hlength : inputs.length ≤ initials.length) {padded counted : List Shape}
    (hpads : List.Forall₂ (fun pair p => padAsWindow w pair.1 pair.2 = .ok p)
      (inputs.zip initials) padded)
    (hreduced : reduceWindow padded initials w.sliding c = .ok counted)
    (hslices : List.Forall₂ (fun s o => sliceAsWindow w s = .ok o) counted outputs) :
    reduceWindow inputs initials w c = .ok outputs := by
  have hinputs : List.Forall₂ (fun input p => ∃ initial, padAsWindow w input initial = .ok p)
      inputs padded := by
    rw [← List.map_fst_zip hlength, List.forall₂_map_left_iff]
    exact hpads.imp fun pair p hpair => ⟨pair.2, hpair⟩
  cases inputs with
  | nil =>
    rw [List.forall₂_nil_left_iff.mp hinputs] at hreduced
    obtain ⟨_, htypes, _⟩ := bind_eq_ok.mp hreduced
    cases htypes
  | cons first rest =>
    obtain ⟨p, padded, ⟨initial, hfirst⟩, hrest, rfl⟩ := List.forall₂_cons_left_iff.mp hinputs
    obtain ⟨types, counts, hfound, hsliding, hc, hcounts, rfl⟩ := reduceWindow_eq_ok.mp hreduced
    obtain ⟨htypes, hequal, hinitials⟩ := reducedElementTypes_eq_ok.mp hfound
    obtain ⟨t, extents, _, _, hpadding, hbase, hextents, rfl⟩ := padAsWindow_eq_ok.mp hfirst
    rw [List.forall₂_map_left_iff] at hslices
    obtain ⟨dimensions, hstrides, hdimensions⟩ : ∃ dimensions, counts.length = w.strides.length ∧
        SliceExtents w counts dimensions := by
      obtain ⟨u, types, _, _, rfl⟩ := List.forall₂_cons_left_iff.mp htypes
      obtain ⟨o, _, ho, _, rfl⟩ := List.forall₂_cons_left_iff.mp hslices
      obtain ⟨_, dimensions, _, hstrides, hdimensions, _⟩ := sliceAsWindow_eq_ok.mp ho
      exact ⟨dimensions, hstrides, hdimensions⟩
    have hrank : first.rank = extents.length := by simpa [Shape.rank] using hextents.length_eq
    have hcount : extents.length = counts.length := by simpa [Shape.of] using hcounts.length_eq
    have hcovers : Covers w extents.length :=
      ⟨hsliding.dimensions, hcount.trans hstrides, hrank ▸ hbase, hsliding.windowDilations,
        hrank ▸ hpadding⟩
    have hfirstCovers : Covers w first.rank := hrank ▸ hcovers
    have houtputs : outputs = types.map (.of · dimensions) := by
      rw [← List.forall₂_eq_eq_eq, List.forall₂_map_right_iff]
      refine (hslices.imp fun t o ho => ?_).flip
      exact Except.ok.inj (ho.symm.trans
        (sliceAsWindow_eq_ok.mpr ⟨t, dimensions, rfl, hstrides, hdimensions, rfl⟩))
    refine reduceWindow_eq_ok.mpr ⟨types, dimensions, ?_, hfirstCovers, hc, ?_, houtputs⟩
    · exact reducedElementTypes_eq_ok.mpr ⟨elementTypes_of_padded hinputs htypes,
        dimensions_of_padded hinputs hfits List.mem_cons_self hcovers hequal hextents, hinitials⟩
    · exact (windowExtents_iff_stages (hfits first List.mem_cons_self) hfirstCovers).mpr
        ⟨extents, hextents, counts, hcounts, hdimensions⟩

end Reduction

/-- Gaps between five elements, less padding than elements on one edge, strides that do not divide
the number of places, and an axis without elements. -/
def gappedWindow : Window where
  dimensions := [3, 2]
  strides := [2, 3]
  baseDilations := [2, 1]
  windowDilations := [1, 2]
  padding := [(-1, 2), (4, 1)]

end Stages

end Inference

end TensorProgram
