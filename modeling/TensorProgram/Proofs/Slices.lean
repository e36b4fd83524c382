import TensorProgram.Proofs.AxisByAxis
import TensorProgram.Proofs.Extents

/-!
# Slices

A slice takes the places `start`, `start + stride` and so on of each axis, as long as they are below
`limit`.  `SlicedAxis.Selects` says how many places there are, and `SlicedAxis.selects_count` that
the rule computes this number.  Two slices one after the other select what one slice selects whose
strides are multiplied, `SlicedAxis.selects_comp`.

The rule rounds up by adding the stride to the length of the range before it subtracts one.  That
sum has to be an offset, `SlicedAxis.Fits`, although the number of places never exceeds the extent.
So there are slices with all parameters in range that stop for an overflow, `slice_overflows_iff`,
and all others are accepted, `slice_selects`.
-/

namespace TensorProgram.Inference

open Offset (InLimits)

/-- One axis of a slice. -/
structure SlicedAxis where
  extent : Nat
  start : Int
  limit : Int
  stride : Int

namespace SlicedAxis

variable {a b : SlicedAxis} {m n : Nat}

/-- There is a stride, and the range from the start to the limit lies within the extent. -/
def InRange (a : SlicedAxis) : Prop :=
  0 < a.stride ∧ 0 ≤ a.start ∧ a.start ≤ a.limit ∧ a.limit ≤ a.extent

/-- The parameters pass the checks, which compare the limit with the offset that the extent is read
as. -/
def Passes (a : SlicedAxis) : Prop :=
  0 < a.stride ∧ 0 ≤ a.start ∧ a.start ≤ a.limit ∧ a.limit ≤ Offset.ofSize a.extent

/-- The stride can be added to the length of the range. -/
def Fits (a : SlicedAxis) : Prop :=
  a.limit - a.start + a.stride < Offset.limit

instance (a : SlicedAxis) : Decidable a.InRange :=
  inferInstanceAs (Decidable (_ ∧ _))

instance (a : SlicedAxis) : Decidable a.Passes :=
  inferInstanceAs (Decidable (_ ∧ _))

instance (a : SlicedAxis) : Decidable a.Fits :=
  inferInstanceAs (Decidable (_ < _))

/-- There are `n` places: after `j` steps of the stride the limit is not reached for `j` below `n`,
and for no other `j`. -/
def Selects (a : SlicedAxis) (n : Nat) : Prop :=
  ∀ j : Nat, a.start + j * a.stride < a.limit ↔ j < n

/-- The length of the range, divided by the stride and rounded up. -/
def count (a : SlicedAxis) : Nat :=
  ((a.limit - a.start + a.stride - 1) / a.stride).toNat

theorem passes_iff_inRange (h : (a.extent : Int) < Offset.limit) : a.Passes ↔ a.InRange := by
  rw [Passes, InRange, Offset.ofSize_eq h]

theorem slicedExtent_eq_ok_of_axis {axis : Nat} :
    slicedExtent axis a.extent a.start a.limit a.stride = .ok n ↔
      (a.Passes ∧ a.Fits) ∧ a.count = n := by
  rw [slicedExtent_eq_ok_iff]
  simp only [Passes, Fits, count, and_assoc]

theorem selects_count (h : a.Passes) : a.Selects a.count := by
  obtain ⟨hstride, _, hrange, _⟩ := h
  intro j
  have hstep : (j : Int) + 1 ≤ (a.limit - a.start + a.stride - 1) / a.stride ↔
      ((j : Int) + 1) * a.stride ≤ a.limit - a.start + a.stride - 1 :=
    Int.le_ediv_iff_mul_le hstride
  rw [Int.add_mul, Int.one_mul] at hstep
  unfold count
  omega

theorem Selects.unique (h : a.Selects m) (h' : a.Selects n) : m = n := by
  have hm := (h m).symm.trans (h' m)
  have hn := (h n).symm.trans (h' n)
  omega

/-- Every place takes one element of the range. -/
theorem count_le (h : a.Passes) : (a.count : Int) ≤ a.limit - a.start := by
  have hselects := selects_count h
  obtain ⟨hstride, _, hrange, _⟩ := h
  rcases Nat.eq_zero_or_pos a.count with hzero | hpos
  · omega
  · have hlast := (hselects (a.count - 1)).mpr (by omega)
    have hmul := Int.mul_le_mul_of_nonneg_left (show 1 ≤ a.stride by omega)
      (Int.natCast_nonneg (a.count - 1))
    omega

theorem count_eq_zero_iff (h : a.Passes) : a.count = 0 ↔ a.start = a.limit := by
  have hfirst := selects_count h 0
  have hrange := h.2.2.1
  simp only [Int.natCast_zero, Int.zero_mul, Int.add_zero] at hfirst
  omega

/-! ### Overflows -/

/-- No step on the way overflows but the sum of the range and the stride. -/
theorem inLimits_iff_fits (h : a.Passes) :
    InLimits (a.limit - a.start) ∧ (a.Fits ↔ InLimits (a.limit - a.start + a.stride)) ∧
      (a.Fits → InLimits (a.limit - a.start + a.stride - 1)) := by
  have hread := Offset.ofSize_lt a.extent
  obtain ⟨hstride, hzero, hrange, hlimit⟩ := h
  simp only [InLimits, Fits, Offset.limit] at *
  omega

theorem overflows_bounded {operation : Arithmetic} {x : Int} :
    FailsOnlyWith (· = .fault (.overflow operation)) (Offset.bounded operation x) := by
  unfold Offset.bounded
  split_ifs
  · exact .pure _
  · exact .error rfl

/-- What passes the checks can fail in no other way than by an overflow of the sum. -/
theorem slicedExtent_overflows {axis : Nat} (h : a.Passes) :
    FailsOnlyWith (· = .fault (.overflow .add))
      (slicedExtent axis a.extent a.start a.limit a.stride) := by
  obtain ⟨hspan, hfits, hrounded⟩ := inLimits_iff_fits h
  obtain ⟨hstride, hzero, hrange, hlimit⟩ := h
  have hchecks : (0 ≤ a.start && a.start ≤ a.limit && a.limit ≤ Offset.ofSize a.extent) = true := by
    simp [hzero, hrange, hlimit]
  simp only [slicedExtent, require, hstride, decide_true, if_true, hchecks, ok_bind, Offset.sub,
    Offset.bounded_eq_ok.mpr ⟨hspan, rfl⟩]
  refine .bind overflows_bounded fun sum hsum => ?_
  obtain ⟨hwithin, rfl⟩ := Offset.bounded_eq_ok.mp hsum
  have hrounded := hrounded (hfits.mpr hwithin)
  rw [Offset.bounded_eq_ok.mpr ⟨hrounded, rfl⟩, ok_bind,
    Offset.div_of_nonneg hstride.ne' (by omega) hrounded.2]
  exact .pure _

/-! ### Two slices -/

/-- The slice of the extent of `a` that takes what `b` takes of the places of `a`. -/
def comp (a b : SlicedAxis) : SlicedAxis where
  extent := a.extent
  start := a.start + a.stride * b.start
  limit := min a.limit (a.start + a.stride * b.limit)
  stride := a.stride * b.stride

section Comp

variable (ha : a.Passes) (hb : b.Passes) (hextent : a.count = b.extent)

include ha hb hextent

/-- The places of `a` are few enough to be an offset. -/
theorem inRange_of_count : b.InRange := by
  have hcount := count_le ha
  have hlimit := Offset.ofSize_lt a.extent
  obtain ⟨_, hzero, _, hwithin⟩ := ha
  exact (passes_iff_inRange (by omega)).mp hb

theorem passes_comp (hlt : b.start < b.limit) : (a.comp b).Passes := by
  obtain ⟨hstep, hstart, _, hlimit⟩ := inRange_of_count ha hb hextent
  have hselects := selects_count ha b.start.toNat
  rw [Int.toNat_of_nonneg hstart, Int.mul_comm] at hselects
  obtain ⟨hstride, hzero, hrange, hwithin⟩ := ha
  have hplace : 0 ≤ a.stride * b.start := Int.mul_nonneg hstride.le hstart
  have hplaces : a.stride * b.start < a.stride * b.limit := Int.mul_lt_mul_of_pos_left hlt hstride
  refine ⟨Int.mul_pos hstride hstep, ?_, ?_, ?_⟩
  · simp only [comp]
    omega
  · simp only [comp]
    omega
  · simp only [comp]
    omega

theorem selects_comp (hn : b.Selects n) : (a.comp b).Selects n := by
  obtain ⟨hstep, hstart, _, hlimit⟩ := inRange_of_count ha hb hextent
  intro j
  -- the place of `b` is itself the number of steps that `a` takes
  have hplace : 0 ≤ b.start + j * b.stride :=
    Int.add_nonneg hstart (Int.mul_nonneg (Int.natCast_nonneg j) hstep.le)
  have hinner := selects_count ha (b.start + j * b.stride).toNat
  rw [Int.toNat_of_nonneg hplace] at hinner
  have houter : a.start + a.stride * (b.start + j * b.stride) < a.start + a.stride * b.limit ↔
      b.start + j * b.stride < b.limit := by
    rw [Int.add_lt_add_iff_left, Int.mul_lt_mul_left ha.1]
  have hcomp : (a.comp b).start + j * (a.comp b).stride =
      a.start + a.stride * (b.start + j * b.stride) := by
    simp only [comp]
    ring
  rw [hcomp, ← hn j, comp, lt_min_iff, houter, Int.mul_comm a.stride, hinner, hextent]
  omega

theorem count_comp (hlt : b.start < b.limit) : (a.comp b).count = b.count :=
  (selects_count (passes_comp ha hb hextent hlt)).unique
    (selects_comp ha hb hextent (selects_count hb))

end Comp

end SlicedAxis

/-! ## Shapes -/

/-- The axes of a slice. -/
def slicedAxes (extents : List Nat) (starts limits strides : List Int) : List SlicedAxis :=
  axesOf SlicedAxis.mk extents starts limits strides

section Shapes

variable {operand s : Shape} {starts limits strides : List Int}

@[simp] theorem CoverAxes.length_slicedAxes {extents : List Nat}
    (h : CoverAxes extents starts limits strides) :
    (slicedAxes extents starts limits strides).length = extents.length :=
  h.length_axesOf

theorem slice_eq_ok :
    slice operand starts limits strides = .ok s ↔
      ∃ t, operand.elementType? = some t ∧ CoverAxes operand.dimensions starts limits strides ∧
        (∀ a ∈ slicedAxes operand.dimensions starts limits strides, a.Passes ∧ a.Fits) ∧
        s = .of t ((slicedAxes operand.dimensions starts limits strides).map SlicedAxis.count) := by
  have hrule : ∀ a ∈ slicedAxes operand.dimensions starts limits strides, ∀ axis n,
      slicedExtent axis a.extent a.start a.limit a.stride = .ok n ↔
        (a.Passes ∧ a.Fits) ∧ a.count = n :=
    fun a _ axis n => a.slicedExtent_eq_ok_of_axis
  simp only [slice, bind_eq_ok, elementType_eq_ok, requireLength_eq_ok, pure_eq_ok, Except.ok.injEq]
  constructor
  · rintro ⟨t, ht, _, hstarts, _, hlimits, _, hstrides, dimensions, hdimensions, rfl⟩
    have hcover : CoverAxes operand.dimensions starts limits strides :=
      ⟨hstarts.symm, hlimits.symm, hstrides.symm⟩
    obtain ⟨haccepted, rfl⟩ := (mapM_axes_eq_ok SlicedAxis.mk _ hcover hrule).mp hdimensions
    exact ⟨t, ht, hcover, haccepted, rfl⟩
  · rintro ⟨t, ht, hcover, haccepted, rfl⟩
    exact ⟨t, ht, (), hcover.first.symm, (), hcover.second.symm, (), hcover.third.symm, _,
      (mapM_axes_eq_ok SlicedAxis.mk _ hcover hrule).mpr ⟨haccepted, rfl⟩, rfl⟩

/-- Where places of a slice lie in its operand. -/
def placesIn (starts strides places : List Int) : List Int :=
  List.zipWith (· + ·) starts (List.zipWith (· * ·) strides places)

section Twice

variable {s' : Shape} {starts' limits' strides' : List Int}

/-- Axis by axis, the places that two slices take one after the other are those of one slice. -/
theorem axes_composed {extents : List Nat} (hcover : CoverAxes extents starts limits strides)
    (hpasses : ∀ a ∈ slicedAxes extents starts limits strides, a.Passes ∧ a.Fits)
    {places : List Nat}
    (hplaces : (slicedAxes extents starts limits strides).map SlicedAxis.count = places)
    (hcover' : CoverAxes places starts' limits' strides')
    (hpasses' : ∀ b ∈ slicedAxes places starts' limits' strides', b.Passes ∧ b.Fits)
    (hlt : ∀ b ∈ slicedAxes places starts' limits' strides', b.start < b.limit) :
    CoverAxes extents (placesIn starts strides starts')
        (List.zipWith min limits (placesIn starts strides limits'))
        (List.zipWith (· * ·) strides strides') ∧
      (∀ c ∈ slicedAxes extents (placesIn starts strides starts')
        (List.zipWith min limits (placesIn starts strides limits'))
        (List.zipWith (· * ·) strides strides'), c.Passes) ∧
      (slicedAxes extents (placesIn starts strides starts')
        (List.zipWith min limits (placesIn starts strides limits'))
        (List.zipWith (· * ·) strides strides')).map SlicedAxis.count =
      (slicedAxes places starts' limits' strides').map SlicedAxis.count := by
  have hrank : places.length = extents.length := by
    simp [← hplaces, hcover]
  have hcomposed : CoverAxes extents (placesIn starts strides starts')
      (List.zipWith min limits (placesIn starts strides limits'))
      (List.zipWith (· * ·) strides strides') := by
    constructor
    · simp [placesIn, hcover.first, hcover.third, hcover'.first, hrank]
    · simp [placesIn, hcover.first, hcover.second, hcover.third, hcover'.second, hrank]
    · simp [hcover.third, hcover'.third, hrank]
  have hagree := axes_agree (P := fun b => b.start < b.limit) (Q := SlicedAxis.Passes)
    (f := SlicedAxis.count) (g := SlicedAxis.count)
    (slicedAxes places starts' limits' strides')
    (slicedAxes extents (placesIn starts strides starts')
      (List.zipWith min limits (placesIn starts strides limits'))
      (List.zipWith (· * ·) strides strides'))
    (by simp [hcover', hcomposed, hrank]) fun axis hb hc => by
      have haxis : axis < extents.length := by simpa [hcomposed] using hc
      have ha : axis < (slicedAxes extents starts limits strides).length := by
        simpa [hcover] using haxis
      have hextent : (slicedAxes extents starts limits strides)[axis].count =
          (slicedAxes places starts' limits' strides')[axis].extent := by
        simp [slicedAxes, axesOf, ← hplaces]
      have hcomp : (slicedAxes extents (placesIn starts strides starts')
          (List.zipWith min limits (placesIn starts strides limits'))
          (List.zipWith (· * ·) strides strides'))[axis] =
          (slicedAxes extents starts limits strides)[axis].comp
            (slicedAxes places starts' limits' strides')[axis] := by
        simp [slicedAxes, axesOf, placesIn, SlicedAxis.comp]
      have hpass := (hpasses _ (List.getElem_mem ha)).1
      have hpass' := (hpasses' _ (List.getElem_mem hb)).1
      have hlt := hlt _ (List.getElem_mem hb)
      rw [hcomp]
      exact ⟨iff_of_true hlt (SlicedAxis.passes_comp hpass hpass' hextent hlt),
        (SlicedAxis.count_comp hpass hpass' hextent hlt).symm⟩
  exact ⟨hcomposed, hagree.1.mp hlt, hagree.2.symm⟩

/-- The places that two slices take one after the other are those of one slice. -/
theorem slice_slice (h : slice operand starts limits strides = .ok s)
    (h' : slice s starts' limits' strides' = .ok s')
    (hlt : ∀ b ∈ slicedAxes s.dimensions starts' limits' strides', b.start < b.limit)
    (hfits : ∀ c ∈ slicedAxes operand.dimensions (placesIn starts strides starts')
      (List.zipWith min limits (placesIn starts strides limits'))
      (List.zipWith (· * ·) strides strides'), c.Fits) :
    slice operand (placesIn starts strides starts')
      (List.zipWith min limits (placesIn starts strides limits'))
      (List.zipWith (· * ·) strides strides') = .ok s' := by
  obtain ⟨t, ht, hcover, haccepted, rfl⟩ := slice_eq_ok.mp h
  obtain ⟨t', ht', hcover', haccepted', rfl⟩ := slice_eq_ok.mp h'
  obtain rfl : t = t' := Option.some.inj ht'
  obtain ⟨hcomposed, hpasses, hcount⟩ :=
    axes_composed hcover haccepted rfl hcover' haccepted' hlt
  exact slice_eq_ok.mpr ⟨t, ht, hcomposed, fun c hc => ⟨hpasses c hc, hfits c hc⟩, by
    rw [hcount]; rfl⟩

end Twice

/-! ## What is selected -/

section Exact

variable (hextents : ∀ n ∈ operand.dimensions, (n : Int) < Offset.limit)

include hextents

theorem passes_iff_of_mem {a : SlicedAxis}
    (ha : a ∈ slicedAxes operand.dimensions starts limits strides) : a.Passes ↔ a.InRange := by
  obtain ⟨n, hn, _, _, _, _, _, _, rfl⟩ := exists_of_mem_axesOf ha
  exact SlicedAxis.passes_iff_inRange (hextents n hn)

theorem exists_slice_iff (hvalid : operand.isValid = true) :
    (∃ s, slice operand starts limits strides = .ok s) ↔
      CoverAxes operand.dimensions starts limits strides ∧
        ∀ a ∈ slicedAxes operand.dimensions starts limits strides, a.InRange ∧ a.Fits := by
  obtain ⟨t, ht⟩ := Option.isSome_iff_exists.mp hvalid
  constructor
  · rintro ⟨s, hs⟩
    obtain ⟨_, _, hcover, haccepted, _⟩ := slice_eq_ok.mp hs
    exact ⟨hcover, fun a ha => (haccepted a ha).imp_left (passes_iff_of_mem hextents ha).mp⟩
  · rintro ⟨hcover, haccepted⟩
    exact ⟨_, slice_eq_ok.mpr ⟨t, ht, hcover,
      fun a ha => (haccepted a ha).imp_left (passes_iff_of_mem hextents ha).mpr, rfl⟩⟩

/-- Every extent that a slice leaves is a number of places. -/
theorem forall₂_of_slice (h : slice operand starts limits strides = .ok s) :
    List.Forall₂ (fun a n => a.Selects n ∧ (n = 0 ↔ a.start = a.limit) ∧ n ≤ a.extent)
      (slicedAxes operand.dimensions starts limits strides) s.dimensions := by
  obtain ⟨t, _, _, haccepted, rfl⟩ := slice_eq_ok.mp h
  rw [Shape.of, List.forall₂_map_right_iff, List.forall₂_same]
  intro a ha
  have hpasses := (haccepted a ha).1
  have hcount := SlicedAxis.count_le hpasses
  obtain ⟨_, hzero, _, hlimit⟩ := (passes_iff_of_mem hextents ha).mp hpasses
  exact ⟨SlicedAxis.selects_count hpasses, SlicedAxis.count_eq_zero_iff hpasses, by omega⟩

end Exact

/-- A slice is accepted exactly when its lists have an entry for every axis, the parameters are in
range on every axis, and the stride can be added to the length of the range.  The extents that it
leaves are the numbers of places, which are zero for empty ranges only and never above the extents
of the operand.  Where a second slice takes places of every axis, one slice of the operand takes the
same places, unless its own strides are too long to be added. -/
theorem slice_selects (hvalid : operand.isValid = true)
    (hextents : ∀ n ∈ operand.dimensions, (n : Int) < Offset.limit)
    (starts limits strides : List Int) :
    ((∃ s, slice operand starts limits strides = .ok s) ↔
      CoverAxes operand.dimensions starts limits strides ∧
        ∀ a ∈ slicedAxes operand.dimensions starts limits strides, a.InRange ∧ a.Fits) ∧
    ∀ s, slice operand starts limits strides = .ok s →
      s.elementType? = operand.elementType? ∧
      List.Forall₂ (fun a n => a.Selects n ∧ (n = 0 ↔ a.start = a.limit) ∧ n ≤ a.extent)
        (slicedAxes operand.dimensions starts limits strides) s.dimensions ∧
      ∀ starts' limits' strides' s', slice s starts' limits' strides' = .ok s' →
        (∀ b ∈ slicedAxes s.dimensions starts' limits' strides', b.start < b.limit) →
        (∀ c ∈ slicedAxes operand.dimensions (placesIn starts strides starts')
          (List.zipWith min limits (placesIn starts strides limits'))
          (List.zipWith (· * ·) strides strides'), c.Fits) →
        slice operand (placesIn starts strides starts')
          (List.zipWith min limits (placesIn starts strides limits'))
          (List.zipWith (· * ·) strides strides') = .ok s' := by
  refine ⟨exists_slice_iff hextents hvalid, fun s h => ⟨?_, forall₂_of_slice hextents h, ?_⟩⟩
  · obtain ⟨t, ht, _, _, rfl⟩ := slice_eq_ok.mp h
    exact ht.symm
  · intro starts' limits' strides' s' h' hlt hfits
    exact slice_slice h h' hlt hfits

/-- The stride of the first slice does not divide its ranges, and the second slice goes up to the
last place. -/
theorem slice_selects_twice :
    let operand := Shape.of (.real .f32) [10, 7]
    let middle := Shape.of (.real .f32) [3, 3]
    let out := Shape.of (.real .f32) [2, 2]
    operand.isValid = true ∧ (∀ n ∈ operand.dimensions, (n : Int) < Offset.limit) ∧
      slice operand [1, 0] [9, 6] [3, 2] = .ok middle ∧
      slice middle [0, 1] [3, 3] [2, 1] = .ok out ∧
      slice operand [1, 2] [9, 6] [6, 2] = .ok out := by
  intro operand middle out
  have hvalid : operand.isValid = true := rfl
  have hextents : ∀ n ∈ operand.dimensions, (n : Int) < Offset.limit := by decide
  have hmiddle : slice operand [1, 0] [9, 6] [3, 2] = .ok middle := by decide
  have hout : slice middle [0, 1] [3, 3] [2, 1] = .ok out := by decide
  obtain ⟨_, _, htwice⟩ := (slice_selects hvalid hextents [1, 0] [9, 6] [3, 2]).2 middle hmiddle
  exact ⟨hvalid, hextents, hmiddle, hout,
    htwice [0, 1] [3, 3] [2, 1] out hout (by decide) (by decide)⟩

/-- The longest stride takes the only element of a vector, and it takes one less than the limit of
offsets to round up, but the sum before that is the limit itself. -/
theorem only_element_overflows :
    let stride : Int := 0x7FFFFFFFFFFFFFFF
    let a : SlicedAxis := { extent := 1, start := 0, limit := 1, stride := stride }
    InLimits (a.limit - a.start + a.stride - 1) ∧ a.InRange ∧ a.Selects 1 ∧
      slice (.of (.real .f32) [1]) [0] [1] [stride] = .error (.fault (.overflow .add)) := by
  intro stride a
  have hpasses : a.Passes := by decide
  exact ⟨by decide, by decide, SlicedAxis.selects_count hpasses, by decide⟩

/-! ## Overflows -/

section Overflow

variable (hvalid : operand.isValid = true)
  (hcover : CoverAxes operand.dimensions starts limits strides)
  (hpasses : ∀ a ∈ slicedAxes operand.dimensions starts limits strides, a.Passes)

include hvalid hcover hpasses

theorem slice_overflows : FailsOnlyWith (· = .fault (.overflow .add))
    (slice operand starts limits strides) := by
  obtain ⟨t, ht⟩ := Option.isSome_iff_exists.mp hvalid
  have hlength {parameter : String} {ws : List Int} (h : ws.length = operand.dimensions.length) :
      requireLength parameter operand.rank ws.length = .ok () := requireLength_eq_ok.mpr h.symm
  simp only [slice, elementType_eq_ok.mpr ht, hlength hcover.first, hlength hcover.second,
    hlength hcover.third, ok_bind]
  refine .bind ?_ fun _ _ => .pure _
  exact failsOnlyWith_mapM_axes SlicedAxis.mk
    (fun axis a => slicedExtent axis a.extent a.start a.limit a.stride) hcover
    fun a ha axis => SlicedAxis.slicedExtent_overflows (hpasses a ha)

/-- A slice that passes all checks stops for an overflow exactly when there is an axis whose stride
cannot be added to the length of its range, and is accepted otherwise.  That sum is the only number
on the way that can leave the limits of offsets. -/
theorem slice_overflows_iff :
    (slice operand starts limits strides = .error (.fault (.overflow .add)) ↔
      ∃ a ∈ slicedAxes operand.dimensions starts limits strides, ¬a.Fits) ∧
    ((∃ s, slice operand starts limits strides = .ok s) ↔
      ∀ a ∈ slicedAxes operand.dimensions starts limits strides, a.Fits) ∧
    ∀ a ∈ slicedAxes operand.dimensions starts limits strides,
      InLimits (a.limit - a.start) ∧ (a.Fits ↔ InLimits (a.limit - a.start + a.stride)) ∧
        (a.Fits → InLimits (a.limit - a.start + a.stride - 1)) := by
  obtain ⟨t, ht⟩ := Option.isSome_iff_exists.mp hvalid
  have haccepted : (∃ s, slice operand starts limits strides = .ok s) ↔
      ∀ a ∈ slicedAxes operand.dimensions starts limits strides, a.Fits := by
    constructor
    · rintro ⟨s, hs⟩
      obtain ⟨_, _, _, haccepted, _⟩ := slice_eq_ok.mp hs
      exact fun a ha => (haccepted a ha).2
    · intro hfits
      exact ⟨_, slice_eq_ok.mpr ⟨t, ht, hcover, fun a ha => ⟨hpasses a ha, hfits a ha⟩, rfl⟩⟩
  refine ⟨?_, haccepted, fun a ha => SlicedAxis.inLimits_iff_fits (hpasses a ha)⟩
  have hfails := slice_overflows hvalid hcover hpasses
  cases hslice : slice operand starts limits strides with
  | error cause =>
    obtain rfl := hfails cause hslice
    rw [hslice] at haccepted
    simpa using haccepted
  | ok s =>
    rw [hslice] at haccepted
    simpa using haccepted

end Overflow

/-- The stride cannot be added on the second axis. -/
theorem slice_overflows_iff_second :
    let operand := Shape.of (.real .f32) [3, 5]
    let strides : List Int := [2, 0x7FFFFFFFFFFFFFFB]
    operand.isValid = true ∧ CoverAxes operand.dimensions [0, 0] [3, 5] strides ∧
      (∀ a ∈ slicedAxes operand.dimensions [0, 0] [3, 5] strides, a.Passes) ∧
      slice operand [0, 0] [3, 5] strides = .error (.fault (.overflow .add)) := by
  intro operand strides
  have hcover : CoverAxes operand.dimensions [0, 0] [3, 5] strides := ⟨rfl, rfl, rfl⟩
  have hpasses : ∀ a ∈ slicedAxes operand.dimensions [0, 0] [3, 5] strides, a.Passes := by decide
  exact ⟨rfl, hcover, hpasses, (slice_overflows_iff rfl hcover hpasses).1.mpr (by decide)⟩

/-- Every stride up to the limit of offsets passes the checks, and the longest one cannot be added
to two elements. -/
theorem longest_stride_overflows :
    let operand := Shape.of (.real .f32) [2]
    let stride : Int := 0x7FFFFFFFFFFFFFFF
    operand.isValid = true ∧ InLimits stride ∧ CoverAxes operand.dimensions [0] [2] [stride] ∧
      (∀ a ∈ slicedAxes operand.dimensions [0] [2] [stride],
        a.InRange ∧ ¬InLimits (a.limit - a.start + a.stride - 1)) ∧
      slice operand [0] [2] [stride] = .error (.fault (.overflow .add)) :=
  ⟨rfl, by decide, ⟨rfl, rfl, rfl⟩, by decide, by decide⟩

end Shapes

end TensorProgram.Inference
