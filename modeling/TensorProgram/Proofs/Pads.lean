import TensorProgram.Proofs.AxisByAxis
import TensorProgram.Proofs.Extents
import TensorProgram.Proofs.Reductions

/-!
# Pads

A pad adds to the extent of each axis what it puts on the edges, which may be negative, and what it
puts between neighbors: `PaddedAxis.padded`.  The rule adds up in an order of its own, and no sum on
the way may leave the limits of offsets, `PaddedAxis.Accepted`.

Two pads of which the second puts nothing between neighbors are one pad with the sums of their
edges, `pad_again`, because only the sum of all edges can leave the limits where the second pad is
accepted: `PaddedAxis.accepted_again_iff`.  Two pads that only put something between neighbors are
one such pad as well, `pad_inside_inside`, in which a neighbor and its gap are repeated:
`spread_spread`.
-/

namespace TensorProgram.Inference

open Offset (InLimits)

/-- One axis of a pad. -/
structure PaddedAxis where
  extent : Nat
  low : Int
  high : Int
  interior : Int

/-- The extent with a gap after each element but the last one. -/
def spread (extent : Nat) (interior : Int) : Int :=
  extent + max ((extent : Int) - 1) 0 * interior

section Spread

variable {n : Nat} {i j : Int}

@[simp] theorem spread_zero (n : Nat) : spread n 0 = n := by
  simp [spread]

theorem le_spread (n : Nat) (hi : 0 ≤ i) : (n : Int) ≤ spread n i := by
  have hgaps : 0 ≤ max ((n : Int) - 1) 0 * i := Int.mul_nonneg (Int.le_max_right _ _) hi
  unfold spread
  omega

/-- A gap between what has gaps already comes after each element and after each place of its gap. -/
theorem spread_spread (hi : 0 ≤ i) :
    spread (spread n i).toNat j = spread n ((i + 1) * (j + 1) - 1) := by
  have hle := le_spread n hi
  have hnat : ((spread n i).toNat : Int) = spread n i := Int.toNat_of_nonneg (by omega)
  rw [spread, hnat]
  cases n with
  | zero => simp [spread]
  | succ n =>
    have hmax : max (((n + 1 : Nat) : Int) - 1) 0 = n := by omega
    have hneighbors : max (spread (n + 1) i - 1) 0 = n + n * i := by
      rw [Int.max_eq_left (by omega), spread, hmax]
      push_cast
      ring
    rw [hneighbors, spread, spread, hmax]
    push_cast
    ring

end Spread

namespace PaddedAxis

variable {a : PaddedAxis} {n : Nat} {low high : Int}

/-- The extent after the pad, which is negative where more is taken away than there is. -/
def padded (a : PaddedAxis) : Int :=
  a.low + a.high + spread a.extent a.interior

/-- Nothing negative is asked for and nothing negative is left, and the numbers on the way are
offsets. -/
structure Accepted (a : PaddedAxis) : Prop where
  interior : 0 ≤ a.interior
  edges : InLimits (a.low + a.high)
  raised : InLimits (a.low + a.high + a.extent)
  gaps : InLimits (spread a.extent a.interior - a.extent)
  nonneg : 0 ≤ a.padded
  limit : a.padded < Offset.limit

theorem paddedExtent_eq_ok_of_axis {axis : Nat} (h : (a.extent : Int) < Offset.limit) :
    paddedExtent axis a.extent a.low a.high a.interior = .ok n ↔
      a.Accepted ∧ a.padded.toNat = n := by
  have hgaps : max ((a.extent : Int) - 1) 0 * a.interior =
      spread a.extent a.interior - a.extent := by
    rw [spread]
    ring
  have hpadded : a.low + a.high + a.extent + (spread a.extent a.interior - a.extent) =
      a.padded := by
    rw [padded]
    ring
  rw [paddedExtent_eq_ok h, hgaps, hpadded]
  constructor
  · rintro ⟨hinterior, hedges, hraised, hgaps, hnonneg, hlimit, hn⟩
    exact ⟨⟨hinterior, hedges, hraised, hgaps, hnonneg, hlimit⟩, hn⟩
  · rintro ⟨⟨hinterior, hedges, hraised, hgaps, hnonneg, hlimit⟩, hn⟩
    exact ⟨hinterior, hedges, hraised, hgaps, hnonneg, hlimit, hn⟩

/-- A pad of what the pad makes, without gaps. -/
def again (a : PaddedAxis) (low high : Int) : PaddedAxis where
  extent := a.padded.toNat
  low := low
  high := high
  interior := 0

/-- The pad with more on its edges. -/
def widen (a : PaddedAxis) (low high : Int) : PaddedAxis :=
  { a with low := a.low + low, high := a.high + high }

theorem padded_again (low high : Int) (h : 0 ≤ a.padded) :
    (a.again low high).padded = (a.widen low high).padded := by
  have hnat : (a.padded.toNat : Int) = a.padded := Int.toNat_of_nonneg h
  simp only [again, widen, padded, spread_zero] at *
  omega

/-- Only the sum of all edges can leave the limits where the second pad is accepted. -/
theorem accepted_again_iff (ha : a.Accepted) (hextent : (a.extent : Int) < Offset.limit)
    (hedges : -Offset.limit ≤ (a.widen low high).low + (a.widen low high).high) :
    (a.again low high).Accepted ↔ (a.widen low high).Accepted := by
  have hpadded := padded_again low high ha.nonneg
  have hle := le_spread a.extent ha.interior
  have hnat : (a.padded.toNat : Int) = a.padded := Int.toNat_of_nonneg ha.nonneg
  obtain ⟨hinterior, _, _, hgaps, hnonneg, hlimit⟩ := ha
  constructor
  · rintro ⟨_, _, _, _, hnonneg', hlimit'⟩
    rw [hpadded] at hnonneg' hlimit'
    refine ⟨hinterior, ?_, ?_, hgaps, hnonneg', hlimit'⟩
    all_goals
      simp only [InLimits, widen, padded] at *
      omega
  · rintro ⟨_, _, _, _, hnonneg', hlimit'⟩
    rw [← hpadded] at hnonneg' hlimit'
    refine ⟨Int.le_refl 0, ?_, ?_, ?_, hnonneg', hlimit'⟩
    all_goals
      simp only [InLimits, again, padded, spread_zero] at *
      omega

/-- A pad that only puts gaps between neighbors. -/
theorem accepted_inside_iff {extent : Nat} {interior : Int}
    (hextent : (extent : Int) < Offset.limit) (hinterior : 0 ≤ interior) :
    (PaddedAxis.mk extent 0 0 interior).Accepted ↔ spread extent interior < Offset.limit := by
  have hle := le_spread extent hinterior
  have hlimit : (0 : Int) < Offset.limit := by decide
  constructor
  · intro h
    simpa [padded] using h.limit
  · intro h
    refine ⟨hinterior, ?_, ?_, ?_, ?_, ?_⟩
    all_goals
      simp only [InLimits, padded] at *
      omega

end PaddedAxis

/-! ## Shapes -/

/-- Nothing on any axis. -/
abbrev zeros (extents : List Nat) : List Int :=
  List.replicate extents.length 0

/-- The axes of a pad. -/
def paddedAxes (extents : List Nat) (low high interior : List Int) : List PaddedAxis :=
  axesOf PaddedAxis.mk extents low high interior

/-- The extents after a pad, as far as they are not negative. -/
def paddedExtents (extents : List Nat) (low high interior : List Int) : List Nat :=
  (paddedAxes extents low high interior).map fun a => a.padded.toNat

section Shapes

variable {t : ElementType} {extents : List Nat} {low high interior : List Int} {s : Shape}

@[simp] theorem CoverAxes.length_paddedAxes (h : CoverAxes extents low high interior) :
    (paddedAxes extents low high interior).length = extents.length :=
  h.length_axesOf

@[simp] theorem CoverAxes.length_paddedExtents (h : CoverAxes extents low high interior) :
    (paddedExtents extents low high interior).length = extents.length := by
  rw [paddedExtents, List.length_map, h.length_paddedAxes]

theorem pad_eq_ok (hextents : ∀ n ∈ extents, (n : Int) < Offset.limit) :
    pad (.of t extents) (.scalar t) low high interior = .ok s ↔
      CoverAxes extents low high interior ∧
        (∀ a ∈ paddedAxes extents low high interior, a.Accepted) ∧
        s = .of t (paddedExtents extents low high interior) := by
  have htype : elementType (.of t extents) = .ok t := rfl
  have hscalar : scalarElementType (.scalar t) = .ok t := rfl
  have hcommon : commonElementType (.of t extents) (.scalar t) = .ok t :=
    commonElementType_eq_ok.mpr ⟨rfl, rfl⟩
  have hrule : ∀ a ∈ paddedAxes extents low high interior, ∀ axis n,
      paddedExtent axis a.extent a.low a.high a.interior = .ok n ↔
        a.Accepted ∧ a.padded.toNat = n := by
    intro a ha axis n
    obtain ⟨extent, hextent, _, _, _, _, _, _, rfl⟩ := exists_of_mem_axesOf ha
    exact PaddedAxis.paddedExtent_eq_ok_of_axis (hextents extent hextent)
  simp only [pad, htype, hscalar, hcommon, ok_bind, bind_eq_ok, requireLength_eq_ok, pure_eq_ok,
    Except.ok.injEq]
  constructor
  · rintro ⟨_, hlow, _, hhigh, _, hinterior, dimensions, hdimensions, rfl⟩
    have hcover : CoverAxes extents low high interior := ⟨hlow.symm, hhigh.symm, hinterior.symm⟩
    obtain ⟨haccepted, rfl⟩ := (mapM_axes_eq_ok PaddedAxis.mk _ hcover hrule).mp hdimensions
    exact ⟨hcover, haccepted, rfl⟩
  · rintro ⟨hcover, haccepted, rfl⟩
    exact ⟨(), hcover.first.symm, (), hcover.second.symm, (), hcover.third.symm, _,
      (mapM_axes_eq_ok PaddedAxis.mk _ hcover hrule).mpr ⟨haccepted, rfl⟩, rfl⟩

/-- Accepted pads leave extents that are offsets. -/
theorem lt_of_mem_paddedExtents (h : ∀ a ∈ paddedAxes extents low high interior, a.Accepted) :
    ∀ n ∈ paddedExtents extents low high interior, (n : Int) < Offset.limit := by
  intro n hn
  obtain ⟨a, ha, rfl⟩ := List.mem_map.mp hn
  have hlimit := (h a ha).limit
  have hnonneg := (h a ha).nonneg
  omega

/-! ### More on the edges -/

section Again

variable {low' high' : List Int} (hcover : CoverAxes extents low high interior)
  (hlow : low'.length = extents.length) (hhigh : high'.length = extents.length)

include hcover hlow hhigh

theorem coverAxes_again : CoverAxes (paddedExtents extents low high interior) low' high'
    (zeros extents) := by
  constructor
  · simp [hcover, hlow]
  · simp [hcover, hhigh]
  · simp [hcover]

theorem coverAxes_widen : CoverAxes extents (List.zipWith (· + ·) low low')
    (List.zipWith (· + ·) high high') interior := by
  constructor
  · simp [hcover.first, hlow]
  · simp [hcover.second, hhigh]
  · exact hcover.third

/-- Axis by axis, two pads are one pad with more on its edges. -/
theorem axes_again (hextents : ∀ n ∈ extents, (n : Int) < Offset.limit)
    (haccepted : ∀ a ∈ paddedAxes extents low high interior, a.Accepted)
    (hedges : ∀ c ∈ paddedAxes extents (List.zipWith (· + ·) low low')
      (List.zipWith (· + ·) high high') interior, -Offset.limit ≤ c.low + c.high) :
    ((∀ b ∈ paddedAxes (paddedExtents extents low high interior) low' high' (zeros extents),
        b.Accepted) ↔
      ∀ c ∈ paddedAxes extents (List.zipWith (· + ·) low low')
        (List.zipWith (· + ·) high high') interior, c.Accepted) ∧
    paddedExtents (paddedExtents extents low high interior) low' high' (zeros extents) =
      paddedExtents extents (List.zipWith (· + ·) low low')
        (List.zipWith (· + ·) high high') interior := by
  have hagain := coverAxes_again hcover hlow hhigh
  have hwiden := coverAxes_widen hcover hlow hhigh
  refine axes_agree _ _ (by simp [hagain, hwiden, hcover]) ?_
  intro axis hb hc
  have haxis : axis < extents.length := by simpa [hwiden] using hc
  have ha : axis < (paddedAxes extents low high interior).length := by
    simpa [hcover] using haxis
  have hb' :
      (paddedAxes (paddedExtents extents low high interior) low' high' (zeros extents))[axis] =
      (paddedAxes extents low high interior)[axis].again low'[axis] high'[axis] := by
    simp [paddedAxes, paddedExtents, axesOf, PaddedAxis.again]
  have hc' : (paddedAxes extents (List.zipWith (· + ·) low low')
      (List.zipWith (· + ·) high high') interior)[axis] =
      (paddedAxes extents low high interior)[axis].widen low'[axis] high'[axis] := by
    simp [paddedAxes, axesOf, PaddedAxis.widen]
  have hread : ((paddedAxes extents low high interior)[axis].extent : Int) < Offset.limit := by
    simpa [paddedAxes, axesOf] using hextents _ (List.getElem_mem haxis)
  have hpass := haccepted _ (List.getElem_mem ha)
  have hsum := hedges _ (List.getElem_mem hc)
  rw [hb', hc'] at *
  exact ⟨PaddedAxis.accepted_again_iff hpass hread hsum,
    congrArg Int.toNat (PaddedAxis.padded_again _ _ hpass.nonneg)⟩

end Again

theorem pad_again {low' high' : List Int} {padded : Shape}
    (hextents : ∀ n ∈ extents, (n : Int) < Offset.limit)
    (h : pad (.of t extents) (.scalar t) low high interior = .ok padded)
    (hlow : low'.length = extents.length) (hhigh : high'.length = extents.length)
    (hedges : ∀ c ∈ paddedAxes extents (List.zipWith (· + ·) low low')
      (List.zipWith (· + ·) high high') interior, -Offset.limit ≤ c.low + c.high) :
    pad padded (.scalar t) low' high' (zeros extents) = .ok s ↔
      pad (.of t extents) (.scalar t) (List.zipWith (· + ·) low low')
        (List.zipWith (· + ·) high high') interior = .ok s := by
  obtain ⟨hcover, haccepted, rfl⟩ := (pad_eq_ok hextents).mp h
  obtain ⟨hiff, hsizes⟩ := axes_again hcover hlow hhigh hextents haccepted hedges
  rw [pad_eq_ok (lt_of_mem_paddedExtents haccepted), pad_eq_ok hextents, hiff, hsizes]
  simp only [coverAxes_again hcover hlow hhigh, coverAxes_widen hcover hlow hhigh, true_and]

/-! ### Gaps between neighbors -/

/-- The extents with gaps between neighbors. -/
def spreadExtents (extents : List Nat) (interior : List Int) : List Nat :=
  List.zipWith (fun n i => (spread n i).toNat) extents interior

theorem length_spreadExtents (h : interior.length = extents.length) :
    (spreadExtents extents interior).length = extents.length := by
  simp [spreadExtents, h]

/-- Gaps make no extent smaller. -/
theorem lt_of_lt_spreadExtents {bound : Int} (hlength : interior.length = extents.length)
    (hinterior : ∀ i ∈ interior, 0 ≤ i)
    (h : ∀ n ∈ spreadExtents extents interior, (n : Int) < bound) :
    ∀ n ∈ extents, (n : Int) < bound := by
  intro n hn
  obtain ⟨axis, haxis, rfl⟩ := List.mem_iff_getElem.mp hn
  have hle := le_spread extents[axis] (hinterior interior[axis] (List.getElem_mem _))
  have hlt : (spread extents[axis] interior[axis]).toNat < bound :=
    h _ (List.mem_iff_getElem.mpr ⟨axis, by rwa [length_spreadExtents hlength],
      by simp [spreadExtents]⟩)
  omega

/-- A pad that only puts gaps between neighbors is accepted as long as the extents are offsets. -/
theorem pad_inside_eq_ok (hextents : ∀ n ∈ extents, (n : Int) < Offset.limit)
    (hlength : interior.length = extents.length) (hinterior : ∀ i ∈ interior, 0 ≤ i) :
    pad (.of t extents) (.scalar t) (zeros extents) (zeros extents) interior = .ok s ↔
      (∀ n ∈ spreadExtents extents interior, (n : Int) < Offset.limit) ∧
        s = .of t (spreadExtents extents interior) := by
  have hcover : CoverAxes extents (zeros extents) (zeros extents) interior :=
    ⟨by simp, by simp, hlength⟩
  have haxes := axes_agree (P := PaddedAxis.Accepted) (f := fun a => a.padded.toNat)
    (Q := fun (n : Nat) => (n : Int) < Offset.limit) (g := id)
    (paddedAxes extents (zeros extents) (zeros extents) interior)
    (spreadExtents extents interior)
    (by simp [hcover, spreadExtents, hlength]) fun axis ha hb => by
      have haxis : axis < extents.length := by simpa [hcover] using ha
      have hi : 0 ≤ interior[axis] := hinterior _ (List.getElem_mem (hlength ▸ haxis))
      have hnonneg := le_spread extents[axis] hi
      have hinside := PaddedAxis.accepted_inside_iff (hextents _ (List.getElem_mem haxis)) hi
      simp only [paddedAxes, axesOf, spreadExtents, List.getElem_map, List.getElem_zip,
        List.getElem_zipWith, List.getElem_replicate, hinside, PaddedAxis.padded, Int.zero_add,
        Int.toNat_of_nonneg (Int.le_trans (Int.natCast_nonneg _) hnonneg), id_eq, and_self]
  rw [pad_eq_ok hextents, haxes.1, paddedExtents, haxes.2, List.map_id]
  simp only [hcover, true_and]

/-- Without padding nothing changes. -/
theorem pad_nothing (hextents : ∀ n ∈ extents, (n : Int) < Offset.limit) :
    pad (.of t extents) (.scalar t) (zeros extents) (zeros extents) (zeros extents) =
      .ok (.of t extents) := by
  have hsame : spreadExtents extents (zeros extents) = extents :=
    List.ext_getElem (by simp [spreadExtents]) fun axis _ _ => by simp [spreadExtents]
  refine (pad_inside_eq_ok hextents List.length_replicate ?_).mpr ?_
  · intro i hi
    rw [List.eq_of_mem_replicate hi]
  · rw [hsame]
    exact ⟨hextents, rfl⟩

/-- The edges that a pad has added are taken away by the pad with the opposite edges. -/
theorem pad_opposite {padded : Shape} (hextents : ∀ n ∈ extents, (n : Int) < Offset.limit)
    (h : pad (.of t extents) (.scalar t) low high (zeros extents) = .ok padded) :
    pad padded (.scalar t) (low.map (-·)) (high.map (-·)) (zeros extents) =
      .ok (.of t extents) := by
  obtain ⟨hcover, _, _⟩ := (pad_eq_ok hextents).mp h
  have hcancel {ws : List Int} (hws : ws.length = extents.length) :
      List.zipWith (· + ·) ws (ws.map (-·)) = zeros extents :=
    List.ext_getElem (by simp [hws]) fun axis _ _ => by simp
  refine (pad_again hextents h (by simp [hcover.first]) (by simp [hcover.second]) ?_).mpr ?_
  · rw [hcancel hcover.first, hcancel hcover.second]
    intro c hc
    obtain ⟨_, _, _, hl, _, hh, _, _, rfl⟩ := exists_of_mem_axesOf hc
    rw [List.eq_of_mem_replicate hl, List.eq_of_mem_replicate hh]
    show -Offset.limit ≤ 0 + 0
    decide
  · rw [hcancel hcover.first, hcancel hcover.second]
    exact pad_nothing hextents

section Twice

variable {interior' : List Int} (hlength : interior.length = extents.length)
  (hlength' : interior'.length = extents.length) (hinterior : ∀ i ∈ interior, 0 ≤ i)
  (hinterior' : ∀ j ∈ interior', 0 ≤ j)

/-- The gaps that two pads make one after the other. -/
def gapsTwice (interior interior' : List Int) : List Int :=
  List.zipWith (fun i j => (i + 1) * (j + 1) - 1) interior interior'

include hlength hlength' in
theorem length_gapsTwice : (gapsTwice interior interior').length = extents.length := by
  simp [gapsTwice, hlength, hlength']

include hinterior hinterior' in
theorem nonneg_of_mem_gapsTwice : ∀ i ∈ gapsTwice interior interior', 0 ≤ i := by
  intro i hi
  rw [gapsTwice, ← List.map_uncurry_zip_eq_zipWith] at hi
  obtain ⟨⟨i, j⟩, hpair, rfl⟩ := List.mem_map.mp hi
  obtain ⟨hi, hj⟩ := List.of_mem_zip hpair
  have hfirst := hinterior i hi
  have hsecond := hinterior' j hj
  have hmul : 1 ≤ (i + 1) * (j + 1) := Int.mul_pos (by omega) (by omega)
  show 0 ≤ (i + 1) * (j + 1) - 1
  omega

include hlength hlength' hinterior in
theorem spreadExtents_spreadExtents :
    spreadExtents (spreadExtents extents interior) interior' =
      spreadExtents extents (gapsTwice interior interior') := by
  refine List.ext_getElem (by simp [spreadExtents, gapsTwice, hlength, hlength']) fun axis h _ => ?_
  have haxis : axis < interior.length := by
    simp only [spreadExtents, List.length_zipWith] at h
    omega
  simp only [spreadExtents, gapsTwice, List.getElem_zipWith,
    spread_spread (hinterior _ (List.getElem_mem haxis))]

include hlength hlength' hinterior hinterior'

theorem pad_inside_inside (hextents : ∀ n ∈ extents, (n : Int) < Offset.limit) :
    (∃ p, pad (.of t extents) (.scalar t) (zeros extents) (zeros extents) interior = .ok p ∧
      pad p (.scalar t) (zeros extents) (zeros extents) interior' = .ok s) ↔
    pad (.of t extents) (.scalar t) (zeros extents) (zeros extents) (gapsTwice interior interior') =
      .ok s := by
  have hmiddle : interior'.length = (spreadExtents extents interior).length := by
    rw [length_spreadExtents hlength, hlength']
  have hspread : spreadExtents (spreadExtents extents interior) interior' =
      spreadExtents extents (gapsTwice interior interior') :=
    spreadExtents_spreadExtents hlength hlength' hinterior
  have hsecond (hlt : ∀ n ∈ spreadExtents extents interior, (n : Int) < Offset.limit) :
      pad (.of t (spreadExtents extents interior)) (.scalar t) (zeros extents)
          (zeros extents) interior' = .ok s ↔
        (∀ n ∈ spreadExtents extents (gapsTwice interior interior'), (n : Int) < Offset.limit) ∧
          s = .of t (spreadExtents extents (gapsTwice interior interior')) := by
    rw [← hspread, ← pad_inside_eq_ok hlt hmiddle hinterior', zeros, zeros,
      length_spreadExtents hlength]
  rw [pad_inside_eq_ok hextents (length_gapsTwice hlength hlength')
    (nonneg_of_mem_gapsTwice hinterior hinterior')]
  constructor
  · rintro ⟨p, hp, hs⟩
    obtain ⟨hlt, rfl⟩ := (pad_inside_eq_ok hextents hlength hinterior).mp hp
    exact (hsecond hlt).mp hs
  · intro h
    -- what fits after both pads fits after the first one
    have hlt : ∀ n ∈ spreadExtents extents interior, (n : Int) < Offset.limit :=
      lt_of_lt_spreadExtents hmiddle hinterior' (hspread ▸ h.1)
    exact ⟨_, (pad_inside_eq_ok hextents hlength hinterior).mpr ⟨hlt, rfl⟩, (hsecond hlt).mpr h⟩

end Twice

/-! ## Two pads -/

/-- A pad is accepted when each of its axes is, and leaves their padded extents.  A pad without gaps
after another pad is one pad with the sums of the edges, as long as these sums are offsets, so that
the opposite edges restore the shape.  Gaps made twice are gaps made once, and accepted as long as
the extents with all gaps are offsets. -/
theorem pads_combine (t : ElementType) (extents : List Nat)
    (hextents : ∀ n ∈ extents, (n : Int) < Offset.limit) :
    (∀ low high interior s, pad (.of t extents) (.scalar t) low high interior = .ok s ↔
      CoverAxes extents low high interior ∧
        (∀ a ∈ paddedAxes extents low high interior, a.Accepted) ∧
        s = .of t (paddedExtents extents low high interior)) ∧
    (∀ low high interior padded,
      pad (.of t extents) (.scalar t) low high interior = .ok padded →
      ∀ low' high', low'.length = extents.length → high'.length = extents.length →
        (∀ c ∈ paddedAxes extents (List.zipWith (· + ·) low low')
          (List.zipWith (· + ·) high high') interior, -Offset.limit ≤ c.low + c.high) →
        ∀ s, pad padded (.scalar t) low' high' (zeros extents) = .ok s ↔
          pad (.of t extents) (.scalar t) (List.zipWith (· + ·) low low')
            (List.zipWith (· + ·) high high') interior = .ok s) ∧
    (∀ low high padded, pad (.of t extents) (.scalar t) low high (zeros extents) = .ok padded →
      pad padded (.scalar t) (low.map (-·)) (high.map (-·)) (zeros extents) =
        .ok (.of t extents)) ∧
    ∀ interior interior', interior.length = extents.length → interior'.length = extents.length →
      (∀ i ∈ interior, 0 ≤ i) → (∀ j ∈ interior', 0 ≤ j) →
      (∀ s, (∃ p, pad (.of t extents) (.scalar t) (zeros extents) (zeros extents) interior = .ok p ∧
          pad p (.scalar t) (zeros extents) (zeros extents) interior' = .ok s) ↔
        pad (.of t extents) (.scalar t) (zeros extents) (zeros extents)
          (gapsTwice interior interior') = .ok s) ∧
      ((∀ n ∈ spreadExtents extents (gapsTwice interior interior'), (n : Int) < Offset.limit) →
        pad (.of t extents) (.scalar t) (zeros extents) (zeros extents)
          (gapsTwice interior interior') =
            .ok (.of t (spreadExtents extents (gapsTwice interior interior')))) := by
  refine ⟨fun low high interior s => pad_eq_ok hextents, ?_,
    fun low high padded h => pad_opposite hextents h, ?_⟩
  · intro low high interior padded h low' high' hlow hhigh hedges s
    exact pad_again hextents h hlow hhigh hedges
  · intro interior interior' hlength hlength' hinterior hinterior'
    have hgaps := length_gapsTwice hlength hlength'
    have hnonneg := nonneg_of_mem_gapsTwice hinterior hinterior'
    exact ⟨fun s => pad_inside_inside hlength hlength' hinterior hinterior' hextents,
      fun hlt => (pad_inside_eq_ok hextents hgaps hnonneg).mpr ⟨hlt, rfl⟩⟩

/-- An axis without elements, one with a single element and a longer one, first with edges taken
away and then with gaps. -/
theorem pads_combine_three_axes :
    let operand := Shape.of (.real .f32) [0, 1, 5]
    let value := Shape.scalar (.real .f32)
    (∀ n ∈ [0, 1, 5], ((n : Nat) : Int) < Offset.limit) ∧
      pad operand value [3, -1, -2] [0, 4, 1] [2, 0, 1] = .ok (.of (.real .f32) [3, 4, 8]) ∧
      pad (.of (.real .f32) [3, 4, 8]) value [-1, 2, 0] [1, -3, -4] [0, 0, 0] =
        .ok (.of (.real .f32) [3, 3, 4]) ∧
      pad operand value [2, 1, -2] [1, 1, -3] [2, 0, 1] = .ok (.of (.real .f32) [3, 3, 4]) ∧
      pad operand value [0, 0, 0] [0, 0, 0] [1, 4, 2] = .ok (.of (.real .f32) [0, 1, 13]) ∧
      pad (.of (.real .f32) [0, 1, 13]) value [0, 0, 0] [0, 0, 0] [3, 1, 1] =
        .ok (.of (.real .f32) [0, 1, 25]) ∧
      pad operand value [0, 0, 0] [0, 0, 0] [7, 9, 5] = .ok (.of (.real .f32) [0, 1, 25]) := by
  intro operand value
  have hextents : ∀ n ∈ [0, 1, 5], ((n : Nat) : Int) < Offset.limit := by decide
  obtain ⟨_, hagain, _, hinside⟩ := pads_combine (.real .f32) [0, 1, 5] hextents
  have hfirst : pad operand value [3, -1, -2] [0, 4, 1] [2, 0, 1] =
      .ok (.of (.real .f32) [3, 4, 8]) := by decide
  have hsecond : pad (.of (.real .f32) [3, 4, 8]) value [-1, 2, 0] [1, -3, -4] [0, 0, 0] =
      .ok (.of (.real .f32) [3, 3, 4]) := by decide
  have hgaps : pad operand value [0, 0, 0] [0, 0, 0] [1, 4, 2] =
      .ok (.of (.real .f32) [0, 1, 13]) := by decide
  have hgaps' : pad (.of (.real .f32) [0, 1, 13]) value [0, 0, 0] [0, 0, 0] [3, 1, 1] =
      .ok (.of (.real .f32) [0, 1, 25]) := by decide
  have hwide := (hagain _ _ _ _ hfirst [-1, 2, 0] [1, -3, -4] rfl rfl (by decide) _).mp hsecond
  have htwice := ((hinside [1, 4, 2] [3, 1, 1] rfl rfl (by decide) (by decide)).1 _).mp
    ⟨_, hgaps, hgaps'⟩
  exact ⟨hextents, hfirst, hsecond, hwide, hgaps, hgaps', htwice⟩

end Shapes

end TensorProgram.Inference
