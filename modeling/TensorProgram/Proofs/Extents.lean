import Mathlib.Tactic.Ring
import TensorProgram.Inference.Layout
import TensorProgram.Inference.WindowedAxis
import TensorProgram.Proofs.ReplicaGroups

/-!
# Extents as exact numbers

What a window, a pad and a slice make of the extent of one axis, as numbers without limits.  The
rules of inference compute the same numbers with checks for overflow, and each of them has an exact
condition for success: `windowedExtent_eq_ok`, `paddedExtent_eq_ok` and `slicedExtent_eq_ok`.
-/

namespace TensorProgram.Inference

open ShapeError (Cause)

/-! ## Numbers within the limits -/

namespace Size

theorem bounded_eq_ok {operation : Arithmetic} {m n : Nat} :
    bounded operation m = .ok n ↔ m < limit ∧ m = n := by
  unfold bounded
  split_ifs with h
  · simp [h]
  · simp [h]

theorem add_overflows_iff {m n : Nat} :
    add m n = .error (.fault (.overflow .add)) ↔ limit ≤ m + n := by
  unfold add bounded
  split_ifs with h
  · simp [h]
  · simpa using h

theorem sub_eq_ok {m n k : Nat} : sub m n = .ok k ↔ n ≤ m ∧ m - n = k := by
  unfold sub
  split_ifs with h
  · simp [h]
  · simp [h]

theorem div_eq_ok {m n k : Nat} : div m n = .ok k ↔ n ≠ 0 ∧ m / n = k := by
  unfold div
  split_ifs with h
  · simp [h]
  · simp [h]

theorem mod_eq_ok {m n k : Nat} : mod m n = .ok k ↔ n ≠ 0 ∧ m % n = k := by
  unfold mod
  split_ifs with h
  · simp [h]
  · simp [h]

end Size

namespace Offset

/-- The number is within the limits of offsets. -/
def InLimits (x : Int) : Prop :=
  -limit ≤ x ∧ x < limit

instance (x : Int) : Decidable (InLimits x) :=
  inferInstanceAs (Decidable (_ ∧ _))

theorem bounded_eq_ok {operation : Arithmetic} {x y : Int} :
    bounded operation x = .ok y ↔ InLimits x ∧ x = y := by
  unfold bounded
  split_ifs with h
  · simp [InLimits, h]
  · simp [InLimits, h]

theorem toSize_eq {x : Int} (hzero : 0 ≤ x) (hlimit : x < limit) : toSize x = x.toNat := by
  have hle : limit ≤ Size.limit := by decide
  rw [toSize, Int.emod_eq_of_lt hzero (by omega)]

theorem ofSize_lt (n : Nat) : ofSize n < limit :=
  Int.bmod_lt (by decide)

/-- A quotient is no larger than a dividend that is not negative, so it never overflows. -/
theorem div_of_nonneg {x y : Int} (hy : y ≠ 0) (hzero : 0 ≤ x) (hlimit : x < limit) :
    div x y = .ok (x / y) := by
  rw [div, if_neg hy, Int.tdiv_eq_ediv_of_nonneg hzero, bounded_eq_ok, and_iff_left rfl]
  have hle : (x / y).natAbs ≤ x.natAbs := by
    rw [← Int.tdiv_eq_ediv_of_nonneg hzero]
    exact Int.natAbs_tdiv_le_natAbs x y
  exact ⟨by omega, by omega⟩

/-- The quotient by a stride, of a number that is not negative. -/
theorem div_ofSize_eq_ok {x y : Int} {stride : Nat} (hstride : (stride : Int) < limit)
    (hpositive : 0 < stride) (hzero : 0 ≤ x) (hlimit : x < limit) :
    div x (ofSize stride) = .ok y ↔ x / stride = y := by
  rw [ofSize_eq hstride, div_of_nonneg (by omega) hzero hlimit, Except.ok.injEq]

end Offset

open Offset (InLimits)

/-! ## Windows -/

/-- The extent of `n` elements when each has `dilation - 1` gaps after it, the last one
excepted. -/
def dilatedExtent (n dilation : Nat) : Nat :=
  if n = 0 then 0 else (n - 1) * dilation + 1

@[simp] theorem dilatedExtent_one (n : Nat) : dilatedExtent n 1 = n := by
  unfold dilatedExtent
  split_ifs with h
  · exact h.symm
  · omega

/-- The gaps after the first elements stand for the elements that the dilation adds. -/
theorem dilatedExtent_eq_add (n dilation : Nat) :
    (dilatedExtent n dilation : Int) = n + max ((n : Int) - 1) 0 * (dilation - 1) := by
  cases n with
  | zero => simp [dilatedExtent]
  | succ n =>
    have hmax : max (((n + 1 : Nat) : Int) - 1) 0 = n := by omega
    rw [hmax, dilatedExtent, if_neg n.succ_ne_zero]
    push_cast
    ring

/-- More elements take more room. -/
theorem dilatedExtent_injective {m n dilation : Nat} (hpositive : 0 < dilation)
    (h : dilatedExtent m dilation = dilatedExtent n dilation) : m = n := by
  have hlt {i j : Nat} (hij : i < j) : dilatedExtent i dilation < dilatedExtent j dilation := by
    unfold dilatedExtent
    rw [if_neg (by omega : j ≠ 0)]
    split_ifs with hi
    · omega
    · have := Nat.mul_lt_mul_of_pos_right (by omega : i - 1 < j - 1) hpositive
      omega
  rcases Nat.lt_trichotomy m n with hmn | hmn | hmn
  · exact absurd h (hlt hmn).ne
  · exact hmn
  · exact absurd h.symm (hlt hmn).ne

/-- The dilated extent is found when it is a size, and is read as an offset. -/
theorem dilated_eq_ok_iff {n dilation : Nat} {x : Int} (hn : n ≠ 0) :
    dilated n dilation = .ok x ↔
      dilatedExtent n dilation < Size.limit ∧ Offset.ofSize (dilatedExtent n dilation) = x := by
  have hlast : 1 ≤ n := Nat.pos_of_ne_zero hn
  simp only [dilated, dilatedExtent, if_neg hn, Size.mul, Size.add, bind_eq_ok, Size.sub_eq_ok,
    Size.bounded_eq_ok, pure_eq_ok, Except.ok.injEq]
  constructor
  · intro h
    obtain ⟨_, ⟨_, rfl⟩, _, ⟨_, rfl⟩, _, ⟨hlimit, rfl⟩, hx⟩ := h
    exact ⟨hlimit, hx⟩
  · intro h
    exact ⟨n - 1, ⟨hlast, rfl⟩, _, ⟨by omega, rfl⟩, _, ⟨h.1, rfl⟩, h.2⟩

theorem dilated_eq_ok {n dilation : Nat} {x : Int} (hn : n ≠ 0)
    (h : (dilatedExtent n dilation : Int) < Offset.limit) :
    dilated n dilation = .ok x ↔ (dilatedExtent n dilation : Int) = x := by
  have hle : Offset.limit ≤ Size.limit := by decide
  have hlimit : dilatedExtent n dilation < Size.limit := by omega
  rw [dilated_eq_ok_iff hn, and_iff_right hlimit, Offset.ofSize_eq h]

/-- An input without elements has the extent zero, which is always found. -/
theorem dilatedInput_eq_ok_iff {n dilation : Nat} {x : Int} :
    dilatedInput n dilation = .ok x ↔
      dilatedExtent n dilation < Size.limit ∧ Offset.ofSize (dilatedExtent n dilation) = x := by
  unfold dilatedInput
  split_ifs with hn
  · have hlimit : 0 < Size.limit := by decide
    rw [Except.ok.injEq, dilatedExtent, if_pos hn, and_iff_right hlimit]
    rfl
  · exact dilated_eq_ok_iff hn

theorem dilatedInput_eq_ok {n dilation : Nat} {x : Int}
    (h : (dilatedExtent n dilation : Int) < Offset.limit) :
    dilatedInput n dilation = .ok x ↔ (dilatedExtent n dilation : Int) = x := by
  have hle : Offset.limit ≤ Size.limit := by decide
  have hlimit : dilatedExtent n dilation < Size.limit := by omega
  rw [dilatedInput_eq_ok_iff, and_iff_right hlimit, Offset.ofSize_eq h]

namespace WindowedAxis

/-- The extent of the dilated and padded input. -/
def padded (a : WindowedAxis) : Int :=
  dilatedExtent a.extent a.baseDilation + a.low + a.high

/-- The extent of the dilated window. -/
def span (a : WindowedAxis) : Nat :=
  dilatedExtent a.window a.windowDilation

theorem span_pos (a : WindowedAxis) (h : 0 < a.window) : 0 < a.span := by
  unfold span dilatedExtent
  rw [if_neg (by omega)]
  exact Nat.succ_pos _

/-- No parameter of the window is zero. -/
def Positive (a : WindowedAxis) : Prop :=
  0 < a.window ∧ 0 < a.stride ∧ 0 < a.baseDilation ∧ 0 < a.windowDilation

end WindowedAxis

theorem windowedExtent_eq_ok {axis : Nat} {a : WindowedAxis} {n : Nat}
    (hinput : (dilatedExtent a.extent a.baseDilation : Int) < Offset.limit)
    (hspan : (a.span : Int) < Offset.limit) (hstride : (a.stride : Int) < Offset.limit) :
    windowedExtent axis a = .ok n ↔
      a.Positive ∧ InLimits (dilatedExtent a.extent a.baseDilation + a.low) ∧ InLimits a.padded ∧
        a.span ≤ a.padded ∧ ((a.padded - a.span) / a.stride + 1).toNat = n := by
  have hwindowed (hwindow : a.window ≠ 0) {x : Int} :
      dilated a.window a.windowDilation = .ok x ↔ (a.span : Int) = x :=
    dilated_eq_ok hwindow hspan
  simp only [windowedExtent, bind_eq_ok, require_eq_ok, dilatedInput_eq_ok hinput, Offset.add,
    Offset.sub, Offset.bounded_eq_ok, pure_eq_ok, Except.ok.injEq, Bool.and_eq_true, bne_iff_ne,
    decide_eq_true_eq]
  constructor
  · rintro ⟨_, ⟨⟨⟨hwindow, hpositive⟩, hbase⟩, hdilation⟩, _, rfl, _, hwindowed', _, ⟨hlow, rfl⟩, _,
      ⟨hpadded, rfl⟩, _, hle, _, ⟨hroom, rfl⟩, steps, hsteps, _, ⟨hcount, rfl⟩, rfl⟩
    obtain rfl := (hwindowed hwindow).mp hwindowed'
    have hpositive : 0 < a.stride := Nat.pos_of_ne_zero hpositive
    rw [Offset.div_ofSize_eq_ok hstride hpositive (by omega) hroom.2] at hsteps
    obtain rfl := hsteps
    have hnonneg := Int.ediv_nonneg (Int.sub_nonneg.mpr hle) (Int.natCast_nonneg a.stride)
    refine ⟨⟨by omega, hpositive, by omega, by omega⟩, hlow, hpadded, hle, ?_⟩
    rw [Offset.toSize_eq (by omega) hcount.2]
    rfl
  · rintro ⟨⟨hwindow, hpositive, hbase, hdilation⟩, hlow, hpadded, hle, rfl⟩
    have hspan_pos := a.span_pos hwindow
    have hroom : InLimits (a.padded - a.span) := by
      simp only [InLimits, Offset.limit] at *
      omega
    have hquotient := Int.ediv_le_self (a.stride : Int) (Int.sub_nonneg.mpr hle)
    have hnonneg := Int.ediv_nonneg (Int.sub_nonneg.mpr hle) (Int.natCast_nonneg a.stride)
    have hcount : InLimits ((a.padded - a.span) / a.stride + 1) := by
      simp only [InLimits, Offset.limit] at *
      omega
    refine ⟨(), ⟨⟨⟨by omega, by omega⟩, by omega⟩, by omega⟩, _, rfl, _,
      (hwindowed (by omega)).mpr rfl, _, ⟨hlow, rfl⟩, _, ⟨hpadded, rfl⟩, (), hle, _,
      ⟨hroom, rfl⟩, _,
      (Offset.div_ofSize_eq_ok hstride hpositive (Int.sub_nonneg.mpr hle) hroom.2).mpr rfl, _,
      ⟨hcount, rfl⟩, ?_⟩
    rw [Offset.toSize_eq (by omega) hcount.2]

/-! ## Pads and slices -/

theorem paddedExtent_eq_ok {axis extent : Nat} {low high interior : Int} {n : Nat}
    (hextent : (extent : Int) < Offset.limit) :
    paddedExtent axis extent low high interior = .ok n ↔
      0 ≤ interior ∧ InLimits (low + high) ∧ InLimits (low + high + extent) ∧
        InLimits (max ((extent : Int) - 1) 0 * interior) ∧
        0 ≤ low + high + extent + max ((extent : Int) - 1) 0 * interior ∧
        low + high + extent + max ((extent : Int) - 1) 0 * interior < Offset.limit ∧
        (low + high + extent + max ((extent : Int) - 1) 0 * interior).toNat = n := by
  have hpredecessor : InLimits ((extent : Int) - 1) := by
    simp only [InLimits, Offset.limit] at *
    omega
  simp only [paddedExtent, Offset.ofSize_eq hextent, Offset.add, Offset.sub, Offset.mul, bind_eq_ok,
    require_eq_ok, Offset.bounded_eq_ok, pure_eq_ok, Except.ok.injEq, decide_eq_true_eq]
  constructor
  · rintro ⟨_, hinterior, _, ⟨hedges, rfl⟩, _, ⟨hextended, rfl⟩, _, ⟨_, rfl⟩, _, ⟨hgaps, rfl⟩, _,
      ⟨htotal, rfl⟩, _, hnonneg, rfl⟩
    exact ⟨hinterior, hedges, hextended, hgaps, hnonneg, htotal.2,
      (Offset.toSize_eq hnonneg htotal.2).symm⟩
  · rintro ⟨hinterior, hedges, hextended, hgaps, hnonneg, hlimit, rfl⟩
    have htotal : InLimits (low + high + extent + max ((extent : Int) - 1) 0 * interior) :=
      ⟨Int.le_trans (by decide) hnonneg, hlimit⟩
    exact ⟨(), hinterior, _, ⟨hedges, rfl⟩, _, ⟨hextended, rfl⟩, _, ⟨hpredecessor, rfl⟩, _,
      ⟨hgaps, rfl⟩, _, ⟨htotal, rfl⟩, (), hnonneg, Offset.toSize_eq hnonneg hlimit⟩

/-- A slice compares its range with the offset that the extent is read as. -/
theorem slicedExtent_eq_ok_iff {axis extent : Nat} {start limit stride : Int} {n : Nat} :
    slicedExtent axis extent start limit stride = .ok n ↔
      0 < stride ∧ 0 ≤ start ∧ start ≤ limit ∧ limit ≤ Offset.ofSize extent ∧
        limit - start + stride < Offset.limit ∧
        ((limit - start + stride - 1) / stride).toNat = n := by
  simp only [slicedExtent, Offset.add, Offset.sub, bind_eq_ok, require_eq_ok,
    Offset.bounded_eq_ok, pure_eq_ok, Except.ok.injEq, Bool.and_eq_true, decide_eq_true_eq]
  have hread := Offset.ofSize_lt extent
  have hquotient (hstride : 0 < stride) (hrange : start ≤ limit) (m : Nat) :
      limit - start + stride < Offset.limit →
      ((∃ quotient, Offset.div (limit - start + stride - 1) stride = .ok quotient ∧
          Offset.toSize quotient = m) ↔
        ((limit - start + stride - 1) / stride).toNat = m) := by
    intro hlimit
    have hnonneg : 0 ≤ limit - start + stride - 1 := by omega
    have hle := Int.ediv_le_self stride hnonneg
    have hquotient := Int.ediv_nonneg hnonneg hstride.le
    have hcount := Offset.toSize_eq hquotient (by omega)
    rw [Offset.div_of_nonneg hstride.ne' hnonneg (by omega), ← hcount]
    simp
  constructor
  · rintro ⟨_, hstride, _, ⟨⟨hstart, hrange⟩, hwithin⟩, _, ⟨_, rfl⟩, _, ⟨hsum, rfl⟩, _, ⟨_, rfl⟩,
      hcount⟩
    exact ⟨hstride, hstart, hrange, hwithin, hsum.2,
      (hquotient hstride hrange n hsum.2).mp hcount⟩
  · rintro ⟨hstride, hstart, hrange, hwithin, hsum, hcount⟩
    have hspan : InLimits (limit - start) := by
      simp only [InLimits, Offset.limit] at *
      omega
    have hsum' : InLimits (limit - start + stride) := by
      simp only [InLimits, Offset.limit] at *
      omega
    have hrounded : InLimits (limit - start + stride - 1) := by
      simp only [InLimits, Offset.limit] at *
      omega
    exact ⟨(), hstride, (), ⟨⟨hstart, hrange⟩, hwithin⟩, _, ⟨hspan, rfl⟩, _,
      ⟨hsum', rfl⟩, _, ⟨hrounded, rfl⟩, (hquotient hstride hrange n hsum).mpr hcount⟩

theorem slicedExtent_eq_ok {axis extent : Nat} {start limit stride : Int} {n : Nat}
    (hextent : (extent : Int) < Offset.limit) :
    slicedExtent axis extent start limit stride = .ok n ↔
      0 < stride ∧ 0 ≤ start ∧ start ≤ limit ∧ limit ≤ extent ∧
        limit - start + stride < Offset.limit ∧
        ((limit - start + stride - 1) / stride).toNat = n := by
  rw [slicedExtent_eq_ok_iff, Offset.ofSize_eq hextent]

end TensorProgram.Inference
