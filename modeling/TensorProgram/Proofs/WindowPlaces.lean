import TensorProgram.Proofs.Extents

/-!
# Places of a window

A window that moves by its stride stops at the places `0`, `1`, `2` and so on, as long as it does
not reach beyond the padded input.  `WindowedAxis.CountsPlaces` says how many places there are, in
numbers without limits, and `countsPlaces_iff` gives the formula.

`windowedExtent` reads sizes as offsets before it calculates.  A size from `2 ^ 63` on is read as a
negative offset, which is too small by `2 ^ 64`.  There are two stages at which that matters.

* The room beside the window, `WindowedAxis.room`, is the difference of two readings.  It is exact
  when both of them are exact, and also when both are too small: `room_cases`.
* The room is divided by the reading of the stride.  A negative reading is as good as the stride
  itself as long as the window has no second place in either case: `toSize_steps_eq` and
  `toSize_steps_of_le`.

So the answer is the number of places exactly when the window fits and the room and the stride
together are below `2 ^ 64`, `windowedExtent_counts`.  Extents, spans and strides below `2 ^ 63` are
always counted correctly.  If no number on the way leaves the limits of offsets either, a window is
accepted as soon as it slides: `windowedExtent_eq_ok_of_representable`.
-/

namespace TensorProgram.Inference

open Offset (InLimits)

/-! ## Sizes read as offsets -/

namespace Offset

/-- A size below the limit of offsets is read as itself, and any other one as a number that is too
small by the limit of sizes. -/
theorem ofSize_cases {n : Nat} (h : n < Size.limit) :
    (n : Int) < limit ∧ ofSize n = n ∨ limit ≤ n ∧ ofSize n = n - Size.limit := by
  by_cases hn : (n : Int) < limit
  · exact Or.inl ⟨hn, ofSize_eq hn⟩
  · have hmod : (n : Int) % Size.limit = n := Int.emod_eq_of_lt (by omega) (by omega)
    refine Or.inr ⟨by omega, ?_⟩
    rw [ofSize, Int.bmod_def, hmod, if_neg]
    simp only [limit, Size.limit] at *
    omega

/-- A negative offset is read as a size that is too large by the limit of sizes. -/
theorem toSize_of_neg {x : Int} (hneg : x < 0) (hlimit : -limit ≤ x) :
    (toSize x : Int) = x + Size.limit := by
  simp only [toSize, limit, Size.limit] at *
  omega

end Offset

/-! ## Steps of a stride -/

section Steps

variable {room : Int} {stride : Nat}

/-- A stride that is read as a negative number makes steps backwards. -/
theorem tdiv_ofSize_of_le (hstride : Offset.limit ≤ stride) (hlimit : stride < Size.limit)
    (hroom : 0 ≤ room) :
    room.tdiv (Offset.ofSize stride) = -(room / (Size.limit - stride)) := by
  obtain ⟨hlt, _⟩ | ⟨_, hread⟩ := Offset.ofSize_cases hlimit
  · omega
  · have hneg : (stride : Int) - Size.limit = -(Size.limit - stride) := by omega
    rw [hread, hneg, Int.tdiv_neg, Int.tdiv_eq_ediv_of_nonneg hroom]

/-- The steps are counted as they are when the room and the stride are small together. -/
theorem toSize_steps_eq (hpositive : 0 < stride) (hroom : 0 ≤ room) (hlimit : room < Offset.limit)
    (h : room + stride < Size.limit)
    (hsteps : InLimits (room.tdiv (Offset.ofSize stride) + 1)) :
    Offset.toSize (room.tdiv (Offset.ofSize stride) + 1) = (room / stride + 1).toNat := by
  have hquotient : room.tdiv (Offset.ofSize stride) = room / stride := by
    by_cases hstride : (stride : Int) < Offset.limit
    · rw [Offset.ofSize_eq hstride, Int.tdiv_eq_ediv_of_nonneg hroom]
    · have hwrapped : room / (Size.limit - stride) = 0 := Int.ediv_eq_zero_of_lt hroom (by omega)
      have hexact : room / stride = 0 := Int.ediv_eq_zero_of_lt hroom (by omega)
      rw [tdiv_ofSize_of_le (by omega) (by omega) hroom, hwrapped, hexact, Int.neg_zero]
  have hnonneg : 0 ≤ room / stride := Int.ediv_nonneg hroom (by omega)
  rw [hquotient] at hsteps ⊢
  exact Offset.toSize_eq (by omega) hsteps.2

/-- Otherwise there is a step backwards, which leaves no place or more places than there can be. -/
theorem toSize_steps_of_le (hstride : stride < Size.limit) (hroom : 0 ≤ room)
    (hlimit : room < Offset.limit) (h : Size.limit ≤ room + stride) :
    Offset.toSize (room.tdiv (Offset.ofSize stride) + 1) = 0 ∨
      Offset.limit < Offset.toSize (room.tdiv (Offset.ofSize stride) + 1) := by
  have hlimits : (Size.limit : Int) = 2 * Offset.limit := by decide
  rw [tdiv_ofSize_of_le (by omega) hstride hroom]
  have hstep : 1 ≤ room / (Size.limit - stride) :=
    (Int.le_ediv_iff_mul_le (by omega)).mpr (by omega)
  have hle : room / (Size.limit - stride) ≤ room := Int.ediv_le_self _ hroom
  rcases Int.lt_or_eq_of_le hstep with hback | hone
  · refine Or.inr ?_
    rw [Offset.toSize_of_neg (by omega) (by omega)]
    omega
  · refine Or.inl ?_
    rw [← hone]
    rfl

/-- A room that has lost the limit of sizes is not enough for all the places. -/
theorem toSize_steps_ne (hpositive : 0 < stride) (hstride : stride < Size.limit) (hroom : 0 ≤ room)
    (hlimit : room < Offset.limit)
    (hsteps : InLimits (room.tdiv (Offset.ofSize stride) + 1)) {n : Nat} (hn : 1 ≤ n)
    (h : n = ((room + Size.limit) / stride + 1).toNat) :
    Offset.toSize (room.tdiv (Offset.ofSize stride) + 1) ≠ n := by
  by_cases hsmall : room + stride < Size.limit
  · -- what is lost holds at least one more place
    have hmore : room / stride + 1 ≤ (room + Size.limit) / stride := by
      have hmul := Int.ediv_mul_le room (show (stride : Int) ≠ 0 by omega)
      rw [Int.le_ediv_iff_mul_le (by omega), Int.add_mul, Int.one_mul]
      omega
    have hnonneg : 0 ≤ room / stride := Int.ediv_nonneg hroom (by omega)
    rw [toSize_steps_eq hpositive hroom hlimit hsmall hsteps]
    omega
  · have hlimits : (Size.limit : Int) = 2 * Offset.limit := by decide
    have hfew : (room + Size.limit) / stride < 3 :=
      Int.ediv_lt_of_lt_mul (by omega) (by omega)
    have hfour : 4 ≤ Offset.limit := by decide
    have hanswer := toSize_steps_of_le hstride hroom hlimit (by omega)
    omega

end Steps

/-! ## Places -/

namespace WindowedAxis

variable {a : WindowedAxis} {n : Nat}

/-- There are `n` places: after `j` steps of the stride the window still ends within the padded
input for `j` below `n`, and for no other `j`. -/
def CountsPlaces (a : WindowedAxis) (n : Nat) : Prop :=
  ∀ j : Nat, (j : Int) * a.stride + a.span ≤ a.padded ↔ j < n

theorem countsPlaces_iff (hstride : 0 < a.stride) :
    a.CountsPlaces n ↔ n = ((a.padded - a.span) / a.stride + 1).toNat := by
  have hplace (j : Nat) : (j : Int) * a.stride + a.span ≤ a.padded ↔
      j < ((a.padded - a.span) / a.stride + 1).toNat := by
    have hquotient : (j : Int) ≤ (a.padded - a.span) / a.stride ↔
        (j : Int) * a.stride ≤ a.padded - a.span :=
      Int.le_ediv_iff_mul_le (by omega)
    omega
  simp only [CountsPlaces, hplace]
  constructor
  · intro h
    have hn := h n
    have hm := h ((a.padded - a.span) / a.stride + 1).toNat
    omega
  · intro h j
    rw [h]

/-- What the padded input has beside the window, by the offsets that the sizes are read as. -/
def room (a : WindowedAxis) : Int :=
  Offset.ofSize (dilatedExtent a.extent a.baseDilation) + a.low + a.high - Offset.ofSize a.span

/-- The room is exact when the input and the window are read alike. -/
theorem room_cases (hinput : dilatedExtent a.extent a.baseDilation < Size.limit)
    (hspan : a.span < Size.limit) :
    a.room = a.padded - a.span ∨ a.room = a.padded - a.span - Size.limit ∨
      a.room = a.padded - a.span + Size.limit := by
  unfold room padded
  rcases Offset.ofSize_cases hinput with ⟨_, hx⟩ | ⟨_, hx⟩
  · rcases Offset.ofSize_cases hspan with ⟨_, hw⟩ | ⟨_, hw⟩
    · omega
    · omega
  · rcases Offset.ofSize_cases hspan with ⟨_, hw⟩ | ⟨_, hw⟩
    · omega
    · omega

/-- The window has parameters other than zero and fits into the padded input. -/
def Slides (a : WindowedAxis) : Prop :=
  a.Positive ∧ a.span ≤ a.padded

/-- All numbers on the way are within the limits of offsets. -/
structure Representable (a : WindowedAxis) : Prop where
  input : (dilatedExtent a.extent a.baseDilation : Int) < Offset.limit
  span : (a.span : Int) < Offset.limit
  stride : (a.stride : Int) < Offset.limit
  raised : InLimits (dilatedExtent a.extent a.baseDilation + a.low)
  padded : InLimits a.padded

end WindowedAxis

theorem windowedExtent_eq_ok_of_representable {a : WindowedAxis} {axis n : Nat}
    (h : a.Representable) : windowedExtent axis a = .ok n ↔ a.Slides ∧ a.CountsPlaces n := by
  rw [windowedExtent_eq_ok h.input h.span h.stride, WindowedAxis.Slides, and_assoc]
  constructor
  · intro haccepted
    obtain ⟨hpositive, _, _, hfits, hn⟩ := haccepted
    exact ⟨hpositive, hfits, (WindowedAxis.countsPlaces_iff hpositive.2.1).mpr hn.symm⟩
  · intro hslides
    obtain ⟨hpositive, hfits, hcounts⟩ := hslides
    exact ⟨hpositive, h.raised, h.padded, hfits,
      ((WindowedAxis.countsPlaces_iff hpositive.2.1).mp hcounts).symm⟩

section Accepted

variable {a : WindowedAxis} {axis n : Nat}

/-- What is known of a window that is accepted. -/
structure AcceptedWindow (a : WindowedAxis) (n : Nat) : Prop where
  positive : a.Positive
  input : dilatedExtent a.extent a.baseDilation < Size.limit
  span : a.span < Size.limit
  room_nonneg : 0 ≤ a.room
  room_lt : a.room < Offset.limit
  steps : InLimits (a.room.tdiv (Offset.ofSize a.stride) + 1)
  answer : Offset.toSize (a.room.tdiv (Offset.ofSize a.stride) + 1) = n

theorem acceptedWindow_of_windowedExtent (h : windowedExtent axis a = .ok n) :
    AcceptedWindow a n := by
  simp only [windowedExtent, bind_eq_ok, require_eq_ok, dilatedInput_eq_ok_iff, Offset.add,
    Offset.sub, Offset.bounded_eq_ok, pure_eq_ok, Except.ok.injEq, Bool.and_eq_true, bne_iff_ne,
    decide_eq_true_eq] at h
  obtain ⟨_, ⟨⟨⟨hwindow, hstride⟩, hbase⟩, hdilation⟩, _, ⟨hinput, rfl⟩, _, hwindowed, _,
    ⟨_, rfl⟩, _, ⟨_, rfl⟩, _, hle, _, ⟨hroom, rfl⟩, steps, hdiv, _, ⟨hsteps, rfl⟩, hn⟩ := h
  obtain ⟨hspan, rfl⟩ := (dilated_eq_ok_iff hwindow).mp hwindowed
  unfold Offset.div at hdiv
  split_ifs at hdiv
  obtain ⟨_, rfl⟩ := Offset.bounded_eq_ok.mp hdiv
  exact ⟨⟨by omega, by omega, by omega, by omega⟩, hinput, hspan, Int.sub_nonneg.mpr hle, hroom.2,
    hsteps, hn⟩

/-- The number of places is found when the window fits and the room and the stride are small
together. -/
theorem AcceptedWindow.counts (h : AcceptedWindow a n) (hfits : a.span ≤ a.padded)
    (hsmall : a.padded - a.span + a.stride < Size.limit) :
    a.CountsPlaces n ∧ 1 ≤ n ∧ (n : Int) ≤ a.padded := by
  have hroom_nonneg := h.room_nonneg
  have hroom_lt := h.room_lt
  have hlimits : (Size.limit : Int) = 2 * Offset.limit := by decide
  have hroom : a.room = a.padded - a.span := by
    rcases WindowedAxis.room_cases h.input h.span with hroom | hroom | hroom
    · exact hroom
    · omega
    · omega
  have hanswer := h.answer
  rw [toSize_steps_eq h.positive.2.1 hroom_nonneg hroom_lt (by omega) h.steps, hroom] at hanswer
  have hquotient : (a.padded - a.span) / a.stride ≤ a.padded - a.span :=
    Int.ediv_le_self _ (by omega)
  have hnonneg : 0 ≤ (a.padded - a.span) / a.stride := Int.ediv_nonneg (by omega) (by omega)
  have hspan := a.span_pos h.positive.1
  exact ⟨(WindowedAxis.countsPlaces_iff h.positive.2.1).mpr hanswer.symm, by omega, by omega⟩

/-- Only then is it found. -/
theorem AcceptedWindow.small (h : AcceptedWindow a n) (hstride : a.stride < Size.limit)
    (hcounts : a.CountsPlaces n) (hpos : 1 ≤ n) :
    a.span ≤ a.padded ∧ a.padded - a.span + a.stride < Size.limit := by
  have hroom_nonneg := h.room_nonneg
  have hroom_lt := h.room_lt
  have hlimits : (Size.limit : Int) = 2 * Offset.limit := by decide
  have hpositive := h.positive.2.1
  -- the window has a first place
  have hfits : a.span ≤ a.padded := by
    have := (hcounts 0).mpr hpos
    omega
  have hplaces := (WindowedAxis.countsPlaces_iff hpositive).mp hcounts
  refine ⟨hfits, ?_⟩
  by_contra hlarge
  rcases WindowedAxis.room_cases h.input h.span with hroom | hroom | hroom
  · have hquotient : (a.padded - a.span) / a.stride ≤ a.padded - a.span :=
      Int.ediv_le_self _ (by omega)
    have hanswer := toSize_steps_of_le hstride hroom_nonneg hroom_lt (by omega)
    rw [h.answer] at hanswer
    omega
  · have hexact : a.padded - a.span = a.room + Size.limit := by omega
    rw [hexact] at hplaces
    exact toSize_steps_ne hpositive hstride hroom_nonneg hroom_lt h.steps hpos hplaces h.answer
  · omega

/-- A window that is accepted has the extent that is found for it as the number of its places, which
is positive and at most the padded extent, exactly when the window fits and the room beside it and
the stride are below the limit of sizes together.  That is so when the extents of the dilated input
and the dilated window and the stride are all below the limit of offsets. -/
theorem windowedExtent_counts (hstride : a.stride < Size.limit)
    (h : windowedExtent axis a = .ok n) :
    ((a.CountsPlaces n ∧ 1 ≤ n ∧ (n : Int) ≤ a.padded) ↔
      a.span ≤ a.padded ∧ a.padded - a.span + a.stride < Size.limit) ∧
    ((dilatedExtent a.extent a.baseDilation : Int) < Offset.limit →
      (a.span : Int) < Offset.limit → (a.stride : Int) < Offset.limit →
      a.CountsPlaces n ∧ 1 ≤ n ∧ (n : Int) ≤ a.padded) := by
  have haccepted := acceptedWindow_of_windowedExtent h
  constructor
  · constructor
    · intro hcounted
      exact haccepted.small hstride hcounted.1 hcounted.2.1
    · intro hsmall
      exact haccepted.counts hsmall.1 hsmall.2
  · intro hinput hspan hstride
    have hroom : a.room = a.padded - a.span := by
      rw [WindowedAxis.room, Offset.ofSize_eq hinput, Offset.ofSize_eq hspan]
      rfl
    have hlimits : (Size.limit : Int) = 2 * Offset.limit := by decide
    have hroom_nonneg := haccepted.room_nonneg
    have hroom_lt := haccepted.room_lt
    exact haccepted.counts (by omega) (by omega)

/-- An input and a window that are both too large for an offset, with five elements between them. -/
theorem windowedExtent_counts_beyond :
    let a : WindowedAxis :=
      { extent := 0x800000000000000A, window := 0x8000000000000005, stride := 2,
        baseDilation := 1, windowDilation := 1, low := 0, high := 0 }
    a.stride < Size.limit ∧ windowedExtent 0 a = .ok 3 ∧ a.CountsPlaces 3 ∧
      (3 : Int) ≤ a.padded := by
  intro a
  have hstride : a.stride < Size.limit := by decide
  have hextent : windowedExtent 0 a = .ok 3 := by decide
  obtain ⟨hplaces, _, hle⟩ := (windowedExtent_counts hstride hextent).1.mpr (by decide)
  exact ⟨hstride, hextent, hplaces, hle⟩

/-- The largest stride is read as one step backwards, so that more places are counted than there are
elements.  The largest window is read as one of negative extent, which fits everywhere. -/
theorem places_miscounted :
    let a : WindowedAxis :=
      { extent := 10, window := 3, stride := 0xFFFFFFFFFFFFFFFF, baseDilation := 1,
        windowDilation := 1, low := 0, high := 0 }
    let b : WindowedAxis := { a with window := 0xFFFFFFFFFFFFFFFF, stride := 1 }
    (windowedExtent 0 a = .ok 18446744073709551610 ∧ a.CountsPlaces 1 ∧
      ¬a.CountsPlaces 18446744073709551610) ∧
    windowedExtent 0 b = .ok 12 ∧ b.CountsPlaces 0 ∧ ¬b.CountsPlaces 12 := by
  intro a b
  have ha (n : Nat) := WindowedAxis.countsPlaces_iff (a := a) (n := n) (by decide)
  have hb (n : Nat) := WindowedAxis.countsPlaces_iff (a := b) (n := n) (by decide)
  rw [ha, ha, hb, hb]
  decide

end Accepted

end TensorProgram.Inference
