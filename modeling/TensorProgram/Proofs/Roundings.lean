import Mathlib.Algebra.Order.Field.Power
import Mathlib.Data.Int.Log
import Mathlib.Data.Rat.Floor
import Mathlib.Tactic.FieldSimp
import Mathlib.Tactic.Positivity
import Mathlib.Tactic.Ring
import Mathlib.Tactic.SplitIfs
import TensorProgram.Binary

/-!
# Rounding to a binary format

`RealFormat.nearest` is given a quotient as numerator and denominator, and its result depends on
the quotient alone: `RealFormat.nearest_congr`.  So a decimal is read by its value,
`RealFormat.read_congr`.

The numbers of a format are rounded to themselves, `RealFormat.nearest_decode`.  Hence the decimal
that a finite magnitude is written as reads back to it, `RealFormat.read_shortest`: either the
search for it has tried, or it is the exact value.
-/

namespace TensorProgram

/-! ## Whole numbers -/

theorem roundHalfEven_mul_left {k : Nat} (hk : 0 < k) (num den : Nat) :
    roundHalfEven (k * num) (k * den) = roundHalfEven num den := by
  have hlt (m n : Nat) : 2 * (k * m) < k * n ↔ 2 * m < n := by
    rw [Nat.mul_left_comm, Nat.mul_lt_mul_left hk]
  have hgt (m n : Nat) : k * n < 2 * (k * m) ↔ n < 2 * m := by
    rw [Nat.mul_left_comm, Nat.mul_lt_mul_left hk]
  simp only [roundHalfEven, Nat.mul_div_mul_left _ _ hk, Nat.mul_mod_mul_left, hlt, hgt]

/-- Equal quotients are rounded alike. -/
theorem roundHalfEven_congr {a b c d : Nat} (hb : 0 < b) (hd : 0 < d) (h : a * d = c * b) :
    roundHalfEven a b = roundHalfEven c d := by
  rw [← roundHalfEven_mul_left hd, ← roundHalfEven_mul_left hb c, Nat.mul_comm d a, h,
    Nat.mul_comm c, Nat.mul_comm d]

theorem roundHalfEven_mul_self (n : Nat) {k : Nat} (hk : 0 < k) : roundHalfEven (n * k) k = n := by
  simp [roundHalfEven, Nat.mul_div_cancel _ hk, hk]

/-! ## Powers of two -/

theorem log_eq_of_bounds {q : ℚ} {place : Int} (hq : 0 < q) (hlow : (2 : ℚ) ^ place ≤ q)
    (hhigh : q < (2 : ℚ) ^ (place + 1)) : Int.log 2 q = place := by
  have hle : place ≤ Int.log 2 q := (Int.zpow_le_iff_le_log Nat.one_lt_two hq).mp hlow
  have hlt : Int.log 2 q < place + 1 := (Int.lt_zpow_iff_log_lt Nat.one_lt_two hq).mp hhigh
  omega

theorem zpow_le_div_iff (num : Nat) {den : Nat} (hden : 0 < den) (place : Int) :
    (2 : ℚ) ^ place ≤ num / den ↔
      if 0 ≤ place then den <<< place.toNat ≤ num else den ≤ num <<< (-place).toNat := by
  have hden' : (0 : ℚ) < den := by exact_mod_cast hden
  rw [le_div_iff₀ hden']
  split_ifs with hplace
  · obtain ⟨n, rfl⟩ := Int.eq_ofNat_of_zero_le hplace
    rw [zpow_natCast, Int.toNat_natCast, Nat.shiftLeft_eq, Nat.mul_comm]
    exact_mod_cast Iff.rfl
  · obtain ⟨n, hn⟩ : ∃ n : Nat, place = -n := ⟨(-place).toNat, by omega⟩
    subst hn
    rw [neg_neg, Int.toNat_natCast, Nat.shiftLeft_eq, zpow_neg, zpow_natCast,
      inv_mul_le_iff₀ (by positivity), mul_comm]
    exact_mod_cast Iff.rfl

theorem log2_bounds {n : Nat} (hn : n ≠ 0) :
    (2 : ℚ) ^ n.log2 ≤ n ∧ (n : ℚ) < 2 ^ (n.log2 + 1) :=
  ⟨by exact_mod_cast Nat.log2_self_le hn, by exact_mod_cast Nat.lt_log2_self⟩

/-- The place of a quotient is one of two that are told by the places of its parts. -/
theorem div_bounds {num den : Nat} (hnum : num ≠ 0) (hden : den ≠ 0) :
    (2 : ℚ) ^ ((num.log2 : Int) - den.log2 - 1) ≤ num / den ∧
      (num / den : ℚ) < 2 ^ ((num.log2 : Int) - den.log2 + 1) := by
  obtain ⟨hnumLow, hnumHigh⟩ := log2_bounds hnum
  obtain ⟨hdenLow, hdenHigh⟩ := log2_bounds hden
  have hden' : (0 : ℚ) < den := by exact_mod_cast Nat.pos_of_ne_zero hden
  have hlow : (2 : ℚ) ^ ((num.log2 : Int) - den.log2 - 1) = 2 ^ num.log2 / 2 ^ (den.log2 + 1) := by
    rw [show (num.log2 : Int) - den.log2 - 1 = num.log2 - (den.log2 + 1 : Nat) by push_cast; ring,
      zpow_sub₀ two_ne_zero, zpow_natCast, zpow_natCast]
  have hhigh : (2 : ℚ) ^ ((num.log2 : Int) - den.log2 + 1) = 2 ^ (num.log2 + 1) / 2 ^ den.log2 := by
    rw [show (num.log2 : Int) - den.log2 + 1 = (num.log2 + 1 : Nat) - den.log2 by push_cast; ring,
      zpow_sub₀ two_ne_zero, zpow_natCast, zpow_natCast]
  rw [hlow, hhigh]
  constructor
  · exact div_le_div₀ (by positivity) hnumLow hden' hdenHigh.le
  · exact div_lt_div₀ hnumHigh hdenLow (by positivity) (by positivity)

/-! ## Dyadic numbers and decimals as quotients -/

/-- The number as a rational number. -/
def Dyadic.value (d : Dyadic) : ℚ :=
  d.significand * 2 ^ d.exponent

theorem Dyadic.ratio_pos (d : Dyadic) : 0 < d.ratio.2 := by
  unfold ratio
  split_ifs
  · exact Nat.one_pos
  · rw [Nat.one_shiftLeft]
    exact Nat.two_pow_pos _

theorem Dyadic.ratio_value (d : Dyadic) : (d.ratio.1 : ℚ) / d.ratio.2 = d.value := by
  unfold ratio value
  split_ifs with h
  · obtain ⟨n, hn⟩ := Int.eq_ofNat_of_zero_le h
    simp [hn, Nat.shiftLeft_eq]
  · obtain ⟨n, hn⟩ : ∃ n : Nat, d.exponent = -n := ⟨(-d.exponent).toNat, by omega⟩
    simp [hn, Nat.shiftLeft_eq, div_eq_mul_inv]

theorem Dyadic.log_value {d : Dyadic} (h : d.significand ≠ 0) :
    Int.log 2 d.value = d.significand.log2 + d.exponent := by
  obtain ⟨hlow, hhigh⟩ := log2_bounds h
  have hpow : (0 : ℚ) < 2 ^ d.exponent := by positivity
  have hpos : (0 : ℚ) < d.significand := by exact_mod_cast Nat.pos_of_ne_zero h
  refine log_eq_of_bounds (mul_pos hpos hpow) ?_ ?_
  · rw [zpow_add₀ two_ne_zero, zpow_natCast]
    exact mul_le_mul_of_nonneg_right hlow hpow.le
  · rw [add_right_comm, zpow_add₀ two_ne_zero]
    refine mul_lt_mul_of_pos_right ?_ hpow
    exact_mod_cast hhigh

/-- The number as a rational number. -/
def Decimal.value (d : Decimal) : ℚ :=
  d.digits * 10 ^ d.exponent

theorem Decimal.ratio_pos (d : Decimal) : 0 < d.ratio.2 := by
  unfold ratio scaled
  split_ifs
  · exact Nat.one_pos
  · exact Nat.mul_pos Nat.one_pos (Nat.pow_pos (by decide))

theorem Decimal.scaled_value (num den : Nat) (power : Int) :
    ((scaled num den power).1 : ℚ) / (scaled num den power).2 = num / den * 10 ^ power := by
  unfold scaled
  split_ifs with h
  · obtain ⟨n, rfl⟩ := Int.eq_ofNat_of_zero_le h
    simp [mul_div_right_comm]
  · obtain ⟨n, hn⟩ : ∃ n : Nat, power = -n := ⟨(-power).toNat, by omega⟩
    simp [hn, div_eq_mul_inv, mul_assoc, mul_comm]

theorem Decimal.ratio_value (d : Decimal) : (d.ratio.1 : ℚ) / d.ratio.2 = d.value := by
  rw [ratio, scaled_value, value, Nat.cast_one, div_one]

/-! ## Nearest magnitudes -/

namespace RealFormat

variable {f : RealFormat}

theorem gridExponent_eq {num den : Nat} (hnum : num ≠ 0) (hden : den ≠ 0) :
    f.gridExponent num den = max f.leastExponent (Int.log 2 (num / den : ℚ) - f.fractionBits) := by
  have hpos : (0 : ℚ) < num / den := by positivity
  obtain ⟨hlow, hhigh⟩ := div_bounds hnum hden
  have hplace := zpow_le_div_iff num (Nat.pos_of_ne_zero hden) ((num.log2 : Int) - den.log2)
  unfold gridExponent
  generalize (num.log2 : Int) - den.log2 = place at hlow hhigh hplace ⊢
  have hlog : Int.log 2 (num / den : ℚ) =
      if (2 : ℚ) ^ place ≤ num / den then place else place - 1 := by
    split_ifs with h
    · exact log_eq_of_bounds hpos h hhigh
    · exact log_eq_of_bounds hpos hlow (by rw [sub_add_cancel]; exact not_le.mp h)
  rw [hlog]
  simp only [hplace]
  split_ifs <;> rfl

/-- The nearest magnitude depends on the quotient alone. -/
theorem nearest_congr {a b c d : Nat} (hb : 0 < b) (hd : 0 < d) (h : a * d = c * b) :
    f.nearest a b = f.nearest c d := by
  have hzero : a = 0 ↔ c = 0 := by
    simpa [hb.ne', hd.ne'] using congrArg (· = 0) h
  unfold nearest
  by_cases ha : a = 0
  · rw [if_pos ha, if_pos (hzero.mp ha)]
  · have hc : c ≠ 0 := mt hzero.mpr ha
    have hquotient : (a / b : ℚ) = c / d := by
      rw [div_eq_div_iff (by positivity) (by positivity)]
      exact_mod_cast h
    have hgrid : f.gridExponent a b = f.gridExponent c d := by
      rw [gridExponent_eq ha hb.ne', gridExponent_eq hc hd.ne', hquotient]
    rw [if_neg ha, if_neg hc, hgrid]
    have habove (n : Nat) : roundHalfEven a (b <<< n) = roundHalfEven c (d <<< n) := by
      simp only [Nat.shiftLeft_eq]
      exact roundHalfEven_congr (by positivity) (by positivity)
        (by rw [← Nat.mul_assoc, h, Nat.mul_assoc])
    have hbelow (n : Nat) : roundHalfEven (a <<< n) b = roundHalfEven (c <<< n) d := by
      simp only [Nat.shiftLeft_eq]
      exact roundHalfEven_congr hb hd (by rw [Nat.mul_right_comm, h, Nat.mul_right_comm])
    simp only [habove, hbelow]

theorem nearest_eq_of_div_eq {a b c d : Nat} (hb : 0 < b) (hd : 0 < d)
    (h : (a / b : ℚ) = c / d) : f.nearest a b = f.nearest c d := by
  rw [div_eq_div_iff (by positivity) (by positivity)] at h
  exact nearest_congr hb hd (by exact_mod_cast h)

/-- A decimal is read by its value. -/
theorem read_congr {d d' : Decimal} (h : d.value = d'.value) : f.read d = f.read d' :=
  nearest_eq_of_div_eq d.ratio_pos d'.ratio_pos (by rw [d.ratio_value, d'.ratio_value, h])

theorem nearest_ratio {d : Dyadic} (hzero : d.significand ≠ 0)
    (hgrid : max f.leastExponent (d.significand.log2 + d.exponent - f.fractionBits) = d.exponent) :
    f.nearest d.ratio.1 d.ratio.2 = min f.infinity
      (((d.exponent - f.leastExponent).toNat <<< f.fractionBits) + d.significand) := by
  have hratio : d.ratio.1 ≠ 0 := by
    unfold Dyadic.ratio
    split_ifs
    · simpa [Nat.shiftLeft_eq] using hzero
    · exact hzero
  have hexponent : f.gridExponent d.ratio.1 d.ratio.2 = d.exponent := by
    rw [gridExponent_eq hratio d.ratio_pos.ne', d.ratio_value, Dyadic.log_value hzero, hgrid]
  have hrounded : (if 0 ≤ d.exponent then roundHalfEven d.ratio.1 (d.ratio.2 <<< d.exponent.toNat)
      else roundHalfEven (d.ratio.1 <<< (-d.exponent).toNat) d.ratio.2) = d.significand := by
    by_cases h : 0 ≤ d.exponent
    · simp only [Dyadic.ratio, if_pos h, Nat.shiftLeft_eq, Nat.one_mul]
      exact roundHalfEven_mul_self _ (Nat.two_pow_pos _)
    · simp only [Dyadic.ratio, if_neg h, Nat.shiftLeft_eq, Nat.one_mul]
      exact roundHalfEven_mul_self _ (Nat.two_pow_pos _)
  simp only [nearest, if_neg hratio, hexponent, hrounded]

/-- A magnitude has a hidden leading bit unless its exponent field is zero. -/
theorem decode_cases (f : RealFormat) (m : Nat) :
    (m < 2 ^ f.fractionBits ∧ f.decode m = ⟨m, f.leastExponent⟩) ∨
      ∃ field fraction, fraction < 2 ^ f.fractionBits ∧
        m = field * 2 ^ f.fractionBits + (2 ^ f.fractionBits + fraction) ∧
        f.decode m = ⟨2 ^ f.fractionBits + fraction, f.leastExponent + field⟩ := by
  have hpos : 0 < 2 ^ f.fractionBits := Nat.pow_pos (by decide)
  simp only [decode, Nat.shiftRight_eq_div_pow, Nat.one_shiftLeft]
  split_ifs with h
  · have hlt : m < 2 ^ f.fractionBits := (Nat.div_eq_zero_iff_lt hpos).mp h
    exact .inl ⟨hlt, by rw [Nat.mod_eq_of_lt hlt]⟩
  · refine .inr ⟨m / 2 ^ f.fractionBits - 1, m % 2 ^ f.fractionBits, Nat.mod_lt _ hpos, ?_, rfl⟩
    rw [← Nat.add_assoc, ← Nat.succ_mul, Nat.succ_eq_add_one,
      Nat.sub_add_cancel (Nat.pos_of_ne_zero h), Nat.div_add_mod']

theorem decode_significand_eq_zero {m : Nat} : (f.decode m).significand = 0 ↔ m = 0 := by
  have hpos : 0 < 2 ^ f.fractionBits := Nat.pow_pos (by decide)
  obtain ⟨_, h⟩ | ⟨field, fraction, _, hm, h⟩ := f.decode_cases m
  · rw [h]
  · rw [h, hm]
    simp only [Nat.add_eq_zero_iff]
    omega

/-- The number that a finite magnitude stands for is rounded to the magnitude. -/
theorem nearest_decode {m : Nat} (h : m < f.infinity) :
    f.nearest (f.decode m).ratio.1 (f.decode m).ratio.2 = m := by
  by_cases hm : m = 0
  · have hzero : (f.decode m).ratio.1 = 0 := by
      unfold Dyadic.ratio
      split_ifs <;> simp [decode_significand_eq_zero.mpr hm]
    rw [hzero, hm]
    rfl
  · have hsignificand : (f.decode m).significand ≠ 0 := mt decode_significand_eq_zero.mp hm
    obtain ⟨hlt, heq⟩ | ⟨field, fraction, hlt, rfl, heq⟩ := f.decode_cases m
    · -- Without a hidden bit the significand is short, and the grid is the finest one.
      have hlog : m.log2 < f.fractionBits := (Nat.log2_lt hm).mpr hlt
      rw [nearest_ratio hsignificand (by rw [heq]; dsimp only; omega), heq, sub_self,
        Int.toNat_zero, Nat.zero_shiftLeft, Nat.zero_add, Nat.min_eq_right h.le]
    · -- The hidden bit fixes the place of the number, and so the grid.
      have hlog : (2 ^ f.fractionBits + fraction).log2 = f.fractionBits := by
        rw [Nat.log2_eq_iff (by omega), Nat.pow_succ]
        omega
      rw [nearest_ratio hsignificand (by rw [heq]; dsimp only; omega), heq, add_sub_cancel_left,
        Int.toNat_natCast, Nat.shiftLeft_eq, Nat.min_eq_right h.le]

/-! ## Decimals that read back -/

theorem exactDecimal_value (d : Dyadic) : (exactDecimal d).value = d.value := by
  unfold exactDecimal Decimal.value Dyadic.value
  split_ifs with h
  · obtain ⟨n, hn⟩ := Int.eq_ofNat_of_zero_le h
    simp [hn, Nat.shiftLeft_eq]
  · obtain ⟨n, hn⟩ : ∃ n : Nat, d.exponent = -n := ⟨(-d.exponent).toNat, by omega⟩
    have hten : (10 : ℚ) ^ n = 5 ^ n * 2 ^ n := by rw [← mul_pow]; norm_num
    simp only [hn, neg_neg, Int.toNat_natCast, Nat.pow_eq, Nat.cast_mul, Nat.cast_pow,
      Nat.cast_ofNat, zpow_neg, zpow_natCast, hten]
    field_simp

theorem read_of_shortestOf? {m num den count : Nat} {d : Decimal}
    (h : f.shortestOf? m num den count = some d) : f.read d = m := by
  simp only [shortestOf?] at h
  split_ifs at h with hbelow habove
  · cases h
    exact beq_iff_eq.mp (Bool.and_eq_true_iff.mp hbelow).1
  · cases h
    exact beq_iff_eq.mp habove

/-- The decimal that a finite magnitude is written as reads back to it. -/
theorem read_shortest {m : Nat} (h : m < f.infinity) : f.read (f.shortest m) = m := by
  have hexact : f.read (exactDecimal (f.decode m)) = m := by
    refine (nearest_eq_of_div_eq (Decimal.ratio_pos _) (Dyadic.ratio_pos (f.decode m)) ?_).trans
      (nearest_decode h)
    rw [Decimal.ratio_value, Dyadic.ratio_value, exactDecimal_value]
  simp only [shortest]
  split_ifs with hzero
  · have hm : f.nearest (f.decode m).ratio.1 (f.decode m).ratio.2 = 0 := by rw [hzero]; rfl
    rw [← nearest_decode h, hm]
    rfl
  · cases hfound : (List.range' 1 17).findSome?
      (f.shortestOf? m (f.decode m).ratio.1 (f.decode m).ratio.2) with
    | none => exact hexact
    | some d =>
      obtain ⟨count, _, hcount⟩ := List.exists_of_findSome?_eq_some hfound
      exact read_of_shortestOf? hcount

end RealFormat

end TensorProgram
