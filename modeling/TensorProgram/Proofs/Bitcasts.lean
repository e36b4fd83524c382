import Mathlib.Tactic.Ring
import TensorProgram.Proofs.Extents
import TensorProgram.Proofs.Faults
import TensorProgram.Proofs.RemainingAxes

/-!
# Bitcasts

A bitcast reads the bits of a tensor as elements of another type.  Elements that are wider are split
into parts, which a new last axis numbers, `Splits`, and narrower ones are joined along such an
axis.  The rule is the same in both directions, `Regroups.symm`, and it accepts nothing else,
`bitcastConvert_eq_ok`.  So a bitcast can be undone, and it keeps the number of bits.
-/

namespace TensorProgram.Inference

/-- Elements of `m` bits are split into parts of `n` bits, which a new last axis numbers. -/
def Splits (m n : Nat) (ds es : List Nat) : Prop :=
  n < m ∧ ∃ parts, m = parts * n ∧ es = ds ++ [parts]

/-- The bits of elements of `m` bits are those of elements of `n` bits. -/
def Regroups (m n : Nat) (ds es : List Nat) : Prop :=
  (m = n ∧ ds = es) ∨ Splits m n ds es ∨ Splits n m es ds

section Bits

variable {m n : Nat} {ds es : List Nat}

/-- The number of parts is a quotient without remainder. -/
theorem splits_iff (hpositive : n ≠ 0) (hlt : n < m) :
    Splits m n ds es ↔ m % n = 0 ∧ es = ds ++ [m / n] := by
  constructor
  · intro h
    obtain ⟨_, parts, rfl, rfl⟩ := h
    rw [Nat.mul_div_cancel _ (Nat.pos_of_ne_zero hpositive)]
    exact ⟨Nat.mul_mod_left parts n, rfl⟩
  · intro h
    obtain ⟨hmod, hes⟩ := h
    exact ⟨hlt, m / n, (Nat.div_mul_cancel (Nat.dvd_of_mod_eq_zero hmod)).symm, hes⟩

theorem Splits.bits_eq (h : Splits m n ds es) : es.prod * n = ds.prod * m := by
  obtain ⟨_, parts, rfl, rfl⟩ := h
  rw [List.prod_append, List.prod_singleton]
  ring

theorem Regroups.symm (h : Regroups m n ds es) : Regroups n m es ds := by
  rcases h with hsame | hnarrow | hwide
  · exact .inl ⟨hsame.1.symm, hsame.2.symm⟩
  · exact .inr (.inr hnarrow)
  · exact .inr (.inl hwide)

theorem Regroups.bits_eq (h : Regroups m n ds es) : es.prod * n = ds.prod * m := by
  rcases h with hsame | hnarrow | hwide
  · rw [hsame.1, hsame.2]
  · exact hnarrow.bits_eq
  · exact hwide.bits_eq.symm

theorem regroups_of_lt (h : n < m) : Regroups m n ds es ↔ Splits m n ds es := by
  unfold Regroups Splits
  constructor
  · intro hregroups
    rcases hregroups with hsame | hnarrow | hwide
    · omega
    · exact hnarrow
    · omega
  · exact fun hnarrow => .inr (.inl hnarrow)

theorem regroups_of_eq (h : m = n) : Regroups m n ds es ↔ ds = es := by
  unfold Regroups Splits
  constructor
  · intro hregroups
    rcases hregroups with hsame | hnarrow | hwide
    · exact hsame.2
    · omega
    · omega
  · exact fun hds => .inl ⟨h, hds⟩

end Bits

section Rule

variable {x y : Shape} {s t : ElementType}

/-- A bitcast is accepted when the bits can be regrouped. -/
theorem bitcastConvert_eq_ok (hs : x.elementType? = some s) :
    bitcastConvert x t = .ok y ↔
      y.elementType? = some t ∧ Regroups s.bits t.bits x.dimensions y.dimensions := by
  have hsource : elementType x = .ok s := elementType_eq_ok.mpr hs
  unfold bitcastConvert
  simp only [hsource, ok_bind]
  split_ifs with hnarrow hwide
  · rw [regroups_of_lt hnarrow, splits_iff (bits_ne_zero t) hnarrow]
    simp only [bind_eq_ok, Size.mod_eq_ok, Size.div_eq_ok, require_eq_ok, beq_iff_eq, pure_eq_ok,
      Except.ok.injEq, of_eq_iff]
    constructor
    · intro h
      obtain ⟨_, ⟨_, rfl⟩, _, hmod, _, ⟨_, rfl⟩, htype, hdimensions⟩ := h
      exact ⟨htype, hmod, hdimensions⟩
    · intro h
      obtain ⟨htype, hmod, hdimensions⟩ := h
      exact ⟨_, ⟨bits_ne_zero t, rfl⟩, (), hmod, _, ⟨bits_ne_zero t, rfl⟩, htype, hdimensions⟩
  · have hsymm : Regroups s.bits t.bits x.dimensions y.dimensions ↔
        Splits t.bits s.bits y.dimensions x.dimensions := by
      rw [← regroups_of_lt hwide]
      exact ⟨.symm, .symm⟩
    rw [hsymm, splits_iff (bits_ne_zero s) hwide]
    simp only [bind_eq_ok, Size.mod_eq_ok, Size.div_eq_ok, require_eq_ok, Bool.and_eq_true,
      beq_iff_eq, pure_eq_ok, Except.ok.injEq, of_eq_iff]
    constructor
    · intro h
      obtain ⟨_, ⟨_, rfl⟩, _, ⟨_, rfl⟩, _, ⟨hmod, hlast⟩, htype, hdimensions⟩ := h
      obtain ⟨ds, hds⟩ := List.getLast?_eq_some_iff.mp hlast
      rw [hds, List.dropLast_concat] at hdimensions
      exact ⟨htype, hmod, hdimensions ▸ hds⟩
    · intro h
      obtain ⟨htype, hmod, hdimensions⟩ := h
      have hlast : x.dimensions.getLast? = some (t.bits / s.bits) := by
        rw [hdimensions, List.getLast?_concat]
      have hrest : y.dimensions = x.dimensions.dropLast := by
        rw [hdimensions, List.dropLast_concat]
      exact ⟨_, ⟨bits_ne_zero s, rfl⟩, _, ⟨bits_ne_zero s, rfl⟩, (), ⟨hmod, hlast⟩, htype, hrest⟩
  · rw [regroups_of_eq (by omega)]
    simp only [pure_eq_ok, Except.ok.injEq, of_eq_iff]
    exact and_congr_right fun _ => eq_comm

end Rule

/-- A bitcast of a valid operand is accepted when its bits can be regrouped as elements of the other
type.  It keeps the number of bits, and the bitcast back gives the operand. -/
theorem bitcastConvert_reverses {x : Shape} {s : ElementType} (hs : x.elementType? = some s)
    (t : ElementType) (y : Shape) :
    (bitcastConvert x t = .ok y ↔
      y.elementType? = some t ∧ Regroups s.bits t.bits x.dimensions y.dimensions) ∧
    (bitcastConvert x t = .ok y →
      y.size * t.bits = x.size * s.bits ∧ bitcastConvert y s = .ok x) := by
  refine ⟨bitcastConvert_eq_ok hs, ?_⟩
  intro h
  obtain ⟨ht, hregroups⟩ := (bitcastConvert_eq_ok hs).mp h
  constructor
  · rw [Shape.size_eq_prod, Shape.size_eq_prod]
    exact hregroups.bits_eq
  · exact (bitcastConvert_eq_ok ht).mpr ⟨hs, hregroups.symm⟩

/-- Doubles are split into booleans of a byte each, eight for each double, and joined again. -/
theorem bitcastConvert_reverses_bytes :
    let doubles := Shape.of (.real .f64) [2, 3]
    let bytes := Shape.of .boolean [2, 3, 8]
    doubles.elementType? = some (.real .f64) ∧ bitcastConvert doubles .boolean = .ok bytes ∧
      bytes.size * 8 = doubles.size * 64 ∧ bitcastConvert bytes (.real .f64) = .ok doubles := by
  intro doubles bytes
  have hbytes : bitcastConvert doubles .boolean = .ok bytes := by decide
  have hdoubles : doubles.elementType? = some (.real .f64) := rfl
  have hback := (bitcastConvert_reverses hdoubles .boolean bytes).2 hbytes
  exact ⟨hdoubles, hbytes, hback.1, hback.2⟩

end TensorProgram.Inference
