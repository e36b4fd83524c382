import Mathlib.Algebra.BigOperators.Group.List.Basic
import Mathlib.Tactic.Ring
import TensorProgram.Proofs.Combinators
import TensorProgram.Proofs.Extents
import TensorProgram.Proofs.Faults
import TensorProgram.Proofs.RemainingAxes

/-!
# Exchanges that are undone

An exchange splits its operand into parts along one axis, and joins as many parts along the other.
The parts that are sent have the extents of the parts that are received, so the operand and the
result are made of the same parts in two ways, `Exchanges`.  This is all that an exchange asks for,
`allToAll_eq_ok`, and with the axes swapped it is the way back.
-/

namespace TensorProgram.Inference

/-- The extents of as many copies as the count, one after the other along an axis. -/
def repeated (axis count : Nat) (extents : List Nat) : List Nat :=
  extents.modify axis (· * count)

/-- Both tensors consist of the same number of parts with the same extents, the first one along the
first axis and the second one along the second axis. -/
def Exchanges (a b count : Nat) (ds es : List Nat) : Prop :=
  ∃ parts : List Nat, (a < parts.length ∧ b < parts.length) ∧
    ds = repeated a count parts ∧ es = repeated b count parts

section Parts

variable {a b axis count n : Nat} {ds es parts : List Nat}

@[simp] theorem length_repeated : (repeated axis count parts).length = parts.length :=
  List.length_modify _ _ _

theorem getElem?_repeated : (repeated axis count parts)[axis]? = parts[axis]?.map (· * count) := by
  rw [repeated, List.getElem?_modify_eq]
  rfl

theorem repeated_eq_set (h : axis < parts.length) :
    repeated axis count parts = parts.set axis (parts[axis] * count) := by
  apply List.ext_getElem?
  intro i
  rw [repeated, List.getElem?_modify, List.getElem?_set]
  by_cases hi : axis = i
  · subst hi
    simp [h]
  · simp [hi]

theorem prod_repeated (h : axis < parts.length) :
    (repeated axis count parts).prod = parts.prod * count := by
  induction parts generalizing axis with
  | nil => exact absurd h (Nat.not_lt_zero _)
  | cons m parts ih =>
    cases axis with
    | zero =>
      show m * count * parts.prod = m * parts.prod * count
      ring
    | succ axis =>
      have hrest := ih (Nat.lt_of_succ_lt_succ h)
      show m * (repeated axis count parts).prod = m * parts.prod * count
      rw [hrest, Nat.mul_assoc]

/-- Extents are split evenly along an axis when they are those of repeated parts. -/
theorem split_iff (hcount : count ≠ 0) :
    (∃ n, ds[axis]? = some n ∧ n % count = 0 ∧ ds.set axis (n / count) = parts) ↔
      axis < parts.length ∧ ds = repeated axis count parts := by
  constructor
  · intro h
    obtain ⟨n, hn, hmod, rfl⟩ := h
    obtain ⟨haxis, rfl⟩ := List.getElem?_eq_some_iff.mp hn
    have hlt : axis < (ds.set axis (ds[axis] / count)).length := by rwa [List.length_set]
    refine ⟨hlt, ?_⟩
    rw [repeated_eq_set hlt, List.getElem_set_self, List.set_set,
      Nat.div_mul_cancel (Nat.dvd_of_mod_eq_zero hmod), List.set_getElem_self]
  · intro h
    obtain ⟨haxis, rfl⟩ := h
    refine ⟨parts[axis] * count, ?_, Nat.mul_mod_left _ _, ?_⟩
    · rw [getElem?_repeated, List.getElem?_eq_getElem haxis, Option.map_some]
    · rw [repeated_eq_set haxis, List.set_set, Nat.mul_div_cancel _ (Nat.pos_of_ne_zero hcount),
        List.set_getElem_self]

/-- Parts are joined along an axis, whose extent stays within the limit. -/
theorem join_iff :
    (∃ n, parts[axis]? = some n ∧ n * count < Size.limit ∧ parts.set axis (n * count) = es) ↔
      (axis < parts.length ∧ es = repeated axis count parts) ∧ ∃ n, es[axis]? = some n ∧
        n < Size.limit := by
  constructor
  · intro h
    obtain ⟨n, hn, hlimit, rfl⟩ := h
    obtain ⟨haxis, rfl⟩ := List.getElem?_eq_some_iff.mp hn
    exact ⟨⟨haxis, (repeated_eq_set haxis).symm⟩, _, List.getElem?_set_self haxis, hlimit⟩
  · intro h
    obtain ⟨⟨haxis, rfl⟩, m, hm, hlimit⟩ := h
    rw [getElem?_repeated, List.getElem?_eq_getElem haxis, Option.map_some, Option.some.injEq] at hm
    exact ⟨parts[axis], List.getElem?_eq_getElem haxis, hm ▸ hlimit, (repeated_eq_set haxis).symm⟩

theorem Exchanges.symm (h : Exchanges a b count ds es) : Exchanges b a count es ds := by
  obtain ⟨parts, ⟨ha, hb⟩, hds, hes⟩ := h
  exact ⟨parts, ⟨hb, ha⟩, hes, hds⟩

theorem Exchanges.length_eq (h : Exchanges a b count ds es) : es.length = ds.length := by
  obtain ⟨parts, _, rfl, rfl⟩ := h
  rw [length_repeated, length_repeated]

/-- An exchange keeps the number of elements. -/
theorem Exchanges.prod_eq (h : Exchanges a b count ds es) : es.prod = ds.prod := by
  obtain ⟨parts, ⟨ha, hb⟩, rfl, rfl⟩ := h
  rw [prod_repeated ha, prod_repeated hb]

end Parts

section Rule

variable {x y : Shape} {operands outputs : List Shape} {splitAxis concatAxis : Int} {count : Nat}
  {groups : List (List Int)}

/-- The operand and the result have the same element type and consist of the same parts. -/
structure Exchanged (splitAxis concatAxis : Int) (count : Nat) (x y : Shape) : Prop where
  elementType : y.elementType? = x.elementType?
  parts : ∃ a b, normalizeAxis splitAxis x.rank = .ok a ∧ normalizeAxis concatAxis x.rank = .ok b ∧
    Exchanges a b count x.dimensions y.dimensions

theorem Exchanged.rank_eq (h : Exchanged splitAxis concatAxis count x y) : y.rank = x.rank := by
  obtain ⟨_, _, _, _, hparts⟩ := h.parts
  exact hparts.length_eq

theorem Exchanged.symm (h : Exchanged splitAxis concatAxis count x y) :
    Exchanged concatAxis splitAxis count y x := by
  obtain ⟨a, b, ha, hb, hparts⟩ := h.parts
  rw [← h.rank_eq] at ha hb
  exact ⟨h.elementType.symm, b, a, hb, ha, hparts.symm⟩

theorem Exchanged.size_eq (h : Exchanged splitAxis concatAxis count x y) : y.size = x.size := by
  obtain ⟨_, _, _, _, hparts⟩ := h.parts
  rw [Shape.size_eq_prod, Shape.size_eq_prod]
  exact hparts.prod_eq

/-- The extent of the axis is a size. -/
def IsSize (axis : Int) (s : Shape) : Prop :=
  ∃ a n, normalizeAxis axis s.rank = .ok a ∧ s.dimensions[a]? = some n ∧ n < Size.limit

/-- An operand can be exchanged when it consists of as many parts as are asked for, and the parts
can be joined. -/
theorem exchangedShape_eq_ok (hcount : count ≠ 0) :
    exchangedShape splitAxis concatAxis count x = .ok y ↔
      Exchanged splitAxis concatAxis count x y ∧ IsSize concatAxis y := by
  simp only [exchangedShape, bind_eq_ok, entry_eq_ok, Size.mod_eq_ok, Size.div_eq_ok,
    require_eq_ok, beq_iff_eq, replaceEntry_eq_ok, Size.mul, Size.bounded_eq_ok, pure_eq_ok,
    Except.ok.injEq]
  constructor
  · intro h
    obtain ⟨a, ha, b, hb, n, hn, _, ⟨_, hmod⟩, _, rfl, _, ⟨_, rfl⟩, parts, ⟨_, hparts⟩, k, hk, _,
      ⟨hlimit, rfl⟩, _, ⟨_, rfl⟩, rfl⟩ := h
    obtain ⟨halong, hx⟩ := (split_iff hcount).mp ⟨n, hn, hmod, hparts⟩
    obtain ⟨⟨hblong, hy⟩, hsize⟩ := join_iff.mp ⟨k, hk, hlimit, rfl⟩
    have hexchanged : Exchanged splitAxis concatAxis count x
        (x.withDimensions (parts.set b (k * count))) :=
      ⟨rfl, a, b, ha, hb, parts, ⟨halong, hblong⟩, hx, hy⟩
    refine ⟨hexchanged, b, k * count, ?_, ?_, hlimit⟩
    · rwa [hexchanged.rank_eq]
    · exact List.getElem?_set_self hblong
  · intro h
    obtain ⟨hexchanged, b', m, hb', hm, hlimit⟩ := h
    obtain ⟨a, b, ha, hb, parts, ⟨halong, hblong⟩, hx, hy⟩ := hexchanged.parts
    rw [hexchanged.rank_eq, hb, Except.ok.injEq] at hb'
    subst hb'
    obtain ⟨n, hn, hmod, hparts⟩ := (split_iff hcount).mpr ⟨halong, hx⟩
    obtain ⟨k, hk, hfits, hset⟩ := join_iff.mpr ⟨⟨hblong, hy⟩, m, hm, hlimit⟩
    refine ⟨a, ha, b, hb, n, hn, 0, ⟨hcount, hmod⟩, (), rfl, n / count, ⟨hcount, rfl⟩, parts,
      ⟨(List.getElem?_eq_some_iff.mp hn).1, hparts⟩, k, hk, k * count, ⟨hfits, rfl⟩, y.dimensions,
      ⟨hblong, hset⟩, ?_⟩
    rw [Shape.withDimensions, ← hexchanged.elementType]

theorem Exchanged.isSize (h : Exchanged splitAxis concatAxis count x y)
    (hsizes : ∀ n ∈ x.dimensions, n < Size.limit) : IsSize splitAxis x := by
  obtain ⟨a, _, ha, _⟩ := h.parts
  have hlt : a < x.dimensions.length := lt_of_normalizeAxis ha
  exact ⟨a, x.dimensions[a], ha, List.getElem?_eq_getElem hlt, hsizes _ (List.getElem_mem hlt)⟩

theorem exists_operandElementTypes :
    (∃ types, operandElementTypes operands = .ok types) ↔
      operands ≠ [] ∧ ∀ x ∈ operands, x.isValid = true := by
  simp only [operandElementTypes_eq_ok, exists_and_left, ← List.forall₂_eq_eq_eq,
    List.forall₂_map_left_iff, List.forall₂_map_right_iff, exists_forall₂_iff,
    ← Option.isSome_iff_exists, Shape.isValid]

/-- Every operand is exchanged among the devices of a group, which are as many as the parts. -/
theorem allToAll_eq_ok :
    allToAll operands splitAxis concatAxis count groups = .ok outputs ↔
      (operands ≠ [] ∧ ∀ x ∈ operands, x.isValid = true) ∧
        (count ≠ 0 ∧ replicaGroupSize groups = .ok count) ∧
        List.Forall₂ (fun x y => Exchanged splitAxis concatAxis count x y ∧ IsSize concatAxis y)
          operands outputs := by
  rw [← exists_operandElementTypes]
  simp only [allToAll, bind_eq_ok, require_eq_ok, Bool.and_eq_true, bne_iff_ne, beq_iff_eq,
    mapM_eq_ok]
  constructor
  · intro h
    obtain ⟨types, htypes, _, hsize, _, ⟨hcount, rfl⟩, hall⟩ := h
    exact ⟨⟨types, htypes⟩, ⟨hcount, hsize⟩,
      hall.imp fun _ _ hxy => (exchangedShape_eq_ok hcount).mp hxy⟩
  · intro h
    obtain ⟨⟨types, htypes⟩, ⟨hcount, hsize⟩, hall⟩ := h
    exact ⟨types, htypes, count, hsize, (), ⟨hcount, rfl⟩,
      hall.imp fun _ _ hxy => (exchangedShape_eq_ok hcount).mpr hxy⟩

/-- An exchange keeps element types and numbers of elements, and the exchange with the axes swapped
gives back the operands. -/
theorem allToAll_undone (hsizes : ∀ x ∈ operands, ∀ n ∈ x.dimensions, n < Size.limit)
    (h : allToAll operands splitAxis concatAxis count groups = .ok outputs) :
    List.Forall₂ (fun x y => y.elementType? = x.elementType? ∧ y.size = x.size)
        operands outputs ∧
      allToAll outputs concatAxis splitAxis count groups = .ok operands := by
  obtain ⟨⟨hsome, hvalid⟩, hgroups, hall⟩ := allToAll_eq_ok.mp h
  refine ⟨hall.imp fun _ _ hxy => ⟨hxy.1.elementType, hxy.1.size_eq⟩, allToAll_eq_ok.mpr ?_⟩
  have hback : List.Forall₂
      (fun y x => Exchanged concatAxis splitAxis count y x ∧ IsSize splitAxis x)
      outputs operands := by
    refine List.Forall₂.flip (((List.forall₂_and_left _ _).mpr ⟨hsizes, hall⟩).imp ?_)
    intro x y hxy
    exact ⟨hxy.2.1.symm, hxy.2.1.isSize hxy.1⟩
  refine ⟨⟨?_, ?_⟩, hgroups, hback⟩
  · rintro rfl
    exact hsome (List.forall₂_nil_right_iff.mp hall)
  · intro y hy
    obtain ⟨x, hx, hxy⟩ := exists_of_mem_left hall.flip hy
    rw [Shape.isValid, hxy.1.elementType]
    exact hvalid x hx

/-- A matrix and a tensor without elements are split along the last axis but one and joined along
the last axis. -/
theorem allToAll_undone_ranks :
    let s := Shape.of (.real .f32)
    let operands := [s [4, 6], s [5, 2, 0]]
    let outputs := [s [2, 12], s [5, 1, 0]]
    (∀ x ∈ operands, ∀ n ∈ x.dimensions, n < Size.limit) ∧
      allToAll operands (-2) (-1) 2 [[0, 1], [3, 2]] = .ok outputs ∧
      List.Forall₂ (fun x y => y.elementType? = x.elementType? ∧ y.size = x.size)
        operands outputs ∧
      allToAll outputs (-1) (-2) 2 [[0, 1], [3, 2]] = .ok operands := by
  intro s operands outputs
  have hsizes : ∀ x ∈ operands, ∀ n ∈ x.dimensions, n < Size.limit := by decide
  have hforth : allToAll operands (-2) (-1) 2 [[0, 1], [3, 2]] = .ok outputs := by decide
  obtain ⟨hkept, hback⟩ := allToAll_undone hsizes hforth
  exact ⟨hsizes, hforth, hkept, hback⟩

end Rule

end TensorProgram.Inference
