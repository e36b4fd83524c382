import TensorProgram.Proofs.GroupSizes
import TensorProgram.Proofs.MirroredAccess

/-!
# Computations that combine elements

Reductions, scatters and all-reduces come with a computation on scalars.  For `n` element types the
computation takes `n` scalars on the left, `n` scalars on the right, and puts out `n` scalars again:
`requireCombinator_eq_ok` takes the check of its signature apart.  Where the types may not be
widened there is one such signature, `Signature.combining`, and `requireCombinator_same_eq_ok` says
that no other one is accepted.

An all-reduce asks for the types of all its operands at once.  So the number of scalars grows with
the number of operands, and the computation that takes two scalars of a type to one is accepted for
a single operand only: `allReduce_computations`.
-/

namespace TensorProgram.Inference

/-- The computation takes two scalars of every type to one, the left scalars of all types before the
right ones. -/
def Signature.combining (types : List ElementType) : Signature :=
  ⟨types.map .scalar ++ types.map .scalar, types.map .scalar⟩

/-! ## Lists entry by entry -/

section Entries

variable {α β : Type} {R : α → β → Prop} {xs : List α} {ys : List β}

/-- Two lists are related when they have one length and the entries at each position are related. -/
theorem forall₂_iff_getElem? :
    List.Forall₂ R xs ys ↔
      ys.length = xs.length ∧
        ∀ (i : Nat) (x : α), xs[i]? = some x → ∃ y, ys[i]? = some y ∧ R x y := by
  constructor
  · intro h
    refine ⟨h.length_eq.symm, fun i x hx => ?_⟩
    obtain ⟨hi, rfl⟩ := List.getElem?_eq_some_iff.mp hx
    have hi' : i < ys.length := by
      rw [← h.length_eq]
      exact hi
    exact ⟨ys[i], List.getElem?_eq_getElem hi', h.get hi hi'⟩
  · intro h
    obtain ⟨hlength, hentries⟩ := h
    rw [List.forall₂_iff_get]
    refine ⟨hlength.symm, fun i hi hi' => ?_⟩
    obtain ⟨y, hy, hR⟩ := hentries i xs[i] (List.getElem?_eq_getElem hi)
    rw [List.getElem?_eq_getElem hi', Option.some.injEq] at hy
    show R xs[i] ys[i]
    rw [hy]
    exact hR

end Entries

/-! ## Signatures -/

section Signatures

variable {suits : ElementType → ElementType → Bool} {t : ElementType} {types : List ElementType}
  {c : Signature} {u : Unit}

/-- The shapes are scalars of types that suit the expected ones. -/
def ScalarsLike (suits : ElementType → ElementType → Bool) (types : List ElementType)
    (shapes : List Shape) : Prop :=
  List.Forall₂ (fun t s => ∃ t', s = .scalar t' ∧ suits t t' = true) types shapes

theorem requireScalarLike_eq_ok {position : Nat} {s : Shape} :
    requireScalarLike suits t position s = .ok u ↔ ∃ t', s = .scalar t' ∧ suits t t' = true := by
  obtain ⟨type?, dimensions⟩ := s
  simp only [requireScalarLike, bind_eq_ok, require_eq_ok, Bool.and_eq_true]
  cases type? with
  | none => simp [elementType, Shape.scalar, Shape.of]
  | some t' =>
    simp [elementType, Shape.scalar, Shape.of, Shape.isScalar, Shape.isValid, and_comm]

/-- A signature is accepted when its inputs are two rows of scalars and its outputs are one. -/
theorem requireCombinator_eq_ok :
    requireCombinator suits c types = .ok u ↔
      (∃ left right, c.inputs = left ++ right ∧ ScalarsLike suits types left ∧
        ScalarsLike suits types right) ∧ ScalarsLike suits types c.outputs := by
  cases u
  simp only [requireCombinator, bind_eq_ok, require_eq_ok, Bool.and_eq_true, beq_iff_eq,
    forM_eq_ok, requireScalarLike_eq_ok, entry_eq_ok, Prod.forall,
    List.mk_mem_zipIdx_iff_getElem?, ScalarsLike, forall₂_iff_getElem?, exists_const]
  constructor
  · intro h
    obtain ⟨⟨hinputs, houtputs⟩, hscalars⟩ := h
    refine ⟨⟨c.inputs.take types.length, c.inputs.drop types.length,
      (List.take_append_drop _ _).symm, ⟨?_, fun i t ht => ?_⟩, ?_, fun i t ht => ?_⟩,
      houtputs, fun i t ht => ?_⟩
    · rw [List.length_take]
      omega
    · obtain ⟨l, hl, hlike, _⟩ := hscalars t i ht
      have hi : i < types.length := (List.getElem?_eq_some_iff.mp ht).1
      rw [List.getElem?_take_of_lt hi]
      exact ⟨l, hl, hlike⟩
    · rw [List.length_drop]
      omega
    · obtain ⟨_, _, _, r, hr, hlike, _⟩ := hscalars t i ht
      rw [List.getElem?_drop]
      exact ⟨r, hr, hlike⟩
    · obtain ⟨_, _, _, _, _, _, o, ho, hlike⟩ := hscalars t i ht
      exact ⟨o, ho, hlike⟩
  · intro h
    obtain ⟨⟨left, right, hinputs, ⟨hleft, hlefts⟩, hright, hrights⟩, houtput, houtputs⟩ := h
    refine ⟨⟨?_, houtput⟩, fun t i ht => ?_⟩
    · rw [hinputs, List.length_append]
      omega
    · have hi : i < types.length := (List.getElem?_eq_some_iff.mp ht).1
      obtain ⟨l, hl, hlike⟩ := hlefts i t ht
      obtain ⟨r, hr, hrlike⟩ := hrights i t ht
      obtain ⟨o, ho, holike⟩ := houtputs i t ht
      refine ⟨l, ?_, hlike, r, ?_, hrlike, o, ho, holike⟩
      · rw [hinputs, List.getElem?_append_left (by omega)]
        exact hl
      · rw [hinputs, ← hleft, List.getElem?_append_right (Nat.le_add_right _ _),
          Nat.add_sub_cancel_left]
        exact hr

/-- Without widening the scalars have the expected types themselves. -/
theorem scalarsLike_same {shapes : List Shape} :
    ScalarsLike (· == ·) types shapes ↔ shapes = types.map .scalar := by
  rw [← List.forall₂_eq_eq_eq, List.forall₂_map_right_iff]
  constructor
  · intro h
    refine (h.imp fun t s hs => ?_).flip
    obtain ⟨t', rfl, hsame⟩ := hs
    exact congrArg Shape.scalar (eq_of_beq hsame).symm
  · intro h
    refine h.flip.imp fun t s hs => ⟨t, hs, beq_self_eq_true t⟩

/-- Without widening there is one signature for a list of types. -/
theorem requireCombinator_same_eq_ok :
    requireCombinator (· == ·) c types = .ok u ↔ c = .combining types := by
  obtain ⟨inputs, outputs⟩ := c
  simp only [requireCombinator_eq_ok, scalarsLike_same, Signature.combining, Signature.mk.injEq]
  constructor
  · intro h
    obtain ⟨⟨left, right, hinputs, rfl, rfl⟩, houtputs⟩ := h
    exact ⟨hinputs, houtputs⟩
  · intro h
    exact ⟨⟨_, _, h.1, rfl, rfl⟩, h.2⟩

/-- The computation for one operand is not the computation for several. -/
theorem combining_eq_pairwise_iff : Signature.combining types = .pairwise t ↔ types = [t] := by
  constructor
  · intro h
    have houtputs : types.map Shape.scalar = [.scalar t] := congrArg Signature.outputs h
    obtain ⟨t', rfl, hscalar⟩ := List.map_eq_singleton_iff.mp houtputs
    obtain rfl : t' = t := by simpa [Shape.scalar, Shape.of] using hscalar
    rfl
  · intro h
    rw [h]
    rfl

end Signatures

/-! ## All-reduces -/

section AllReduce

variable {operands outputs : List Shape} {groups : List (List Int)} {c : Signature}
  {types : List ElementType}

theorem operandElementTypes_eq_ok :
    operandElementTypes operands = .ok types ↔
      operands ≠ [] ∧ operands.map Shape.elementType? = types.map some := by
  simp only [operandElementTypes, bind_eq_ok, require_eq_ok, mapM_eq_ok, elementType_eq_ok,
    Bool.not_eq_true', List.isEmpty_eq_false_iff, exists_and_left, exists_const,
    ← List.forall₂_eq_eq_eq, List.forall₂_map_left_iff, List.forall₂_map_right_iff]

theorem allReduce_eq_ok :
    allReduce operands groups c = .ok outputs ↔
      operands ≠ [] ∧ (∃ size, replicaGroupSize groups = .ok size) ∧ outputs = operands ∧
        ∃ types, operands.map Shape.elementType? = types.map some ∧ c = .combining types := by
  simp only [allReduce, bind_eq_ok, operandElementTypes_eq_ok, requireCombinator_same_eq_ok,
    pure_eq_ok, Except.ok.injEq, exists_const]
  constructor
  · intro h
    obtain ⟨types, ⟨hne, htypes⟩, size, hsize, hc, rfl⟩ := h
    exact ⟨hne, ⟨size, hsize⟩, rfl, types, htypes, hc⟩
  · intro h
    obtain ⟨hne, ⟨size, hsize⟩, rfl, types, htypes, hc⟩ := h
    exact ⟨types, ⟨hne, htypes⟩, size, hsize, hc, rfl⟩

/-- An all-reduce takes the operands as they are, with the computation that takes two scalars of the
type of every operand to one, all types at once.  The computation that takes two scalars of a type
to one is accepted when there is a single operand, which has that type. -/
theorem allReduce_computations (operands : List Shape) (groups : List (List Int)) :
    (∀ c outputs, allReduce operands groups c = .ok outputs ↔
      operands ≠ [] ∧ (∃ size, replicaGroupSize groups = .ok size) ∧ outputs = operands ∧
        ∃ types, operands.map Shape.elementType? = types.map some ∧ c = .combining types) ∧
    ∀ t outputs, allReduce operands groups (.pairwise t) = .ok outputs ↔
      (∃ size, replicaGroupSize groups = .ok size) ∧ outputs = operands ∧
        ∃ s, operands = [s] ∧ s.elementType? = some t := by
  constructor
  · intro c outputs
    exact allReduce_eq_ok
  · intro t outputs
    rw [allReduce_eq_ok]
    constructor
    · intro h
      obtain ⟨_, hgroups, houtputs, types, htypes, hc⟩ := h
      obtain rfl := combining_eq_pairwise_iff.mp hc.symm
      obtain ⟨s, rfl, hs⟩ := List.map_eq_singleton_iff.mp htypes
      exact ⟨hgroups, houtputs, s, rfl, hs⟩
    · intro h
      obtain ⟨hgroups, houtputs, s, rfl, hs⟩ := h
      exact ⟨List.cons_ne_nil _ _, hgroups, houtputs, [t], congrArg ([·]) hs, rfl⟩

/-- A matrix and a vector of one type: a computation on two scalars of the type is rejected, and
the one that is accepted takes four scalars to two. -/
theorem pairwise_rejected :
    let t : ElementType := .real .f32
    let operands := [Shape.of t [4], Shape.of t [2, 3]]
    replicaGroupSize [[0, 1]] = .ok 2 ∧
      allReduce operands [[0, 1]] (.pairwise t) = .error (.invalidClosure (.counts 4 2 2 1)) ∧
      allReduce operands [[0, 1]] (.combining [t, t]) = .ok operands ∧
      Signature.combining [t, t] ≠ .pairwise t := by
  decide

end AllReduce

end TensorProgram.Inference
