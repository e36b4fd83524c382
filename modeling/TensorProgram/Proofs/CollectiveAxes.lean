import TensorProgram.Proofs.Recorded

/-!
# Axes of collectives

The axes of a collective are shared by all its operands, which may have different ranks.
Inference counts the axes from the front in each operand, while the statement records them as
counted in the first operand.  The two are the same in an operand that has the rank of the first
one, or when no axis counts from the end: `explicit_sharedAxes_iff`.

When they are the same in every operand, the recorded axes are in range everywhere and give the
recorded results once more: `collective_recorded`.  When they are not, the statement holds an
axis that an operand may not have at all: `gathered_beyond_rank`.
-/

namespace TensorProgram

namespace Inference

/-- Counting from the front depends on the rank for the axes that count from the end. -/
theorem fromFront_eq_iff {axis : Int} {rank first : Nat} :
    fromFront axis first = fromFront axis rank ↔ rank = first ∨ 0 ≤ axis := by
  unfold fromFront
  split_ifs
  · omega
  · omega

/-- An axis may be counted from the front in another tensor where this makes no difference. -/
theorem normalizeAxis_of_fromFront_eq {axis : Int} {rank first a : Nat}
    (hfirst : fromFront axis first = fromFront axis rank) (h : normalizeAxis axis rank = .ok a) :
    normalizeAxis (fromFront axis first) rank = .ok a := by
  rw [hfirst]
  exact normalizeAxis_fromFront h

section Gathering

variable {operand s : Shape} {operands outputs : List Shape} {axis : Int} {first size : Nat}
  {groups : List (List Int)}

theorem gatheredShape_inRange (h : gatheredShape axis size operand = .ok s) :
    InRange [fromFront axis operand.rank] operand.rank := by
  obtain ⟨a, ha, _⟩ := bind_eq_ok.mp h
  exact .of_normalizeAxis ha

theorem gatheredShape_fromFront (hfirst : fromFront axis first = fromFront axis operand.rank)
    (h : gatheredShape axis size operand = .ok s) :
    gatheredShape (fromFront axis first) size operand = .ok s := by
  obtain ⟨a, ha, hrest⟩ := bind_eq_ok.mp h
  exact bind_eq_ok.mpr ⟨a, normalizeAxis_of_fromFront_eq hfirst ha, hrest⟩

/-- The axis lies in every operand. -/
theorem allGather_inRange (h : allGather operands axis groups = .ok outputs) :
    ∀ operand ∈ operands, InRange [fromFront axis operand.rank] operand.rank := by
  simp only [allGather, bind_eq_ok] at h
  obtain ⟨types, htypes, size, hsize, houtputs⟩ := h
  intro operand hoperand
  obtain ⟨s, hs⟩ := exists_ok_of_mem houtputs hoperand
  exact gatheredShape_inRange hs

theorem allGather_fromFront (h : allGather operands axis groups = .ok outputs)
    (hfirst : ∀ operand ∈ operands, fromFront axis first = fromFront axis operand.rank) :
    allGather operands (fromFront axis first) groups = .ok outputs := by
  simp only [allGather, bind_eq_ok] at h ⊢
  obtain ⟨types, htypes, size, hsize, houtputs⟩ := h
  refine ⟨types, htypes, size, hsize, mapM_mono houtputs fun operand hoperand s hs => ?_⟩
  exact gatheredShape_fromFront (hfirst operand hoperand) hs

end Gathering

section Exchange

variable {operand s : Shape} {operands outputs : List Shape} {splitAxis concatAxis : Int}
  {first count : Nat} {groups : List (List Int)}

theorem exchangedShape_inRange (h : exchangedShape splitAxis concatAxis count operand = .ok s) :
    InRange [fromFront splitAxis operand.rank, fromFront concatAxis operand.rank]
      operand.rank := by
  obtain ⟨a, ha, hrest⟩ := bind_eq_ok.mp h
  obtain ⟨b, hb, _⟩ := bind_eq_ok.mp hrest
  intro axis haxis
  rcases List.mem_cons.mp haxis with rfl | haxis
  · exact InRange.of_normalizeAxis ha _ (List.mem_singleton_self _)
  · exact InRange.of_normalizeAxis hb axis haxis

theorem exchangedShape_fromFront
    (hsplit : fromFront splitAxis first = fromFront splitAxis operand.rank)
    (hconcat : fromFront concatAxis first = fromFront concatAxis operand.rank)
    (h : exchangedShape splitAxis concatAxis count operand = .ok s) :
    exchangedShape (fromFront splitAxis first) (fromFront concatAxis first) count operand =
      .ok s := by
  obtain ⟨a, ha, hrest⟩ := bind_eq_ok.mp h
  obtain ⟨b, hb, hrest⟩ := bind_eq_ok.mp hrest
  exact bind_eq_ok.mpr ⟨a, normalizeAxis_of_fromFront_eq hsplit ha,
    bind_eq_ok.mpr ⟨b, normalizeAxis_of_fromFront_eq hconcat hb, hrest⟩⟩

/-- Both axes lie in every operand. -/
theorem allToAll_inRange (h : allToAll operands splitAxis concatAxis count groups = .ok outputs) :
    ∀ operand ∈ operands,
      InRange [fromFront splitAxis operand.rank, fromFront concatAxis operand.rank]
        operand.rank := by
  simp only [allToAll, bind_eq_ok] at h
  obtain ⟨types, htypes, size, hsize, _, hcount, houtputs⟩ := h
  intro operand hoperand
  obtain ⟨s, hs⟩ := exists_ok_of_mem houtputs hoperand
  exact exchangedShape_inRange hs

theorem allToAll_fromFront (h : allToAll operands splitAxis concatAxis count groups = .ok outputs)
    (hsplit : ∀ operand ∈ operands,
      fromFront splitAxis first = fromFront splitAxis operand.rank)
    (hconcat : ∀ operand ∈ operands,
      fromFront concatAxis first = fromFront concatAxis operand.rank) :
    allToAll operands (fromFront splitAxis first) (fromFront concatAxis first) count groups =
      .ok outputs := by
  simp only [allToAll, bind_eq_ok] at h ⊢
  obtain ⟨types, htypes, size, hsize, _, hcount, houtputs⟩ := h
  refine ⟨types, htypes, size, hsize, (), hcount, ?_⟩
  refine mapM_mono houtputs fun operand hoperand s hs => ?_
  exact exchangedShape_fromFront (hsplit operand hoperand) (hconcat operand hoperand) hs

end Exchange

end Inference

namespace Operation

open Inference

variable {ω κ : Type}

/-- The axes that refer to each operand of a collective. -/
def sharedAxes : Operation ω κ → List Int
  | allGather _ axis _ => [axis]
  | allToAll _ splitAxis concatAxis _ _ => [splitAxis, concatAxis]
  | _ => []

/-- The shared axes stand for the same axes in the operand as in the first operand. -/
def Agrees (o : Operation Shape κ) (operand : Shape) : Prop :=
  operand.rank = firstRank o.operands ∨ ∀ axis ∈ o.sharedAxes, 0 ≤ axis

/-- The shared axes are recorded as they are counted in the first operand. -/
theorem sharedAxes_explicit (o : Operation Shape κ) (outputs : List Shape) :
    (o.explicit outputs).sharedAxes = o.sharedAxes.map (fromFront · (firstRank o.operands)) := by
  cases o <;> rfl

/-- What is recorded is what inference has used in the operand exactly if the operand agrees. -/
theorem explicit_sharedAxes_iff {o : Operation Shape κ} {outputs : List Shape} {operand : Shape} :
    (o.explicit outputs).sharedAxes = o.sharedAxes.map (fromFront · operand.rank) ↔
      o.Agrees operand := by
  rw [sharedAxes_explicit, List.map_inj_left]
  simp only [fromFront_eq_iff, Agrees]
  constructor
  · intro h
    by_cases hrank : operand.rank = firstRank o.operands
    · exact .inl hrank
    · exact .inr fun axis haxis => (h axis haxis).resolve_left hrank
  · rintro (hrank | haxes) axis haxis
    · exact .inl hrank
    · exact .inr (haxes axis haxis)

/-- Inference has found the shared axes in every operand. -/
theorem sharedAxes_inRange {o : Operation Shape Signature} {outputs : List Shape}
    (h : o.infer = .ok outputs) :
    ∀ operand ∈ o.operands, InRange (o.sharedAxes.map (fromFront · operand.rank)) operand.rank := by
  rw [infer_eq_ok] at h
  cases o with
  | allGather operands axis groups => exact allGather_inRange h
  | allToAll operands splitAxis concatAxis count groups => exact allToAll_inRange h
  | _ => exact fun _ _ _ haxis => nomatch haxis

/-- If all operands agree on the axes, the recorded collective has the same results. -/
theorem infer_explicit_of_agrees {o : Operation Shape Signature} {outputs : List Shape}
    (ho : o.isCollective = true) (h : o.infer = .ok outputs)
    (hagrees : ∀ operand ∈ o.operands, o.Agrees operand) :
    (o.explicit outputs).infer = .ok outputs := by
  have haxes : ∀ operand ∈ o.operands, ∀ axis ∈ o.sharedAxes,
      fromFront axis (firstRank o.operands) = fromFront axis operand.rank := by
    intro operand hoperand
    have hsame : (o.explicit outputs).sharedAxes = o.sharedAxes.map (fromFront · operand.rank) :=
      explicit_sharedAxes_iff.mpr (hagrees operand hoperand)
    rwa [sharedAxes_explicit, List.map_inj_left] at hsame
  rw [infer_eq_ok] at h ⊢
  cases o with
  | allGather operands axis groups =>
    exact allGather_fromFront h fun operand hoperand =>
      haxes operand hoperand axis List.mem_cons_self
  | allToAll operands splitAxis concatAxis count groups =>
    refine allToAll_fromFront h (fun operand hoperand => ?_) fun operand hoperand => ?_
    · exact haxes operand hoperand splitAxis List.mem_cons_self
    · exact haxes operand hoperand concatAxis (List.mem_cons_of_mem _ List.mem_cons_self)
  | allReduce operands groups computation => exact h
  | collectivePermute operand pairs => exact h
  | collectiveBroadcast operand groups => exact h
  | unary op operand => exact h
  | binary op lhs rhs => exact h
  | _ => cases ho

end Operation

namespace Program

/-- The statement holds the collective on the shapes of its operands, with the shapes of its
results and a channel. -/
structure RecordsCollective (p : Program) (s : Statement)
    (o : Operation Shape Inference.Signature) (channel : Nat) (results : List Shape) : Prop where
  op : s.op = o.kind
  operands : s.inputs.map p.shape? = o.operands.map some
  attributes : s.attributes = .ofList (o.attributes ++
    [("channel_handle", .verbatim (ChannelHandle.betweenDevices channel).render)])
  outputs : s.outputs.map p.shape? = results.map some

end Program

namespace Builder

open Program Inference

variable {p q : Program} {id : FunctionId} {o : Operation Value FunctionId} {values : List Value}

/-- What is appended records the collective with its axes as the first operand counts them. -/
theorem run_append_collective (ho : o.isCollective = true)
    (h : (append id o).run p = (.ok values, q)) :
    ∃ shaped outputs s, o.traverse (p.shapeOf id) (p.closureSignature id) = .ok shaped ∧
      shaped.infer = .ok outputs ∧ q.body id = p.body id ++ [s] ∧ s.inputs = o.operands ∧
      s.outputs = values ∧
      q.RecordsCollective s (shaped.explicit outputs) (p.channelCount + 1) outputs := by
  obtain ⟨f, shaped, outputs, hf, _, hresolve, rfl, rfl⟩ := run_append_eq_ok.mp h
  obtain ⟨_, htraverse, hinfer⟩ := resolve_eq_ok.mp hresolve
  have hextends : p.Extends (p.withOperation id o shaped outputs) :=
    (append_allOrNothing id o).extends h
  have hbody := body_withOperation hf o shaped outputs id
  rw [if_pos rfl] at hbody
  refine ⟨shaped, outputs, _, htraverse, hinfer, hbody, rfl, rfl, ?_⟩
  constructor
  · rw [Operation.explicit_kind, Operation.traverse_kind htraverse]
    rfl
  · rw [Operation.explicit_operands]
    exact hextends.map_shape?_eq (map_shape?_of_shapeOf (Operation.traverse_operands htraverse))
  · rw [newStatement, channelAttributes, ho]
    simp
  · exact map_shape?_withOperation hf o shaped outputs

/-- A collective that succeeds records the shapes that inference has found.  An operand that
agrees with the first one on the axes has the recorded axes; when every operand does, the
recorded collective gives the recorded shapes once more. -/
theorem collective_recorded (ho : o.isCollective = true)
    (h : (append id o).run p = (.ok values, q)) :
    ∃ shaped outputs s, o.traverse (p.shapeOf id) (p.closureSignature id) = .ok shaped ∧
      shaped.infer = .ok outputs ∧ q.body id = p.body id ++ [s] ∧ s.inputs = o.operands ∧
      s.outputs = values ∧
      q.RecordsCollective s (shaped.explicit outputs) (p.channelCount + 1) outputs ∧
      (∀ operand ∈ shaped.operands,
        ((shaped.explicit outputs).sharedAxes = shaped.sharedAxes.map (fromFront · operand.rank) ↔
          shaped.Agrees operand) ∧
        (shaped.Agrees operand → InRange (shaped.explicit outputs).sharedAxes operand.rank)) ∧
      ((∀ operand ∈ shaped.operands, shaped.Agrees operand) →
        (shaped.explicit outputs).infer = .ok outputs) := by
  obtain ⟨shaped, outputs, s, htraverse, hinfer, hbody, hinputs, houtputs, hs⟩ :=
    run_append_collective ho h
  have hshaped : shaped.isCollective = true := by
    rwa [Operation.isCollective, Operation.traverse_kind htraverse]
  refine ⟨shaped, outputs, s, htraverse, hinfer, hbody, hinputs, houtputs, hs, ?_, ?_⟩
  · intro operand hoperand
    refine ⟨Operation.explicit_sharedAxes_iff, fun hagrees => ?_⟩
    rw [Operation.explicit_sharedAxes_iff.mpr hagrees]
    exact Operation.sharedAxes_inRange hinfer operand hoperand
  · exact Operation.infer_explicit_of_agrees hshaped hinfer

/-- A function with a matrix and a vector for its inputs. -/
def matrixAndVector : Program :=
  .ofCalls "example" [.function "main" [.of (.real .f32) [2, 3], .of (.signed .w32) [4]]]

/-- A matrix is gathered along its last axis, and once more along the recorded axis 1. -/
theorem collective_recorded_matrix :
    let o : Operation Value FunctionId := .allGather [⟨0, 0⟩] (-1) [[0, 1]]
    let q := matrixAndVector.call (.append 0 o)
    (append 0 o).run matrixAndVector = (.ok [⟨0, 2⟩], q) ∧
      ∃ outputs s, q.body 0 = matrixAndVector.body 0 ++ [s] ∧
        s.outputs.map q.shape? = outputs.map some ∧
        Inference.allGather [.of (.real .f32) [2, 3]] 1 [[0, 1]] = .ok outputs := by
  intro o q
  have h : (append 0 o).run matrixAndVector = (.ok [⟨0, 2⟩], q) := by decide
  refine ⟨h, ?_⟩
  obtain ⟨shaped, outputs, s, htraverse, _, hbody, _, _, hs, _, hagain⟩ :=
    collective_recorded rfl h
  obtain rfl : .allGather [.of (.real .f32) [2, 3]] (-1) [[0, 1]] = shaped :=
    Except.ok.inj htraverse
  refine ⟨outputs, s, hbody, hs.outputs, Operation.infer_eq_ok.mp (hagain ?_)⟩
  intro operand hoperand
  obtain rfl := List.mem_singleton.mp hoperand
  exact .inl rfl

/-- A matrix and a vector are gathered along the last axis of each.  The statement records
the axis 1 of the matrix, which the vector does not have. -/
theorem gathered_beyond_rank :
    let o : Operation Value FunctionId := .allGather [⟨0, 0⟩, ⟨0, 1⟩] (-1) [[0, 1]]
    let q := matrixAndVector.call (.append 0 o)
    (append 0 o).run matrixAndVector = (.ok [⟨0, 2⟩, ⟨0, 3⟩], q) ∧
      (q.body 0).map Statement.attributes = [.ofList
        (Operation.attributes (.allGather [(), ()] 1 [[0, 1]] : Operation Unit Unit) ++
          [("channel_handle", .verbatim (ChannelHandle.betweenDevices 1).render)])] ∧
      q.shape? ⟨0, 1⟩ = some (.of (.signed .w32) [4]) ∧
      q.shape? ⟨0, 3⟩ = some (.of (.signed .w32) [8]) ∧
      ¬ InRange [1] (Shape.of (.signed .w32) [4]).rank ∧
      Inference.allGather [.of (.real .f32) [2, 3], .of (.signed .w32) [4]] 1 [[0, 1]] =
        .error (.axisOutOfRange 1 1) := by
  intro o q
  refine ⟨by decide, by decide, by decide, by decide, fun hrange => ?_, by decide⟩
  exact absurd (hrange 1 (List.mem_singleton_self 1)).2 (by decide)

end Builder

end TensorProgram
