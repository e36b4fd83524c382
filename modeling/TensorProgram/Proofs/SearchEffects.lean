import Mathlib.Logic.Function.Iterate
import TensorProgram.Proofs.Channels
import TensorProgram.Proofs.ExtremePositions
import TensorProgram.Proofs.RenamedRuns

/-!
# What a search leaves as it was

`Program.Gains` compares two programs on the functions below a bound: one function has gained values
and statements, the scope of one root has given out names, and nothing else has changed.

A search works on two functions, its own one and a new closure.  The closure lies above the bound,
where nothing is compared; what it takes from the scope of the root can be read off its inputs and
values, `Program.Fills`.  So the program after a search is known up to the inside of the closure,
`run_argExtremum_gains`, and a search succeeds exactly on what inference accepts and a literal can
hold, `argExtremum_agrees_with_argMinMax`.
-/

namespace TensorProgram

/-! ## Names that a scope gives out -/

namespace Scope

/-- The scope after a positional input, which is named by the first free position. -/
def takeFree (s : Scope) : Scope :=
  s.takeArgument s.freeArgument

/-- The scope after a number of positional inputs and of numbered values. -/
def advance (s : Scope) (inputs numbers : Nat) : Scope :=
  (takeFree^[inputs] s).takeNumbers numbers

@[simp]
theorem advance_zero (s : Scope) : s.advance 0 0 = s :=
  rfl

/-- Positions and numbers are given out independently of each other. -/
theorem takeFree_takeNumbers (s : Scope) (numbers inputs : Nat) :
    takeFree^[inputs] (s.takeNumbers numbers) = (takeFree^[inputs] s).takeNumbers numbers := by
  have hcommute : Function.Commute takeFree (takeNumbers · numbers) := fun _ => rfl
  exact hcommute.iterate_left inputs s

theorem advance_advance (s : Scope) (i n i' n' : Nat) :
    (s.advance i n).advance i' n' = s.advance (i + i') (n + n') := by
  rw [advance, advance, advance, takeFree_takeNumbers, Nat.add_comm i, Function.iterate_add_apply]
  simp only [takeNumbers, Nat.add_assoc]

end Scope

namespace Program

/-! ## Functions below a bound -/

/-- Below the bound the second program has the functions of the first one.  Only the function `id`
has gained values and statements, and the scope of the root has given out names. -/
structure Gains (bound id root : FunctionId) (p q : Program) (values : List ValueData)
    (statements : List Statement) (inputs numbers : Nat) : Prop where
  name : q.name = p.name
  distribution : q.distribution? = p.distribution?
  channels : q.channelCount = p.channelCount
  functions : ∀ j < bound, q.function? j = (p.function? j).map fun g =>
    { g with
      values := if id = j then g.values ++ values else g.values
      statements := if id = j then g.statements ++ statements else g.statements
      scope := if root = j then g.scope.advance inputs numbers else g.scope }

section Gains

variable {p q r : Program} {bound id k root : FunctionId} {values values' : List ValueData}
  {statements statements' : List Statement} {i i' n n' : Nat} {f : Function}

theorem Gains.refl (bound id root : FunctionId) (p : Program) :
    Gains bound id root p p [] [] 0 0 where
  name := rfl
  distribution := rfl
  channels := rfl
  functions j _ := by simp

theorem Gains.trans (h : Gains bound id root p q values statements i n)
    (h' : Gains bound id root q r values' statements' i' n') :
    Gains bound id root p r (values ++ values') (statements ++ statements') (i + i')
      (n + n') where
  name := h'.name.trans h.name
  distribution := h'.distribution.trans h.distribution
  channels := h'.channels.trans h.channels
  functions j hj := by
    rw [h'.functions j hj, h.functions j hj, Option.map_map]
    congr 1
    funext g
    by_cases hid : id = j
    · by_cases hroot : root = j
      · simp [hid, hroot, Scope.advance_advance]
      · simp [hid, hroot]
    · by_cases hroot : root = j
      · simp [hid, hroot, Scope.advance_advance]
      · simp [hid, hroot]

/-- What is gained above the bound is not seen below. -/
theorem Gains.above (h : Gains bound k root p q values statements i n) (hk : bound ≤ k)
    (id : FunctionId) : Gains bound id root p q [] [] i n where
  name := h.name
  distribution := h.distribution
  channels := h.channels
  functions j hj := by
    have hne : k ≠ j := Nat.ne_of_gt (Nat.lt_of_lt_of_le hj hk)
    rw [h.functions j hj]
    simp [hne]

theorem gains_addFunction (hbound : bound ≤ p.functions.length) (id root : FunctionId)
    (role : Role) : Gains bound id root p (p.addFunction role).2 [] [] 0 0 where
  name := rfl
  distribution := rfl
  channels := rfl
  functions j hj := by
    have hne : j ≠ p.functions.length := Nat.ne_of_lt (Nat.lt_of_lt_of_le hj hbound)
    rw [function?_addFunction, if_neg hne]
    simp

/-- A positional input of a function above the bound takes the free position of its root. -/
theorem gains_withInput (hf : p.function? k = some f) (hk : bound ≤ k) (id : FunctionId)
    (shape : Shape) : Gains bound id (p.root k) p
      (p.withInput k ⟨.argument (p.scope k).freeArgument, shape, none⟩) [] [] 1 0 where
  name := rfl
  distribution := rfl
  channels := rfl
  functions j hj := by
    have hne : k ≠ j := Nat.ne_of_gt (Nat.lt_of_lt_of_le hj hk)
    rw [function?_withInput _ hf]
    apply Option.map_congr
    intro g hg
    by_cases hroot : p.root k = j
    · have hscope : p.scope k = g.scope := by simp [scope, hroot, hg]
      simp [hne, hroot, hscope, Scope.takeInput, Scope.advance, Scope.takeFree, Scope.takeNumbers]
    · simp [hne, hroot]

/-- An operation adds one statement, and its outputs take numbers. -/
theorem gains_withOperation (hf : p.function? id = some f) {o : Operation Value FunctionId}
    (ho : o.isCollective = false)
    (hclosure : ∀ use, o.closureUse? = some use → bound ≤ use.function)
    (shaped : Operation Shape Inference.Signature) (outputs : List Shape) :
    Gains bound id (p.root id) p (p.withOperation id o shaped outputs)
      (numberedData (p.scope id).valueCount outputs)
      [newStatement id f.values o.kind o.operands
        ((shaped.explicit outputs).attributes ++ p.channelAttributes o.isCollective)
        o.closureUse? outputs] 0 outputs.length where
  name := name_withOperation p id o shaped outputs
  distribution := distribution_withOperation p id o shaped outputs
  channels := by
    rw [Builder.channelCount_withOperation, ho]
    rfl
  functions j hj := by
    have hconsumed : o.closureUse?.any (·.function == j) = false := by
      cases huse : o.closureUse? with
      | none => rfl
      | some use =>
        exact beq_false_of_ne (Nat.ne_of_gt (Nat.lt_of_lt_of_le hj (hclosure use huse)))
    rw [function?_withOperation hf]
    simp only [hconsumed, Bool.or_false]
    rfl

/-- A return above the bound. -/
theorem gains_withReturn (hf : p.function? k = some f) (hk : bound ≤ k) (id root : FunctionId)
    (values : List Value) (outputs : List Output) :
    Gains bound id root p (p.withReturn k values outputs) [] [] 0 0 where
  name := name_withReturn p k values outputs
  distribution := distribution_withReturn p k values outputs
  channels := Builder.channelCount_addStatement p k (Builder.returnKind p k) values [] none []
  functions j hj := by
    have hne : k ≠ j := Nat.ne_of_gt (Nat.lt_of_lt_of_le hj hk)
    rw [function?_withReturn p k values outputs hf]
    simp [hne]

end Gains

/-- The function at the position has the role, has returned, and serves a statement. -/
def ConsumedAt (p : Program) (j : FunctionId) (role : Role) : Prop :=
  ∃ c, p.function? j = some c ∧ c.role = role ∧ c.isReturned = true ∧ c.consumed = true

theorem shapeOf_eq_ok_iff_shape? {p : Program} {id : FunctionId} {v : Value} {s : Shape} :
    p.shapeOf id v = .ok s ↔ v.function = id ∧ p.shape? v = some s := by
  constructor
  · intro h
    exact ⟨(shapeOf_eq_ok.mp h).1, shape?_eq_of_shapeOf h⟩
  · intro h
    obtain ⟨rfl, hshape⟩ := h
    obtain ⟨data, hdata, rfl⟩ := Option.map_eq_some_iff.mp hshape
    obtain ⟨f, hf, hdata⟩ := Option.bind_eq_some_iff.mp hdata
    exact shapeOf_eq_ok.mpr ⟨rfl, f, data, hf, hdata, rfl⟩

/-! ## A function above the bound -/

/-- Between the two programs the function `body`, which lies above the bound, may have been filled.
Below the bound only the scope of its root has changed: it has given out a position for every new
input and a number for every other new value. -/
structure Fills (bound body : FunctionId) (p q : Program) : Prop where
  grown : p.Extends q
  gains : ∀ w w', p.view? body = some w → q.view? body = some w' →
    ∃ i n, w'.inputs.length = w.inputs.length + i ∧ w'.shapes.length = w.shapes.length + (i + n) ∧
      ∀ id, Gains bound id (p.root body) p q [] [] i n

section Fills

variable {p q r : Program} {bound body : FunctionId}

theorem Fills.refl (bound body : FunctionId) (p : Program) : Fills bound body p p where
  grown := .refl p
  gains w w' hw hw' := by
    obtain rfl : w = w' := Option.some.inj (hw.symm.trans hw')
    exact ⟨0, 0, rfl, rfl, fun id => .refl bound id _ p⟩

theorem Fills.trans (h : Fills bound body p q) (h' : Fills bound body q r) :
    Fills bound body p r where
  grown := h.grown.trans h'.grown
  gains w w'' hw hw'' := by
    obtain ⟨f, hf, _⟩ := Option.map_eq_some_iff.mp hw
    obtain ⟨g, hg, _⟩ := h.grown body f hf
    have hw' : q.view? body = some g.view := by rw [view?, hg]; rfl
    obtain ⟨i, n, hinputs, hshapes, hgains⟩ := h.gains w g.view hw hw'
    obtain ⟨i', n', hinputs', hshapes', hgains'⟩ := h'.gains g.view w'' hw' hw''
    rw [h.grown.root_eq hf] at hgains'
    refine ⟨i + i', n + n', ?_, ?_, fun id => (hgains id).trans (hgains' id)⟩
    · omega
    · omega

end Fills

end Program

namespace Builder

open Program

variable {bound body : FunctionId}

theorem input_fills (hbody : bound ≤ body) (shape : Shape) :
    (input body shape).Relates (Fills bound body) := by
  refine (input_allOrNothing body shape).relates (Fills.refl bound body) fun p v q hrun => ?_
  refine ⟨(input_allOrNothing body shape).extends hrun, fun w w' hw hw' => ?_⟩
  obtain ⟨f, hf, hopen⟩ : ∃ f, p.function? body = some f ∧ f.returned? = none := by
    rw [input, run_bind_eq_ok] at hrun
    obtain ⟨f, _, hcheck, _⟩ := hrun
    exact ⟨f, openFunction_eq_ok.mp (run_check_eq_ok.mp hcheck).1⟩
  obtain rfl := (Prod.mk.inj (hrun.symm.trans (input_succeeds hf hopen shape).1)).2
  rw [view?_withInput hf, hw, Option.map_some, if_pos rfl, Option.some.injEq] at hw'
  refine ⟨1, 0, ?_, ?_, fun id => gains_withInput hf hbody id shape⟩
  · simp [← hw']
  · simp [← hw']

theorem appendSingle_fills (hbody : bound ≤ body) {o : Operation Value FunctionId}
    (ho : o.isCollective = false) (hclosure : o.computation? = none) :
    (appendSingle body o).Relates (Fills bound body) := by
  refine .bind (fun _ _ _ => .trans) ?_ fun _ p => .refl bound body p
  refine (append_allOrNothing body o).relates (Fills.refl bound body) fun p values q hrun => ?_
  refine ⟨(append_allOrNothing body o).extends hrun, fun w w' hw hw' => ?_⟩
  obtain ⟨f, shaped, outputs, hf, _, _, _, rfl⟩ := run_append_eq_ok.mp hrun
  rw [view?_withOperation hf hclosure, hw, Option.map_some, if_pos rfl, Option.some.injEq] at hw'
  have huse : ∀ use, o.closureUse? = some use → bound ≤ use.function := by
    simp [Operation.closureUse?, hclosure]
  refine ⟨0, outputs.length, ?_, ?_, fun id =>
    (gains_withOperation hf ho huse shaped outputs).above hbody id⟩
  · simp [← hw']
  · simp [← hw']

theorem returnValues_fills (hbody : bound ≤ body) (values : List Value) :
    (returnValues body values).Relates (Fills bound body) := by
  have hreturn := returnSharded_allOrNothing body values (values.map fun _ => none)
  refine hreturn.relates (Fills.refl bound body) fun p v q hrun => ?_
  refine ⟨hreturn.extends hrun, fun w w' hw hw' => ?_⟩
  obtain ⟨outputs, hcheck, rfl⟩ := run_returnSharded_eq_ok.mp hrun
  obtain ⟨f, _, hopen, _⟩ := checkReturn_eq_ok hcheck
  have hf := (openFunction_eq_ok.mp hopen).1
  rw [view?_withReturn hf, hw, Option.map_some, if_pos rfl, Option.some.injEq] at hw'
  refine ⟨0, 0, ?_, ?_, fun id => gains_withReturn hf hbody id _ values outputs⟩
  · simp [← hw']
  · simp [← hw']

/-- The closure of a search takes four positions and six numbers. -/
theorem run_fillBetterPair_gains {p q : Program} {e : Extremum} {t positionType : ElementType}
    {role : Role} (hbody : bound ≤ body) (ht : t.isComplex = false)
    (hview : p.view? body = some ⟨role, [], [], none, false⟩)
    (h : (fillBetterPair body e t positionType).run p = (.ok (), q)) (id : FunctionId) :
    q.view? body = some (betterPairView body role t positionType) ∧
      Gains bound id (p.root body) p q [] [] 4 6 := by
  obtain ⟨q', ⟨hrun, _⟩, hview', _⟩ := fillBetterPair_turns ht e positionType role p hview
  obtain rfl : q = q' := (Prod.mk.inj (h.symm.trans hrun)).2
  have hfills : Fills bound body p q := by
    have hrelates := fillBetterPair_relates_of (R := Fills bound body) (fun _ _ _ => Fills.trans)
      (input_fills hbody) (fun o ho hclosure => appendSingle_fills hbody ho hclosure)
      (returnValues_fills hbody) e t positionType p
    rwa [h] at hrelates
  obtain ⟨i, n, hinputs, hshapes, hgains⟩ := hfills.gains _ _ hview hview'
  obtain rfl : 4 = i := by simpa [betterPairView] using hinputs
  obtain rfl : 6 = n := by
    simp only [betterPairView, betterPairShapes, List.length_cons, List.length_nil] at hshapes
    omega
  exact ⟨hview', hgains id⟩

/-! ## The search as a whole -/

section Search

variable {p q : Program} {id : FunctionId} {e : Extremum} {operand v : Value} {axis : Int}
  {t positionType : ElementType}

/-- A literal can hold the worst element of the types that the message of a search lists. -/
theorem worst?_isSome (e : Extremum) (t : ElementType) :
    (e.worst? t).isSome = ElementClass.integerOrLiteralReal.contains t := by
  cases t with
  | boolean => rfl
  | signed w => rfl
  | unsigned w => rfl
  | real format => cases format <;> rfl
  | complex precision => rfl

/-- A search passes its check in an open function, on an operand that inference accepts and whose
worst element a literal can hold. -/
theorem exists_checkSearch :
    (∃ search, checkSearch id e operand axis positionType p = .ok search) ↔
      ∃ f s result t, p.function? id = some f ∧ f.returned? = none ∧
        p.shapeOf id operand = .ok s ∧ Inference.argMinMax s axis positionType = .ok result ∧
        Inference.elementType s = .ok t ∧ (e.worst? t).isSome = true := by
  constructor
  · intro h
    obtain ⟨search, hsearch⟩ := h
    obtain ⟨⟨f, hopen⟩, hoperand, ht, _, _, _, result, hresult⟩ := checkSearch_eq_ok hsearch
    obtain ⟨hf, hreturned⟩ := openFunction_eq_ok.mp hopen
    refine ⟨f, search.shape, result, search.elementType, hf, hreturned, hoperand, hresult, ht, ?_⟩
    cases hworst : e.worst? search.elementType with
    | some worst => rfl
    | none =>
      simp only [checkSearch, hopen, hoperand, hresult, ht, hworst, Except.mapError,
        ok_bind] at hsearch
      cases hsearch
  · intro h
    obtain ⟨f, s, result, t, hf, hreturned, hoperand, hresult, ht, hworst⟩ := h
    obtain ⟨worst, hworst⟩ := Option.isSome_iff_exists.mp hworst
    obtain ⟨_, hinteger, _⟩ := Inference.argMinMax_eq_ok hresult
    refine ⟨⟨s, t, ⟨.scalar t, worst⟩, ⟨.scalar positionType, zeroPosition positionType⟩⟩, ?_⟩
    simp only [checkSearch, openFunction_eq_ok.mpr ⟨hf, hreturned⟩, hoperand, hresult, ht, hworst,
      zeroPosition_literal hinteger, Except.mapError, ok_bind]
    rfl

theorem integerOrLiteralReal_contains {t : ElementType} :
    ElementClass.integerOrLiteralReal.contains t = true ↔
      t.isInteger = true ∨ t ∈ [.real .f16, .real .bf16, .real .f32, .real .f64] := by
  simp [ElementClass.contains, or_assoc]

/-- All that can keep a search from succeeding is its check. -/
theorem argExtremum_succeeds_iff :
    (∃ v q, (argExtremum id e operand axis positionType).run p = (.ok v, q)) ↔
      ∃ search, checkSearch id e operand axis positionType p = .ok search := by
  constructor
  · intro h
    obtain ⟨v, q, hrun⟩ := h
    obtain ⟨search, _, _, _, _, _, _, _, _, _, _, hsearch, _⟩ := run_argExtremum hrun
    exact ⟨search, hsearch⟩
  · intro h
    obtain ⟨search, hsearch⟩ := h
    obtain ⟨v, q, hrun, _⟩ := argExtremum_succeeds hsearch
    exact ⟨v, q, hrun⟩

/-- What an operation adds to its function. -/
theorem run_append_gains {bound : FunctionId} {o : Operation Value FunctionId} {values : List Value}
    (ho : o.isCollective = false)
    (hclosure : ∀ use, o.closureUse? = some use → bound ≤ use.function)
    (h : (append id o).run p = (.ok values, q)) :
    ∃ data s, Gains bound id (p.root id) p q data [s] 0 values.length ∧ s.op = o.kind ∧
      s.closure? = o.closureUse? ∧ s.outputs = values := by
  obtain ⟨f, shaped, outputs, hf, _, _, rfl, rfl⟩ := run_append_eq_ok.mp h
  have hgains := gains_withOperation hf ho hclosure shaped outputs
  have hlength : (consecutiveValues id f.values.length outputs.length).length = outputs.length := by
    simp [consecutiveValues]
  exact ⟨_, _, hlength ▸ hgains, rfl, rfl, rfl⟩

theorem run_appendSingle_gains (bound : FunctionId) {o : Operation Value FunctionId}
    {shaped : Operation Shape Inference.Signature} {s : Shape} (ho : o.isCollective = false)
    (hclosure : o.computation? = none)
    (htraverse : o.traverse (p.shapeOf id) (p.closureSignature id) = .ok shaped)
    (hinfer : shaped.infer = .ok [s]) (h : (appendSingle id o).run p = (.ok v, q)) :
    ∃ data t, Gains bound id (p.root id) p q data [t] 0 1 ∧ t.op = o.kind := by
  obtain ⟨values, happend, _⟩ := run_appendSingle h
  obtain ⟨shaped', outputs, htraverse', hinfer', hlength, _⟩ := run_append_body ho happend
  obtain rfl : shaped = shaped' := Except.ok.inj (htraverse.symm.trans htraverse')
  obtain rfl : [s] = outputs := Except.ok.inj (hinfer.symm.trans hinfer')
  have huse : ∀ use, o.closureUse? = some use → bound ≤ use.function := by
    simp [Operation.closureUse?, hclosure]
  obtain ⟨data, t, hgains, hop, _⟩ := run_append_gains ho huse happend
  rw [hlength] at hgains
  exact ⟨data, t, hgains, hop⟩

/-- A reduction of two inputs has two outputs. -/
theorem length_of_run_reduce {a b : Value} {initials values : List Value} {axes : List Int}
    {body : FunctionId} (h : (append id (.reduce [a, b] initials axes body)).run p =
      (.ok values, q)) : values.length = 2 := by
  obtain ⟨shaped, outputs, htraverse, hinfer, hlength, _⟩ := run_append_body rfl h
  simp only [Operation.traverse, bind_eq_ok, pure_eq_ok, Except.ok.injEq] at htraverse
  obtain ⟨inputs, hinputs, starts, _, signature, _, rfl⟩ := htraverse
  obtain ⟨first, rest, _, hrest, rfl⟩ := List.forall₂_cons_left_iff.mp (mapM_eq_ok.mp hinputs)
  obtain ⟨types, as, htypes, _, rfl⟩ := Inference.reduce_outputs (Operation.infer_eq_ok.mp hinfer)
  have htypesLength := (mapM_eq_ok.mp htypes).length_eq
  have hrestLength := hrest.length_eq
  rw [hlength, List.length_map, ← htypesLength, List.length_cons, ← hrestLength]
  rfl

/-- The reduction of a search makes a closure and uses it. -/
theorem run_searchReduction_gains {body : FunctionId} {q₁ q₂ : Program} {a b : Value}
    {initials outputs : List Value} {axes : List Int} (ht : t.isComplex = false)
    (hclosure : (closure id).run p = (.ok body, q₁))
    (hfill : (fillBetterPair body e t positionType).run q₁ = (.ok (), q₂))
    (hreduce : (append id (.reduce [a, b] initials axes body)).run q₂ = (.ok outputs, q)) :
    q.functions.length = p.functions.length + 1 ∧
      q.ConsumedAt p.functions.length (.closure id (p.root id)) ∧
      ∃ data reduction, Gains p.functions.length id (p.root id) p q data [reduction] 4 8 ∧
        reduction.op = .reduce ∧ reduction.closure? = some ⟨"body", p.functions.length⟩ ∧
        reduction.outputs = outputs := by
  have hgrown₁ := (closure_allOrNothing id).extends hclosure
  obtain ⟨⟨f, hopen⟩, rfl, rfl⟩ := run_closure_eq_ok.mp hclosure
  have hf := (openFunction_eq_ok.mp hopen).1
  have hview : (p.addFunction (.closure id (p.root id))).2.view? p.functions.length =
      some ⟨.closure id (p.root id), [], [], none, false⟩ := by
    rw [view?_addFunction, if_pos rfl]
  have hroot : (p.addFunction (.closure id (p.root id))).2.root p.functions.length = p.root id := by
    unfold root
    rw [function?_addFunction, if_pos rfl]
    rfl
  obtain ⟨hview', hgains⟩ := run_fillBetterPair_gains (Nat.le_refl _) ht hview hfill id
  rw [hroot] at hgains
  have hroot₂ : q₂.root id = p.root id :=
    (hgrown₁.trans (fillBetterPair_extends ht hview hfill)).root_eq hf
  refine ⟨?_, ?_, ?_⟩
  · rw [(append_leaves_length id _).run_eq hreduce,
      (fillBetterPair_leaves_length _ e t positionType).run_eq hfill]
    simp [addFunction]
  · obtain ⟨c, hc, hcview⟩ := Option.map_eq_some_iff.mp hview'
    obtain ⟨g, shaped, results, hg, _, _, _, rfl⟩ := run_append_eq_ok.mp hreduce
    refine ⟨_, by rw [function?_withOperation hg, hc, Option.map_some], ?_, ?_, ?_⟩
    · exact congrArg Function.View.role hcview
    · have houtputs := congrArg (Option.isSome ∘ Function.View.outputs?) hcview
      simpa [Function.view, betterPairView, Function.isReturned] using houtputs
    · simp [Operation.closureUse?, Operation.computation?]
  · have huse : ∀ use, (Operation.reduce [a, b] initials axes p.functions.length).closureUse? =
        some use → p.functions.length ≤ use.function := by
      intro use huse
      obtain rfl := Option.some.inj huse
      exact Nat.le_refl _
    obtain ⟨data, reduction, hgains', hop, hclosure?, houtputs⟩ := run_append_gains rfl huse hreduce
    rw [hroot₂, length_of_run_reduce hreduce] at hgains'
    have hstart := gains_addFunction (Nat.le_refl p.functions.length) id (p.root id)
      (.closure id (p.root id))
    exact ⟨data, reduction, (hstart.trans hgains).trans hgains', hop, hclosure?, houtputs⟩

/-- A search adds four statements to its function and one closure to the program. -/
theorem run_argExtremum_gains
    (h : (argExtremum id e operand axis positionType).run p = (.ok v, q)) :
    q.functions.length = p.functions.length + 1 ∧
      q.ConsumedAt p.functions.length (.closure id (p.root id)) ∧
      ∃ values positions worst zero reduction, positions.op = .iota ∧ worst.op = .constant ∧
        zero.op = .constant ∧ reduction.op = .reduce ∧
        reduction.closure? = some ⟨"body", p.functions.length⟩ ∧ reduction.outputs[1]? = some v ∧
        Gains p.functions.length id (p.root id) p q values
          [positions, worst, zero, reduction] 4 11 := by
  obtain ⟨search, v₁, v₂, v₃, body, outputs, q₁, q₂, q₃, q₄, q₅, hsearch, h₁, h₂, h₃, h₄, h₅, h₆,
    hv⟩ := run_argExtremum h
  obtain ⟨⟨f, hopen⟩, _, _, hcomplex, _, _, result, hresult⟩ := checkSearch_eq_ok hsearch
  obtain ⟨hscalar, hinteger, a, ha, hlt, rfl⟩ := Inference.argMinMax_eq_ok hresult
  have hf := (openFunction_eq_ok.mp hopen).1
  rw [ha] at h₁ h₆
  have hinfer := infer_iota_positions hscalar hinteger hlt
  -- on the way the function keeps its root, and no other function is made
  have hgrown₁ : p.Extends q₁ := appendSingle_extends h₁
  have hgrown₂ : p.Extends q₂ := hgrown₁.trans (appendSingle_extends h₂)
  have hgrown₃ : p.Extends q₃ := hgrown₂.trans (appendSingle_extends h₃)
  have hlength : q₃.functions.length = p.functions.length :=
    ((appendSingle_leaves_length id _).run_eq h₃).trans
      (((appendSingle_leaves_length id _).run_eq h₂).trans
        ((appendSingle_leaves_length id _).run_eq h₁))
  obtain ⟨data₁, positions, hgains₁, hpositions⟩ :=
    run_appendSingle_gains p.functions.length rfl rfl rfl hinfer h₁
  obtain ⟨data₂, worst, hgains₂, hworst⟩ :=
    run_appendSingle_gains p.functions.length rfl rfl rfl rfl h₂
  obtain ⟨data₃, zero, hgains₃, hzero⟩ :=
    run_appendSingle_gains p.functions.length rfl rfl rfl rfl h₃
  obtain ⟨hfunctions, hconsumed, data₄, reduction, hgains₄, hreduction, hclosure, houtputs⟩ :=
    run_searchReduction_gains hcomplex h₄ h₅ h₆
  rw [hgrown₁.root_eq hf] at hgains₂
  rw [hgrown₂.root_eq hf] at hgains₃
  rw [hlength, hgrown₃.root_eq hf] at hgains₄ hconsumed
  rw [hlength] at hfunctions hclosure
  exact ⟨hfunctions, hconsumed, _, positions, worst, zero, reduction, hpositions, hworst, hzero,
    hreduction, hclosure, houtputs ▸ hv, ((hgains₁.trans hgains₂).trans hgains₃).trans hgains₄⟩

end Search

/-- A search succeeds exactly in an open function, on a value of this function that inference
accepts and whose elements are integers or real numbers that literals can hold.  It puts out a value
of the inferred shape.  The function gains four statements, and there is one more closure, which
serves the last of them.  All other functions stay as they are; only the scope of the root has given
out four positions and eleven numbers. -/
theorem argExtremum_agrees_with_argMinMax (p : Program) (id : FunctionId) (e : Extremum)
    (operand : Value) (axis : Int) (positionType : ElementType) :
    ((∃ v q, (argExtremum id e operand axis positionType).run p = (.ok v, q)) ↔
      ∃ f s result t, p.function? id = some f ∧ f.returned? = none ∧ operand.function = id ∧
        p.shape? operand = some s ∧ Inference.argMinMax s axis positionType = .ok result ∧
        s.elementType? = some t ∧
        (t.isInteger = true ∨ t ∈ [.real .f16, .real .bf16, .real .f32, .real .f64])) ∧
    ∀ v q, (argExtremum id e operand axis positionType).run p = (.ok v, q) →
      (∃ s result, p.shape? operand = some s ∧
        Inference.argMinMax s axis positionType = .ok result ∧ q.shape? v = some result) ∧
      q.functions.length = p.functions.length + 1 ∧
      q.ConsumedAt p.functions.length (.closure id (p.root id)) ∧
      ∃ values positions worst zero reduction, positions.op = .iota ∧ worst.op = .constant ∧
        zero.op = .constant ∧ reduction.op = .reduce ∧
        reduction.closure? = some ⟨"body", p.functions.length⟩ ∧ reduction.outputs[1]? = some v ∧
        Gains p.functions.length id (p.root id) p q values
          [positions, worst, zero, reduction] 4 11 := by
  constructor
  · rw [argExtremum_succeeds_iff, exists_checkSearch]
    simp only [shapeOf_eq_ok_iff_shape?, Inference.elementType_eq_ok, worst?_isSome,
      integerOrLiteralReal_contains, and_assoc]
  · intro v q h
    obtain ⟨s, result, _, hoperand, hresult, _, hsearch⟩ := run_argExtremum_records h
    exact ⟨⟨s, result, shape?_eq_of_shapeOf hoperand, hresult, hsearch.result⟩,
      run_argExtremum_gains h⟩

/-- Two functions, the first one with a matrix for its input. -/
def matrixBeside : Program :=
  .ofCalls "example" [.function "main" [.of (.real .bf16) [2, 3]],
    .function "other" [.of (.real .bf16) [2, 3]]]

/-- A search in the first function leaves the second one as it is. -/
theorem argExtremum_agrees_beside :
    ∃ v q, (argExtremum 0 .least ⟨0, 0⟩ (-1) (.signed .w64)).run matrixBeside = (.ok v, q) ∧
      q.shape? v = some (.of (.signed .w64) [2]) ∧ q.functions.length = 3 ∧
      q.ConsumedAt 2 (.closure 0 0) ∧ q.function? 1 = matrixBeside.function? 1 := by
  obtain ⟨hiff, hchanges⟩ :=
    argExtremum_agrees_with_argMinMax matrixBeside 0 .least ⟨0, 0⟩ (-1) (.signed .w64)
  have hresult : Inference.argMinMax (.of (.real .bf16) [2, 3]) (-1) (.signed .w64) =
      .ok (.of (.signed .w64) [2]) := by decide
  obtain ⟨v, q, hrun⟩ := hiff.mpr ⟨_, _, _, _, rfl, by decide, rfl, by decide, hresult, rfl,
    .inr (by decide)⟩
  obtain ⟨⟨s, result, hs, hresult', hv⟩, hlength, hclosure, _, _, _, _, _, _, _, _, _, _, _,
    hgains⟩ := hchanges v q hrun
  obtain rfl : Shape.of (.real .bf16) [2, 3] = s := by
    apply Option.some.inj
    exact Eq.trans (by decide) hs
  obtain rfl := Except.ok.inj (hresult.symm.trans hresult')
  refine ⟨v, q, hrun, hv, hlength, hclosure, ?_⟩
  exact (hgains.functions 1 (by decide)).trans rfl

end Builder

end TensorProgram
