import TensorProgram.Proofs.Calls
import TensorProgram.Proofs.Walk

/-!
# What a run has done

A run that succeeds can be read backwards.  `run_bind_eq_ok` takes a chain of builders
apart, `run_append_eq_ok` and `run_returnSharded_eq_ok` say which step a builder has made,
and `run_argExtremum` lists the parts of a search.

`Builder.Relates` compares the programs before and after a run, whether it succeeds or not.
What a run has not done is a matter of `Builder.Leaves`: the builder leaves a part of the
program alone.  The part used here is the list of statements of a function, `Program.body`.
-/

namespace TensorProgram

namespace Builder

open Program

variable {α β σ : Type} {p q r : Program} {id : FunctionId}

/-! ## Runs that succeed -/

theorem run_bind_eq_ok {b : Builder α} {next : α → Builder β} {c : β} :
    (b >>= next).run p = (.ok c, r) ↔
      ∃ a q, b.run p = (.ok a, q) ∧ (next a).run q = (.ok c, r) := by
  rw [run_bind]
  rcases b.run p with ⟨_ | a, q⟩
  · simp
  · simp

theorem run_check_eq_ok {question : Program → Except BuildError α} {a : α} :
    (check question).run p = (.ok a, q) ↔ question p = .ok a ∧ p = q := by
  rw [run_check, Prod.mk.injEq]

theorem run_change_eq_ok {f : Program → α × Program} {a : α} :
    (change f).run p = (.ok a, q) ↔ f p = (a, q) := by
  rw [run_change, Prod.mk.injEq, Except.ok.injEq, ← Prod.mk.injEq]

theorem run_pure_eq_ok {a b : α} :
    (pure a : Builder α).run p = (.ok b, q) ↔ a = b ∧ p = q := by
  show ((Except.ok a, p) : Except BuildError α × Program) = (.ok b, q) ↔ _
  rw [Prod.mk.injEq, Except.ok.injEq]

/-- An operation that was appended was resolved on an open function. -/
theorem run_append_eq_ok {o : Operation Value FunctionId} {values : List Value} :
    (append id o).run p = (.ok values, q) ↔ ∃ f shaped outputs, p.function? id = some f ∧
      f.returned? = none ∧ p.resolve id o = .ok (shaped, outputs) ∧
      values = consecutiveValues id f.values.length outputs.length ∧
      q = p.withOperation id o shaped outputs := by
  constructor
  · intro h
    have hparts := h
    rw [append, run_bind_eq_ok] at hparts
    obtain ⟨⟨shaped, outputs⟩, _, hrun, _⟩ := hparts
    obtain ⟨hresolve, rfl⟩ := run_check_eq_ok.mp hrun
    -- the last check has found the function open
    have hlast := h
    rw [run_append hresolve, appendStatement, run_bind_eq_ok] at hlast
    obtain ⟨_, _, hrun, _⟩ := hlast
    obtain ⟨hcheck, _⟩ := run_check_eq_ok.mp hrun
    rw [checkStatement_withChannel] at hcheck
    obtain ⟨⟨f, hf⟩, _⟩ := checkStatement_eq_ok.mp hcheck
    obtain ⟨hf, hopen⟩ := openFunction_eq_ok.mp hf
    have hsucceeds := (append_succeeds hf hopen hresolve).1
    rw [h, Prod.mk.injEq, Except.ok.injEq] at hsucceeds
    exact ⟨f, shaped, outputs, hf, hopen, hresolve, hsucceeds.1, hsucceeds.2⟩
  · rintro ⟨f, shaped, outputs, hf, hopen, hresolve, rfl, rfl⟩
    exact (append_succeeds hf hopen hresolve).1

theorem run_appendSingle {o : Operation Value FunctionId} {v : Value}
    (h : (appendSingle id o).run p = (.ok v, q)) :
    ∃ values, (append id o).run p = (.ok values, q) ∧ values[0]? = some v := by
  rw [appendSingle, run_bind_eq_ok] at h
  obtain ⟨values, q', happend, houtput⟩ := h
  obtain ⟨hentry, rfl⟩ := run_check_eq_ok.mp houtput
  exact ⟨values, happend, Inference.entry_eq_ok.mp (mapError_eq_ok.mp hentry)⟩

/-- A return that was carried out has passed its check. -/
theorem run_returnSharded_eq_ok {values : List Value} {shardings : List (Option Sharding)} :
    (returnSharded id values shardings).run p = (.ok (), q) ↔
      ∃ outputs, checkReturn id values shardings p = .ok outputs ∧
        q = p.withReturn id values outputs := by
  constructor
  · intro h
    have hparts := h
    rw [returnSharded, run_bind_eq_ok] at hparts
    obtain ⟨outputs, _, hrun, _⟩ := hparts
    obtain ⟨hcheck, rfl⟩ := run_check_eq_ok.mp hrun
    have hsucceeds := (returnSharded_succeeds hcheck).1
    rw [h, Prod.mk.injEq] at hsucceeds
    exact ⟨outputs, hcheck, hsucceeds.2⟩
  · rintro ⟨outputs, hcheck, rfl⟩
    exact (returnSharded_succeeds hcheck).1

theorem run_closure_eq_ok {c : FunctionId} :
    (closure id).run p = (.ok c, q) ↔ (∃ f, p.openFunction id = .ok f) ∧
      c = p.functions.length ∧ q = (p.addFunction (.closure id (p.root id))).2 := by
  rw [closure, run_bind_eq_ok]
  constructor
  · rintro ⟨f, _, hrun, hchange⟩
    obtain ⟨hf, rfl⟩ := run_check_eq_ok.mp hrun
    obtain ⟨hc, hq⟩ := Prod.mk.inj (run_change_eq_ok.mp hchange)
    exact ⟨⟨f, hf⟩, hc.symm, hq.symm⟩
  · rintro ⟨⟨f, hf⟩, rfl, rfl⟩
    exact ⟨f, p, run_check_eq_ok.mpr ⟨hf, rfl⟩, rfl⟩

/-- The parts of a search: the positions, the two constants that the reduction starts from,
the closure, and the reduction. -/
theorem run_argExtremum {e : Extremum} {operand : Value} {axis : Int} {positionType : ElementType}
    {v : Value} (h : (argExtremum id e operand axis positionType).run p = (.ok v, q)) :
    ∃ search positions worst zero body outputs q₁ q₂ q₃ q₄ q₅,
      checkSearch id e operand axis positionType p = .ok search ∧
      (appendSingle id (.iota (search.shape.withElementType positionType)
        (Inference.fromFront axis search.shape.rank))).run p = (.ok positions, q₁) ∧
      (appendSingle id (.constant search.worst)).run q₁ = (.ok worst, q₂) ∧
      (appendSingle id (.constant search.zero)).run q₂ = (.ok zero, q₃) ∧
      (closure id).run q₃ = (.ok body, q₄) ∧
      (fillBetterPair body e search.elementType positionType).run q₄ = (.ok (), q₅) ∧
      (append id (.reduce [operand, positions] [worst, zero]
        [Inference.fromFront axis search.shape.rank] body)).run q₅ = (.ok outputs, q) ∧
      outputs[1]? = some v := by
  simp only [argExtremum, run_bind_eq_ok, output, run_check_eq_ok, mapError_eq_ok] at h
  obtain ⟨search, _, ⟨hsearch, rfl⟩, positions, q₁, h₁, worst, q₂, h₂, zero, q₃, h₃, body, q₄, h₄,
    _, q₅, h₅, outputs, q₆, h₆, hentry, rfl⟩ := h
  exact ⟨search, positions, worst, zero, body, outputs, q₁, q₂, q₃, q₄, q₅, hsearch, h₁, h₂, h₃,
    h₄, h₅, h₆, Inference.entry_eq_ok.mp hentry⟩

/-! ## Programs before and after a run -/

/-- However a run of the builder ends, the program before it is in the relation to the program after
it. -/
def Relates (b : Builder α) (R : Program → Program → Prop) : Prop :=
  ∀ p, R p (b.run p).2

section Relates

variable {R : Program → Program → Prop}

theorem Relates.bind {b : Builder α} {next : α → Builder β}
    (htrans : ∀ p q r, R p q → R q r → R p r) (h : b.Relates R)
    (h' : ∀ a, (next a).Relates R) : (b >>= next).Relates R := by
  intro p
  rw [run_bind]
  have hp := h p
  rcases hrun : b.run p with ⟨_ | a, q⟩
  · rwa [hrun] at hp
  · rw [hrun] at hp
    exact htrans p q _ hp (h' a q)

/-- For a builder that is all or nothing only the runs that succeed matter. -/
theorem AllOrNothing.relates {b : Builder α} (h : b.AllOrNothing) (hrefl : ∀ p, R p p)
    (hsucceeds : ∀ p a q, b.run p = (.ok a, q) → R p q) : b.Relates R := by
  intro p
  rcases h p with ⟨e, he⟩ | ⟨a, q, hq, _⟩
  · rw [he]
    exact hrefl p
  · rw [hq]
    exact hsucceeds p a q hq

end Relates

/-! ## Parts that a run leaves alone -/

/-- No run of the builder changes the part of the program. -/
def Leaves (b : Builder α) (part : Program → σ) : Prop :=
  ∀ p, part (b.run p).2 = part p

section Leaves

variable {part : Program → σ}

theorem leaves_pure (a : α) : (pure a : Builder α).Leaves part :=
  fun _ => rfl

theorem leaves_check (question : Program → Except BuildError α) :
    (check question).Leaves part :=
  fun _ => rfl

theorem leaves_change {f : Program → α × Program} (h : ∀ p, part (f p).2 = part p) :
    (change f).Leaves part :=
  h

theorem Leaves.bind {b : Builder α} {next : α → Builder β} (h : b.Leaves part)
    (h' : ∀ a, (next a).Leaves part) : (b >>= next).Leaves part :=
  Relates.bind (R := fun p q => part q = part p) (fun _ _ _ hpq hqr => hqr.trans hpq) h h'

/-- A builder for each entry of a list. -/
theorem leaves_forM {b : α → Builder Unit} (h : ∀ a, (b a).Leaves part) (xs : List α) :
    (xs.forM b).Leaves part := by
  induction xs with
  | nil => exact leaves_pure ()
  | cons x xs ih => exact (h x).bind fun _ => ih

theorem Leaves.run_eq {b : Builder α} (h : b.Leaves part) {result : Except BuildError α}
    (hrun : b.run p = (result, q)) : part q = part p := by
  have hp := h p
  rwa [hrun] at hp

theorem AllOrNothing.leaves {b : Builder α} (h : b.AllOrNothing)
    (hpart : ∀ p a q, b.run p = (.ok a, q) → part q = part p) : b.Leaves part :=
  h.relates (R := fun p q => part q = part p) (fun _ => rfl) hpart

end Leaves

end Builder

/-! ## Statements of a function -/

namespace Program

theorem body_eq {p : Program} {id : FunctionId} {f : Function} (hf : p.function? id = some f) :
    p.body id = f.statements := by
  simp [body, hf]

theorem body_addFunction (p : Program) (role : Role) (j : FunctionId) :
    (p.addFunction role).2.body j = p.body j := by
  unfold body
  rw [function?_addFunction]
  by_cases h : j = p.functions.length
  · rw [if_pos h, h, function?, List.getElem?_eq_none (Nat.le_refl _)]
    rfl
  · rw [if_neg h]

theorem body_modify (p : Program) (id j : FunctionId) {change : Function → Function}
    (h : ∀ f, (change f).statements = f.statements) : (p.modify id change).body j = p.body j := by
  unfold body
  rw [function?_modify, Option.map_map]
  congr 2
  funext f
  by_cases hid : id = j
  · simp [hid, h]
  · simp [hid]

theorem body_addPositionalInput (p : Program) (id j : FunctionId) (shape : Shape) :
    (p.addPositionalInput id shape).2.body j = p.body j := by
  simp only [addPositionalInput, addInput, addValue, modifyScope]
  rw [body_modify, body_modify, body_modify]
  all_goals exact fun _ => rfl

theorem body_withOperation {p : Program} {id : FunctionId} {f : Function}
    (hf : p.function? id = some f) (o : Operation Value FunctionId)
    (shaped : Operation Shape Inference.Signature) (outputs : List Shape) (j : FunctionId) :
    (p.withOperation id o shaped outputs).body j =
      if id = j then p.body j ++ [newStatement id f.values o.kind o.operands
        ((shaped.explicit outputs).attributes ++ p.channelAttributes o.isCollective)
        o.closureUse? outputs]
      else p.body j := by
  unfold body
  rw [function?_withOperation hf, Option.map_map]
  by_cases h : id = j
  · subst h
    simp [hf]
  · simp [h, Function.comp_def]

theorem length_withOperation (p : Program) (id : FunctionId) (o : Operation Value FunctionId)
    (shaped : Operation Shape Inference.Signature) (outputs : List Shape) :
    (p.withOperation id o shaped outputs).functions.length = p.functions.length := by
  have hconsume (q : Program) (closure? : Option ClosureUse) :
      (q.consume closure?).functions.length = q.functions.length := by
    cases closure? with
    | none => rfl
    | some use => exact List.length_modify _ _ _
  simp [withOperation, addStatement, addOutputs, modifyScope, modify, hconsume, withChannel]

theorem body_withReturn {p : Program} {id : FunctionId} {f : Function}
    (hf : p.function? id = some f) (values : List Value) (outputs : List Output)
    (j : FunctionId) :
    (p.withReturn id values outputs).body j =
      if id = j then p.body j ++
        [newStatement id f.values (Builder.returnKind p id) values [] none []]
      else p.body j := by
  unfold body
  rw [withReturn, function?_markReturned hf, Option.map_map]
  by_cases h : id = j
  · subst h
    simp [hf]
  · simp [h, Function.comp_def]

end Program

namespace Builder

open Program

variable {id j : FunctionId}

/-! ### Builders made of others -/

section Parts

variable {part : Program → σ}

theorem function_leaves_of (hadd : ∀ p role, part (p.addFunction role).2 = part p)
    (hinput : ∀ id shape, (input id shape).Leaves part) (name : String) (inputs : List Shape) :
    (function name inputs).Leaves part := by
  refine (leaves_check _).bind fun name => (leaves_change fun p => hadd p _).bind fun id => ?_
  refine (leaves_forM (fun shape => ?_) inputs).bind fun _ => leaves_pure id
  exact (hinput id shape).bind fun _ => leaves_pure ()

/-- The closure of a search takes inputs, holds operations that are not collective and have no
closure themselves, and returns. -/
theorem fillBetterPair_relates_of {R : Program → Program → Prop}
    (htrans : ∀ p q r, R p q → R q r → R p r) (hinput : ∀ shape, (input id shape).Relates R)
    (happend : ∀ o : Operation Value FunctionId, o.isCollective = false → o.computation? = none →
      (appendSingle id o).Relates R)
    (hreturn : ∀ values, (returnValues id values).Relates R) (e : Extremum)
    (elementType positionType : ElementType) :
    (fillBetterPair id e elementType positionType).Relates R := by
  refine .bind htrans (hinput _) fun lhs => .bind htrans (hinput _) fun lhsPosition => ?_
  refine .bind htrans (hinput _) fun rhs => .bind htrans (hinput _) fun rhsPosition => ?_
  refine .bind htrans (happend _ rfl rfl) fun better => ?_
  refine .bind htrans (happend _ rfl rfl) fun tie => ?_
  refine .bind htrans (happend _ rfl rfl) fun element => ?_
  refine .bind htrans (happend _ rfl rfl) fun position => ?_
  refine .bind htrans (happend _ rfl rfl) fun smaller => ?_
  refine .bind htrans (happend _ rfl rfl) fun chosen => ?_
  exact hreturn [element, chosen]

theorem fillBetterPair_leaves_of (hinput : ∀ shape, (input id shape).Leaves part)
    (happend : ∀ o : Operation Value FunctionId, o.isCollective = false →
      (appendSingle id o).Leaves part)
    (hreturn : ∀ values, (returnValues id values).Leaves part) (e : Extremum)
    (elementType positionType : ElementType) :
    (fillBetterPair id e elementType positionType).Leaves part :=
  fillBetterPair_relates_of (R := fun p q => part q = part p)
    (fun _ _ _ hpq hqr => hqr.trans hpq) hinput (fun o ho _ => happend o ho) hreturn e elementType
    positionType

end Parts

/-! ### Statements of another function -/

theorem setReplicasAndPartitions_leaves (replicas partitions : Nat) (j : FunctionId) :
    (setReplicasAndPartitions replicas partitions).Leaves (body · j) :=
  (leaves_check _).bind fun _ => leaves_change fun _ => rfl

theorem addMesh_leaves (mesh : Mesh) (j : FunctionId) : (addMesh mesh).Leaves (body · j) :=
  (leaves_check _).bind fun _ => leaves_change fun _ => rfl

theorem input_leaves (id j : FunctionId) (shape : Shape) : (input id shape).Leaves (body · j) :=
  (leaves_check _).bind fun _ => leaves_change fun p => body_addPositionalInput p id j shape

theorem namedInput_leaves (id j : FunctionId) (name : String) (shape : Shape) :
    (namedInput id name shape).Leaves (body · j) := by
  refine (leaves_check _).bind fun _ => (leaves_check _).bind fun _ => leaves_change fun p => ?_
  simp only [addInput, addValue, modifyScope]
  rw [body_modify, body_modify, body_modify]
  all_goals exact fun _ => rfl

theorem inputWithSharding_leaves (id j : FunctionId) (shape : Shape) (sharding : Sharding) :
    (inputWithSharding id shape sharding).Leaves (body · j) := by
  refine (leaves_check _).bind fun _ => (leaves_check _).bind fun _ => ?_
  refine (input_leaves id j shape).bind fun v => leaves_change fun p => ?_
  exact body_modify p v.function j fun _ => rfl

theorem closure_leaves (id j : FunctionId) : (closure id).Leaves (body · j) :=
  (leaves_check _).bind fun _ => leaves_change fun p => body_addFunction p _ j

theorem function_leaves (j : FunctionId) (name : String) (inputs : List Shape) :
    (function name inputs).Leaves (body · j) :=
  function_leaves_of (fun p role => body_addFunction p role j) (fun id => input_leaves id j) name
    inputs

/-- An operation adds a statement to its own function only. -/
theorem append_leaves (o : Operation Value FunctionId) (hj : j ≠ id) :
    (append id o).Leaves (body · j) := by
  refine (append_allOrNothing id o).leaves fun p values q hrun => ?_
  obtain ⟨f, shaped, outputs, hf, _, _, _, rfl⟩ := run_append_eq_ok.mp hrun
  show (p.withOperation id o shaped outputs).body j = p.body j
  rw [body_withOperation hf, if_neg hj.symm]

/-- An operation makes no function. -/
theorem append_leaves_length (id : FunctionId) (o : Operation Value FunctionId) :
    (append id o).Leaves (·.functions.length) := by
  refine (append_allOrNothing id o).leaves fun p values q hrun => ?_
  obtain ⟨f, shaped, outputs, _, _, _, _, rfl⟩ := run_append_eq_ok.mp hrun
  exact length_withOperation p id o shaped outputs

theorem appendSingle_leaves_length (id : FunctionId) (o : Operation Value FunctionId) :
    (appendSingle id o).Leaves (·.functions.length) :=
  (append_leaves_length id o).bind fun _ => leaves_check _

theorem input_leaves_length (id : FunctionId) (shape : Shape) :
    (input id shape).Leaves (·.functions.length) :=
  (leaves_check _).bind fun _ => leaves_change fun _ => by
    simp [addPositionalInput, addInput, addValue, modifyScope, Program.modify]

theorem returnSharded_leaves_length (id : FunctionId) (values : List Value)
    (shardings : List (Option Sharding)) :
    (returnSharded id values shardings).Leaves (·.functions.length) := by
  refine (returnSharded_allOrNothing id values shardings).leaves fun p _ q hrun => ?_
  obtain ⟨outputs, _, rfl⟩ := run_returnSharded_eq_ok.mp hrun
  simp [withReturn, addStatement, addOutputs, modifyScope, Program.modify, consume, markReturned]

theorem fillBetterPair_leaves_length (id : FunctionId) (e : Extremum)
    (elementType positionType : ElementType) :
    (fillBetterPair id e elementType positionType).Leaves (·.functions.length) :=
  fillBetterPair_leaves_of (input_leaves_length id) (fun o _ => appendSingle_leaves_length id o)
    (fun values => returnSharded_leaves_length id values _) e elementType positionType

theorem appendSingle_leaves (o : Operation Value FunctionId) (hj : j ≠ id) :
    (appendSingle id o).Leaves (body · j) :=
  (append_leaves o hj).bind fun _ => leaves_check _

/-- A return adds a statement to its own function only. -/
theorem returnSharded_leaves (values : List Value) (shardings : List (Option Sharding))
    (hj : j ≠ id) : (returnSharded id values shardings).Leaves (body · j) := by
  refine (returnSharded_allOrNothing id values shardings).leaves fun p _ q hrun => ?_
  obtain ⟨outputs, hreturn, rfl⟩ := run_returnSharded_eq_ok.mp hrun
  obtain ⟨f, _, hopen, _⟩ := checkReturn_eq_ok hreturn
  show (p.withReturn id values outputs).body j = p.body j
  rw [body_withReturn (openFunction_eq_ok.mp hopen).1, if_neg hj.symm]

/-- The closure of a search is filled without a statement elsewhere. -/
theorem fillBetterPair_leaves (e : Extremum) (elementType positionType : ElementType)
    (hj : j ≠ id) : (fillBetterPair id e elementType positionType).Leaves (body · j) :=
  fillBetterPair_leaves_of (input_leaves id j) (fun o _ => appendSingle_leaves o hj)
    (fun values => returnSharded_leaves values _ hj) e elementType positionType

end Builder

end TensorProgram
