import TensorProgram.Proofs.Step

/-!
# Runs of builders

`Builder.AllOrNothing` is the shape of every builder here: a run that fails leaves the
program alone, and a run that succeeds goes from one program to the next in steps.  The
builders look at the program again when they have started to change it; `input_succeeds`,
`append_succeeds` and their like say that those looks find nothing new.
-/

namespace TensorProgram

namespace Builder

open Program

variable {α β : Type}

/-- The builder succeeds, and the program changes in steps. -/
def Succeeds (b : Builder α) (p : Program) (a : α) (q : Program) : Prop :=
  b.run p = (.ok a, q) ∧ Steps p q

/-- A failure leaves the program alone, and a success is made of steps. -/
def AllOrNothing (b : Builder α) : Prop :=
  ∀ p, (∃ e, b.run p = (.error e, p)) ∨ ∃ a q, b.Succeeds p a q

theorem run_bind (b : Builder α) (next : α → Builder β) (p : Program) :
    (b >>= next).run p =
      match b.run p with
      | (.ok a, q) => (next a).run q
      | (.error e, q) => (.error e, q) := rfl

theorem run_bind_ok {b : Builder α} {next : α → Builder β} {p q : Program} {a : α}
    (h : b.run p = (.ok a, q)) : (b >>= next).run p = (next a).run q := by
  rw [run_bind, h]

theorem run_bind_error {b : Builder α} {next : α → Builder β} {p q : Program} {e : BuildError}
    (h : b.run p = (.error e, q)) : (b >>= next).run p = (.error e, q) := by
  rw [run_bind, h]

theorem run_check (question : Program → Except BuildError α) (p : Program) :
    (check question).run p = (question p, p) := rfl

theorem run_change (f : Program → α × Program) (p : Program) :
    (change f).run p = (.ok (f p).1, (f p).2) := rfl

theorem Succeeds.bind {b : Builder α} {next : α → Builder β} {p q r : Program} {a : α} {c : β}
    (h : b.Succeeds p a q) (h' : (next a).Succeeds q c r) : (b >>= next).Succeeds p c r :=
  ⟨(run_bind_ok h.1).trans h'.1, h.2.trans h'.2⟩

theorem succeeds_pure (a : α) (p : Program) : (pure a : Builder α).Succeeds p a p :=
  ⟨rfl, .refl⟩

theorem succeeds_check {question : Program → Except BuildError α} {p : Program} {a : α}
    (h : question p = .ok a) : (check question).Succeeds p a p :=
  ⟨by rw [run_check, h], .refl⟩

theorem succeeds_change {f : Program → α × Program} {p : Program} (h : Step p (f p).2) :
    (change f).Succeeds p (f p).1 (f p).2 :=
  ⟨rfl, .single h⟩

/-- Whatever follows a check only has to deal with a check that succeeded. -/
theorem check_bind_cases {question : Program → Except BuildError α} {next : α → Builder β}
    {p : Program}
    (h : ∀ a, question p = .ok a → (∃ e, (next a).run p = (.error e, p)) ∨
      ∃ c q, (next a).Succeeds p c q) :
    (∃ e, (check question >>= next).run p = (.error e, p)) ∨
      ∃ c q, (check question >>= next).Succeeds p c q := by
  cases hq : question p with
  | error e => exact .inl ⟨e, run_bind_error (by rw [run_check, hq])⟩
  | ok a =>
    rcases h a hq with ⟨e, he⟩ | ⟨c, q, hc⟩
    · exact .inl ⟨e, (run_bind_ok (by rw [run_check, hq])).trans he⟩
    · exact .inr ⟨c, q, (succeeds_check hq).bind hc⟩

theorem AllOrNothing.bind_pure {b : Builder α} (h : b.AllOrNothing) (g : α → β) :
    (b >>= fun a => pure (g a)).AllOrNothing := by
  intro p
  rcases h p with ⟨e, he⟩ | ⟨a, q, ha⟩
  · exact .inl ⟨e, run_bind_error he⟩
  · exact .inr ⟨g a, q, ha.bind (succeeds_pure (g a) q)⟩

theorem AllOrNothing.eq_of_error {b : Builder α} (h : b.AllOrNothing) {p q : Program}
    {e : BuildError} (hrun : b.run p = (.error e, q)) : q = p := by
  rcases h p with ⟨e', he⟩ | ⟨a, r, hr, _⟩
  · exact (Prod.mk.inj (hrun.symm.trans he)).2
  · cases hrun.symm.trans hr

/-! ## Steps of the frame -/

theorem setReplicasAndPartitions_allOrNothing (replicas partitions : Nat) :
    (setReplicasAndPartitions replicas partitions).AllOrNothing := by
  intro p
  refine check_bind_cases fun _ h => .inr ⟨(), _, succeeds_change (.counts ?_)⟩
  intro ms hms
  rw [hms] at h
  cases h

theorem addMesh_allOrNothing (mesh : Mesh) : (addMesh mesh).AllOrNothing := by
  intro p
  exact check_bind_cases fun _ h => .inr ⟨(), _, succeeds_change (.mesh h)⟩

/-- A closure of an open function is the next function. -/
theorem closure_succeeds {p : Program} {id : FunctionId} {f : Function}
    (hf : p.function? id = some f) (hopen : f.returned? = none) :
    (closure id).Succeeds p p.functions.length
      (p.addFunction (.closure id (p.root id))).2 :=
  (succeeds_check (openFunction_eq_ok.mpr ⟨hf, hopen⟩)).bind (succeeds_change (.closure hf hopen))

theorem closure_allOrNothing (id : FunctionId) : (closure id).AllOrNothing := by
  intro p
  refine check_bind_cases fun f h => .inr ?_
  obtain ⟨hf, hopen⟩ := openFunction_eq_ok.mp h
  exact ⟨_, _, succeeds_change (.closure hf hopen)⟩

/-! ## Inputs -/

/-- The new value of an input. -/
theorem withInput_eq {p : Program} {id : FunctionId} {f : Function} (data : ValueData)
    (hf : p.function? id = some f) :
    (p.modifyScope id (·.takeInput data.name)).addInput id data =
      (⟨id, f.values.length⟩, p.withInput id data) := by
  have hf' := function?_modifyScope p id id (·.takeInput data.name)
  rw [hf, Option.map_some] at hf'
  have hfst := addInput_fst _ data hf'
  exact Prod.ext hfst rfl

/-- An open function takes every positional input. -/
theorem input_succeeds {p : Program} {id : FunctionId} {f : Function}
    (hf : p.function? id = some f) (hopen : f.returned? = none) (shape : Shape) :
    (input id shape).Succeeds p ⟨id, f.values.length⟩
      (p.withInput id ⟨.argument (p.scope id).freeArgument, shape, none⟩) := by
  have hchange : p.addPositionalInput id shape = _ :=
    withInput_eq ⟨.argument (p.scope id).freeArgument, shape, none⟩ hf
  refine (succeeds_check (openFunction_eq_ok.mpr ⟨hf, hopen⟩)).bind ⟨?_, ?_⟩
  · rw [run_change, hchange]
  · exact .single (.input hf hopen .positional (by simp))

theorem input_allOrNothing (id : FunctionId) (shape : Shape) :
    (input id shape).AllOrNothing := by
  intro p
  cases h : p.openFunction id with
  | error e => exact .inl ⟨e, run_bind_error (by rw [run_check, h])⟩
  | ok f =>
    obtain ⟨hf, hopen⟩ := openFunction_eq_ok.mp h
    exact .inr ⟨_, _, input_succeeds hf hopen shape⟩

/-- An open function takes an input with a new name. -/
theorem namedInput_succeeds {p : Program} {id : FunctionId} {f : Function}
    (hf : p.function? id = some f) (hopen : f.returned? = none) {text name : String}
    (hname : newInputName p id text = .ok name) (shape : Shape) :
    (namedInput id text shape).Succeeds p ⟨id, f.values.length⟩
      (p.withInput id ⟨.named name, shape, none⟩) := by
  have hchange := withInput_eq (p := p) ⟨.named name, shape, none⟩ hf
  simp only [Scope.takeInput] at hchange
  refine (succeeds_check (openFunction_eq_ok.mpr ⟨hf, hopen⟩)).bind
    ((succeeds_check hname).bind ⟨?_, ?_⟩)
  · rw [run_change, hchange]
  · exact .single (.input hf hopen (.named hname) (by simp))

theorem namedInput_allOrNothing (id : FunctionId) (name : String) (shape : Shape) :
    (namedInput id name shape).AllOrNothing := by
  intro p
  refine check_bind_cases fun f hopen => ?_
  obtain ⟨hf, hopen'⟩ := openFunction_eq_ok.mp hopen
  refine check_bind_cases fun _ hname => .inr ?_
  have hsucceeds := namedInput_succeeds hf hopen' hname shape
  rw [namedInput, Succeeds, run_bind_ok (succeeds_check hopen).1,
    run_bind_ok (succeeds_check hname).1] at hsucceeds
  exact ⟨_, _, hsucceeds⟩

/-- The sharding is set after the input was added, which makes one input of both. -/
theorem inputWithSharding_succeeds {p : Program} {id : FunctionId} {f : Function}
    (hf : p.function? id = some f) (hopen : f.returned? = none) {shape : Shape}
    {sharding : Sharding} (hsharding : p.checkSharding sharding shape = .ok ()) :
    (inputWithSharding id shape sharding).Succeeds p ⟨id, f.values.length⟩
      (p.withInput id ⟨.argument (p.scope id).freeArgument, shape, some sharding⟩) := by
  refine (succeeds_check (openFunction_eq_ok.mpr ⟨hf, hopen⟩)).bind
    ((succeeds_check hsharding).bind ⟨?_, ?_⟩)
  · rw [run_bind_ok (input_succeeds hf hopen shape).1, run_change,
      setSharding_withInput _ shape sharding hf]
  · refine .single (.input hf hopen .positional ?_)
    intro s hs
    obtain rfl : sharding = s := by simpa using hs
    exact hsharding

theorem inputWithSharding_allOrNothing (id : FunctionId) (shape : Shape) (sharding : Sharding) :
    (inputWithSharding id shape sharding).AllOrNothing := by
  intro p
  refine check_bind_cases fun f hopen => ?_
  obtain ⟨hf, hopen'⟩ := openFunction_eq_ok.mp hopen
  refine check_bind_cases fun _ hsharding => .inr ?_
  have hsucceeds := inputWithSharding_succeeds hf hopen' hsharding
  rw [inputWithSharding, Succeeds, run_bind_ok (succeeds_check hopen).1,
    run_bind_ok (succeeds_check hsharding).1] at hsucceeds
  exact ⟨_, _, hsucceeds⟩

/-- An open function takes a list of positional inputs. -/
theorem inputs_succeed {id : FunctionId} (shapes : List Shape) {p : Program} {f : Function}
    (hf : p.function? id = some f) (hopen : f.returned? = none) :
    ∃ q, (shapes.forM fun shape => do
      let _ ← input id shape : Builder Unit).Succeeds p () q := by
  induction shapes generalizing p f with
  | nil => exact ⟨p, succeeds_pure () p⟩
  | cons shape shapes ih =>
    have hinput := input_succeeds hf hopen shape
    have hf' := function?_withInput ⟨.argument (p.scope id).freeArgument, shape, none⟩ hf id
    rw [hf, Option.map_some] at hf'
    obtain ⟨q, hq⟩ := ih hf' hopen
    exact ⟨q, (hinput.bind (succeeds_pure () _)).bind hq⟩

theorem function_allOrNothing (name : String) (inputs : List Shape) :
    (function name inputs).AllOrNothing := by
  intro p
  refine check_bind_cases fun name hname => .inr ?_
  have hf := function?_addFunction p (.topLevel name) p.functions.length
  rw [if_pos rfl] at hf
  obtain ⟨q, hq⟩ := inputs_succeed inputs hf rfl
  exact ⟨_, q, (succeeds_change (f := (·.addFunction (.topLevel name))) (.function hname)).bind
    (hq.bind (succeeds_pure _ q))⟩

/-! ## Statements -/

/-- A statement whose parts are all in place is recorded. -/
theorem run_appendStatement {p : Program} {id : FunctionId} {inputs : List Value}
    {closure? : Option ClosureUse} (h : p.checkStatement id inputs closure? = .ok ())
    (op : OpKind) (attributes : List (String × Attribute)) (shapes : List Shape) :
    (appendStatement id op inputs attributes closure? shapes).run p =
      (.ok (p.addStatement id op inputs attributes closure? shapes).1,
        (p.addStatement id op inputs attributes closure? shapes).2) :=
  run_bind_ok (by rw [run_check, h])

theorem run_channelAttribute (p : Program) (collective : Bool) :
    (channelAttribute collective).run p =
      (.ok (p.channelAttributes collective), p.withChannel collective) := by
  cases collective with
  | false => rfl
  | true => rfl

/-- The channel is no part of what a statement is checked for. -/
theorem checkStatement_withChannel (p : Program) (collective : Bool) (id : FunctionId)
    (inputs : List Value) (closure? : Option ClosureUse) :
    (p.withChannel collective).checkStatement id inputs closure? =
      p.checkStatement id inputs closure? := rfl

/-- What is left to do once an operation is resolved. -/
theorem run_append {p : Program} {id : FunctionId} {o : Operation Value FunctionId}
    {shaped : Operation Shape Inference.Signature} {outputs : List Shape}
    (hresolve : p.resolve id o = .ok (shaped, outputs)) :
    (append id o).run p =
      (appendStatement id o.kind o.operands
        ((shaped.explicit outputs).attributes ++ p.channelAttributes o.isCollective)
        o.closureUse? outputs).run (p.withChannel o.isCollective) := by
  rw [append, run_bind_ok (succeeds_check hresolve).1]
  exact run_bind_ok (run_channelAttribute p o.isCollective)

/-- An operation that is resolved on an open function is recorded. -/
theorem append_succeeds {p : Program} {id : FunctionId} {f : Function}
    {o : Operation Value FunctionId} {shaped : Operation Shape Inference.Signature}
    {outputs : List Shape} (hf : p.function? id = some f) (hopen : f.returned? = none)
    (hresolve : p.resolve id o = .ok (shaped, outputs)) :
    (append id o).Succeeds p (consecutiveValues id f.values.length outputs.length)
      (p.withOperation id o shaped outputs) := by
  have hcheck := checkStatement_of_resolve hresolve (openFunction_eq_ok.mpr ⟨hf, hopen⟩)
  rw [← checkStatement_withChannel p o.isCollective] at hcheck
  refine ⟨?_, .single (.operation hf hopen hresolve)⟩
  rw [run_append hresolve, run_appendStatement hcheck,
    addStatement_fst (p := p.withChannel o.isCollective) hf]
  rfl

/-- Only an operation without operands can get as far as the last check with a function
that is not open, and such an operation has not taken a channel. -/
theorem run_append_of_returned {p : Program} {id : FunctionId} {f : Function}
    {o : Operation Value FunctionId} {shaped : Operation Shape Inference.Signature}
    {outputs : List Shape} (hf : p.function? id = some f) (hreturned : f.returned? ≠ none)
    (hresolve : p.resolve id o = .ok (shaped, outputs)) :
    (append id o).run p = (.error (.program (.alreadyReturned (f.describe id))), p) := by
  obtain ⟨outs, houts⟩ := Option.ne_none_iff_exists'.mp hreturned
  have hcollective : o.isCollective = false := by
    by_contra h
    obtain ⟨⟨g, hg, htakes⟩, _, _⟩ := resolve_eq_ok.mp hresolve
    obtain rfl : f = g := by simpa [hf] using hg
    exact hreturned (htakes (Operation.takesOperands_of_isCollective (by simpa using h)))
  have hcheck : p.checkStatement id o.operands o.closureUse? =
      .error (.program (.alreadyReturned (f.describe id))) := by
    simp [checkStatement, openFunction, getFunction, hf, require, Function.isReturned, houts]
  rw [run_append hresolve, hcollective]
  exact run_bind_error (by rw [run_check]; exact congrArg (·, p) hcheck)

theorem append_allOrNothing (id : FunctionId) (o : Operation Value FunctionId) :
    (append id o).AllOrNothing := by
  intro p
  cases hresolve : p.resolve id o with
  | error e => exact .inl ⟨e, run_bind_error (by rw [run_check, hresolve])⟩
  | ok result =>
    obtain ⟨⟨f, hf, _⟩, _, _⟩ := resolve_eq_ok.mp hresolve
    cases hopen : f.returned? with
    | none => exact .inr ⟨_, _, append_succeeds hf hopen hresolve⟩
    | some outs => exact .inl ⟨_, run_append_of_returned hf (by simp [hopen]) hresolve⟩

/-! ## Returns -/

/-- A return that passes its check is carried out. -/
theorem returnSharded_succeeds {p : Program} {id : FunctionId} {values : List Value}
    {shardings : List (Option Sharding)} {outputs : List Output}
    (hreturn : checkReturn id values shardings p = .ok outputs) :
    (returnSharded id values shardings).Succeeds p () (p.withReturn id values outputs) := by
  obtain ⟨f, shapes, hopen, hvalues⟩ := checkReturn_eq_ok hreturn
  have hcheck : p.checkStatement id values none = .ok () :=
    checkStatement_eq_ok.mpr ⟨⟨f, hopen⟩, ⟨shapes, hvalues⟩, by simp⟩
  obtain ⟨hf, hopen⟩ := openFunction_eq_ok.mp hopen
  refine ⟨?_, .single (.return hf hopen hreturn)⟩
  rw [returnSharded, run_bind_ok (succeeds_check hreturn).1,
    run_bind_ok (run_check (fun p => .ok (returnKind p id)) p),
    run_bind_ok (run_appendStatement hcheck _ _ _)]
  rfl

theorem returnSharded_allOrNothing (id : FunctionId) (values : List Value)
    (shardings : List (Option Sharding)) : (returnSharded id values shardings).AllOrNothing := by
  intro p
  cases hreturn : checkReturn id values shardings p with
  | error e => exact .inl ⟨e, run_bind_error (by rw [run_check, hreturn])⟩
  | ok outputs => exact .inr ⟨(), _, returnSharded_succeeds hreturn⟩

end Builder

end TensorProgram
