import TensorProgram.Proofs.Step

/-!
# What a step does to functions

As far as functions go there are four kinds of steps: one that leaves all functions alone,
a new function, a new input, and a new statement, which may end the function.
`Step.effect` sorts the steps, so that an invariant on functions has four cases to deal
with.
-/

namespace TensorProgram

namespace Program

/-- The places that a new function can have. -/
inductive NewRole (p : Program) : Role → Prop
  | topLevel (name : String) : NewRole p (.topLevel name)
  | closure {id : FunctionId} {f : Function} (hf : p.function? id = some f)
      (hopen : f.returned? = none) :
    NewRole p (.closure id (p.root id))

/-- The parts of a new statement have been looked up in its function: the operands are
values of the function, the closure is ready, and the outputs are the next values. -/
structure NewStatement (p : Program) (id : FunctionId) (f : Function) (s : Statement)
    (shapes : List Shape) : Prop where
  operands : ∀ v ∈ s.inputs, v.function = id ∧ v.index < f.values.length
  closure : ∀ use, s.closure? = some use → ∃ c, p.function? use.function = some c ∧
    c.parent? = some id ∧ c.isReturned = true ∧ c.consumed = false
  outputs : s.outputs = consecutiveValues id f.values.length shapes.length

/-- What a step does to the functions of a program. -/
inductive Effect (p q : Program) : Prop
  | unchanged (hq : ∀ j, q.function? j = p.function? j)
  | function {role : Role} (hrole : p.NewRole role)
      (hq : ∀ j, q.function? j =
        if j = p.functions.length then some (.ofRole role) else p.function? j)
  | input {id : FunctionId} {f : Function} {data : ValueData} (hf : p.function? id = some f)
      (hopen : f.returned? = none) (hname : InputName p id data.name)
      (hq : ∀ j, q.function? j = (p.function? j).map fun g =>
        { g with
          inputs := if id = j then g.inputs ++ [⟨id, f.values.length⟩] else g.inputs
          values := if id = j then g.values ++ [data] else g.values
          scope := if p.root id = j then g.scope.takeInput data.name else g.scope })
  | statement {id : FunctionId} {f : Function} {s : Statement} {shapes : List Shape}
      (hf : p.function? id = some f) (hopen : f.returned? = none)
      (hs : p.NewStatement id f s shapes) (returned? : Option (List Output))
      (hq : ∀ j, q.function? j = (p.function? j).map fun g =>
        { g with
          values :=
            if id = j then g.values ++ numberedData (p.scope id).valueCount shapes else g.values
          statements := if id = j then g.statements ++ [s] else g.statements
          returned? := if id = j then returned? else g.returned?
          consumed := g.consumed || s.closure?.any (·.function == j)
          scope := if p.root id = j then g.scope.takeNumbers shapes.length else g.scope })

variable {p : Program} {id : FunctionId} {f : Function}

/-- Values that were found in a function are values of that function. -/
theorem mem_values_of_shapeOf (hf : p.function? id = some f) {values : List Value}
    {shapes : List Shape} (h : values.mapM (p.shapeOf id) = .ok shapes) {v : Value}
    (hv : v ∈ values) : v.function = id ∧ v.index < f.values.length := by
  obtain ⟨s, hs⟩ := exists_ok_of_mem h hv
  obtain ⟨hid, hdata⟩ := (shapeOf_eq_ok_iff hf).mp hs
  obtain ⟨data, hdata, _⟩ := Option.map_eq_some_iff.mp hdata
  exact ⟨hid, (List.getElem?_eq_some_iff.mp hdata).1⟩

theorem newStatement_of_resolve (hf : p.function? id = some f)
    {o : Operation Value FunctionId} {shaped : Operation Shape Inference.Signature}
    {outputs : List Shape} (h : p.resolve id o = .ok (shaped, outputs))
    (attributes : List (String × Attribute)) :
    p.NewStatement id f
      (newStatement id f.values o.kind o.operands attributes o.closureUse? outputs) outputs where
  operands v hv := by
    obtain ⟨_, htraverse, _⟩ := resolve_eq_ok.mp h
    exact mem_values_of_shapeOf hf (Operation.traverse_operands htraverse) hv
  closure use huse := by
    obtain ⟨_, htraverse, _⟩ := resolve_eq_ok.mp h
    obtain ⟨⟨label, c⟩, hc, rfl⟩ := Option.map_eq_some_iff.mp huse
    obtain ⟨s, hs, _⟩ := Operation.traverse_computation htraverse hc
    obtain ⟨_, g, hg, hparent, hreturned, hconsumed, _⟩ := closureSignature_eq_ok.mp hs
    exact ⟨g, hg, hparent, hreturned, hconsumed⟩
  outputs := rfl

theorem newStatement_of_values (hf : p.function? id = some f) {values : List Value}
    {shapes : List Shape} (h : values.mapM (p.shapeOf id) = .ok shapes) (op : OpKind) :
    p.NewStatement id f (newStatement id f.values op values [] none []) [] where
  operands _ hv := mem_values_of_shapeOf hf h hv
  closure _ huse := nomatch huse
  outputs := rfl

/-- Every step has one of the effects. -/
theorem Step.effect {q : Program} (h : Step p q) : Effect p q := by
  cases h with
  | @function text name hname => exact .function (.topLevel name) (function?_addFunction p _)
  | closure hf hopen => exact .function (.closure hf hopen) (function?_addFunction p _)
  | counts hmeshes => exact .unchanged fun _ => rfl
  | mesh hmesh => exact .unchanged fun _ => rfl
  | input hf hopen hname hsharding => exact .input hf hopen hname (function?_withInput _ hf)
  | @operation id f o shaped outputs hf hopen hresolve =>
    refine .statement hf hopen (newStatement_of_resolve hf hresolve
      ((shaped.explicit outputs).attributes ++ p.channelAttributes o.isCollective)) none fun j => ?_
    rw [function?_withOperation hf]
    refine Option.map_congr fun g hg => ?_
    by_cases h : id = j
    · subst h
      obtain rfl : f = g := by simpa [hf] using hg
      simp [hopen, newStatement]
    · simp [h, newStatement]
  | @«return» id f values shardings outputs hf hopen hreturn =>
    obtain ⟨_, shapes, _, hvalues⟩ := Builder.checkReturn_eq_ok hreturn
    refine .statement hf hopen (newStatement_of_values hf hvalues (Builder.returnKind p id))
      (some outputs) fun j => ?_
    rw [withReturn, function?_markReturned hf]
    congr 1
    funext g
    simp [newStatement, numberedData, Scope.takeNumbers]

end Program

end TensorProgram
