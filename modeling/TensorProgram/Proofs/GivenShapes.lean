import TensorProgram.Program.Complete
import TensorProgram.Proofs.Endings
import TensorProgram.Proofs.Validity

/-!
# Where invalid shapes come from

Inference rejects invalid shapes, so a value has an invalid shape only when the shape was
given and nobody looked at it: `given_of_invalid`.  Inputs are such values, and a complete
program may return one, `invalid_accepted`.
-/

namespace TensorProgram

/-- The shape of the value was given and not inferred: the value is an input, or a constant
whose literal has an invalid shape. -/
inductive Function.Given (f : Function) (v : Value) : Prop
  | input (h : v ∈ f.inputs) : Given f v
  | literal {s : Statement} {literal : Literal} (hs : s ∈ f.statements) (hv : v ∈ s.outputs)
      (hop : s.op = .constant) (hvalue : s.attributes = [("value", .tensor literal)])
      (hinvalid : literal.shape.isValid = false) : Given f v

theorem Function.Given.mono {f g : Function} {v : Value} (h : f.Given v)
    (hinputs : ∀ w ∈ f.inputs, w ∈ g.inputs) (hstatements : ∀ s ∈ f.statements, s ∈ g.statements) :
    g.Given v := by
  cases h with
  | input h => exact .input (hinputs v h)
  | literal hs hv hop hvalue hinvalid => exact .literal (hstatements _ hs) hv hop hvalue hinvalid

/-- A literal has been looked at when it was made. -/
theorem Literal.isValid_of_ofElements {shape : Shape} {elements : Elements} {literal : Literal}
    (h : ofElements shape elements = .ok literal) : literal.shape.isValid = true := by
  have hcheck := mapError_eq_ok.mp h
  simp only [check, bind_eq_ok, pure_eq_ok, Except.ok.injEq] at hcheck
  obtain ⟨t, ht, _, _, _, _, _, _, rfl⟩ := hcheck
  exact Inference.isValid_of_elementType ht

theorem Operation.eq_constant_of_traverse {ω κ ω' κ' ε : Type} {f : ω → Except ε ω'}
    {g : κ → Except ε κ'} {o : Operation ω κ} {literal : Literal}
    (h : o.traverse f g = .ok (.constant literal)) : o = .constant literal := by
  cases o <;> simp only [traverse, bind_eq_ok, pure_eq_ok, Except.ok.injEq, reduceCtorEq,
    and_false, exists_false, constant.injEq] at h
  rw [h]

namespace Program

variable {p q : Program} {id : FunctionId} {f g : Function}

/-- An operation with a result of an invalid shape is a constant of such a literal. -/
theorem constant_of_invalid {o : Operation Value FunctionId}
    {shaped : Operation Shape Inference.Signature} {outputs : List Shape}
    (h : p.resolve id o = .ok (shaped, outputs)) {s : Shape} (hs : s ∈ outputs)
    (hinvalid : s.isValid = false) :
    ∃ literal, o = .constant literal ∧ shaped = .constant literal ∧
      literal.shape.isValid = false := by
  obtain ⟨_, htraverse, hinfer⟩ := resolve_eq_ok.mp h
  by_contra hnone
  have hliteral : ∀ literal, shaped = .constant literal → literal.shape.isValid = true := by
    intro literal hshaped
    by_contra hliteral
    rw [hshaped] at htraverse
    exact hnone ⟨literal, Operation.eq_constant_of_traverse htraverse, hshaped,
      by simpa using hliteral⟩
  have hvalid := Operation.outputs_isValid hliteral outputs (Operation.infer_eq_ok.mp hinfer) s hs
  rw [hinvalid] at hvalid
  cases hvalid

/-- Every value with an invalid shape was given one. -/
def Looked (p : Program) : Prop :=
  ∀ id f, p.function? id = some f → ∀ index data, f.values[index]? = some data →
    data.shape.isValid = false → f.Given ⟨id, index⟩

theorem looked_empty (name : String) : (Program.empty name).Looked := by
  intro id f hf
  cases hf

theorem Looked.newFunction (hp : p.Looked) {role : Role} (hq : ∀ j, q.function? j =
    if j = p.functions.length then some (.ofRole role) else p.function? j) : q.Looked := by
  refine forall_of_new hq ?_ hp
  intro index data hdata
  cases hdata

/-- A new value has a valid shape or was given. -/
theorem given_of_append {values new : List ValueData}
    (hold : ∀ index data, values[index]? = some data → data.shape.isValid = false →
      g.Given ⟨id, index⟩)
    (hnew : ∀ i data, new[i]? = some data → data.shape.isValid = false →
      g.Given ⟨id, values.length + i⟩)
    (index : Nat) (data : ValueData) (hdata : (values ++ new)[index]? = some data)
    (hinvalid : data.shape.isValid = false) : g.Given ⟨id, index⟩ := by
  rcases Nat.lt_or_ge index values.length with hlt | hge
  · rw [List.getElem?_append_left hlt] at hdata
    exact hold index data hdata hinvalid
  · rw [List.getElem?_append_right hge] at hdata
    have := hnew _ data hdata hinvalid
    rwa [Nat.add_sub_cancel' hge] at this

theorem shape_of_getElem?_numberedData {first i : Nat} {shapes : List Shape} {data : ValueData}
    (h : (numberedData first shapes)[i]? = some data) : shapes[i]? = some data.shape := by
  rw [numberedData, List.getElem?_map, List.getElem?_zipIdx, Option.map_map] at h
  obtain ⟨shape, hshape, rfl⟩ := Option.map_eq_some_iff.mp h
  exact hshape

/-- The statement of a constant holds the literal whose shape it gives. -/
theorem given_newStatement {values : List ValueData} {o : Operation Value FunctionId}
    {shaped : Operation Shape Inference.Signature} {outputs : List Shape}
    (hresolve : p.resolve id o = .ok (shaped, outputs)) {i : Nat} {shape : Shape}
    (hshape : outputs[i]? = some shape) (hinvalid : shape.isValid = false)
    (hstatement : newStatement id values o.kind o.operands
      ((shaped.explicit outputs).attributes ++ p.channelAttributes o.isCollective) o.closureUse?
      outputs ∈ g.statements) : g.Given ⟨id, values.length + i⟩ := by
  obtain ⟨hi, _⟩ := List.getElem?_eq_some_iff.mp hshape
  obtain ⟨literal, rfl, rfl, hliteral⟩ :=
    constant_of_invalid hresolve (List.mem_of_getElem? hshape) hinvalid
  refine .literal hstatement ?_ rfl rfl hliteral
  exact mem_consecutiveValues.mpr ⟨rfl, Nat.le_add_right _ _, Nat.add_lt_add_left hi _⟩

theorem Step.looked (h : Step p q) (hp : p.Looked) : q.Looked := by
  cases h with
  | function hname => exact hp.newFunction (function?_addFunction p _)
  | closure hf hopen => exact hp.newFunction (function?_addFunction p _)
  | counts hmeshes => exact hp
  | mesh hmesh => exact hp
  | @input id f new hf hopen hname hsharding =>
    intro j g hg
    refine forall_of_change (function?_withInput new hf) hf ?_ (fun j g h hg => ?_) j g hg
    · simp only [if_true]
      refine given_of_append (fun index data hdata hinvalid => ?_) fun i data hdata hinvalid => ?_
      · exact (hp id f hf index data hdata hinvalid).mono (by simp +contextual) (by simp)
      · obtain ⟨rfl, rfl⟩ : i = 0 ∧ new = data := by
          simpa [List.getElem?_singleton] using hdata
        exact .input (by simp)
    · simp only [h, if_false]
      intro index data hdata hinvalid
      exact (hp j g hg index data hdata hinvalid).mono (by simp) (by simp)
  | @operation id f o shaped outputs hf hopen hresolve =>
    intro j g hg
    refine forall_of_change (function?_withOperation hf o shaped outputs) hf ?_
      (fun j g h hg => ?_) j g hg
    · simp only [if_true]
      refine given_of_append (fun index data hdata hinvalid => ?_) fun i data hdata hinvalid => ?_
      · exact (hp id f hf index data hdata hinvalid).mono (by simp) (by simp +contextual)
      · exact given_newStatement hresolve (shape_of_getElem?_numberedData hdata) hinvalid
          (List.mem_append_right _ (List.mem_singleton_self _))
    · simp only [h, if_false]
      intro index data hdata hinvalid
      exact (hp j g hg index data hdata hinvalid).mono (by simp) (by simp)
  | @«return» id f values shardings outputs hf hopen hreturn =>
    intro j g hg index data hdata hinvalid
    rw [withReturn, function?_markReturned hf] at hg
    obtain ⟨f', hf', rfl⟩ := Option.map_eq_some_iff.mp hg
    refine (hp j f' hf' index data hdata hinvalid).mono (by simp) fun s hs => ?_
    by_cases h : id = j
    · simp [h, hs]
    · simpa [h] using hs

theorem ofCalls_looked (name : String) (calls : List Call) : (Program.ofCalls name calls).Looked :=
  ofCalls_induction looked_empty (fun _ _ hp hstep => hstep.looked hp) name calls

/-- What a function puts out has the shape of one of its values. -/
theorem exists_value_of_output (hscoped : p.WellScoped) (hended : p.Ended)
    (hf : p.function? id = some f) {output : Output} (houtput : output ∈ f.outputs) :
    ∃ v, v.function = id ∧ p.shape? v = some output.shape := by
  cases hreturned : f.returned? with
  | none =>
    rw [Function.outputs, hreturned] at houtput
    cases houtput
  | some outputs =>
    rw [Function.outputs, hreturned, Option.getD_some] at houtput
    obtain ⟨last, hends, hinputs⟩ := (Function.ended_of_returned hreturned).mp (hended id f hf)
    have hshape : some output.shape ∈ last.inputs.map p.shape? := by
      rw [hinputs]
      exact List.mem_map_of_mem houtput
    obtain ⟨v, hv, hshape⟩ := List.mem_map.mp hshape
    exact ⟨v, (hscoped.known_of_operand hf hends.mem hv).1, hshape⟩

theorem Looked.given (hp : p.Looked) (hf : p.function? id = some f) {v : Value}
    (hv : v.function = id) {shape : Shape} (hshape : p.shape? v = some shape)
    (hinvalid : shape.isValid = false) : f.Given v := by
  subst hv
  obtain ⟨data, hdata, rfl⟩ := Option.map_eq_some_iff.mp hshape
  rw [valueData?, hf, Option.bind_some] at hdata
  exact hp v.function f hf v.index data hdata hinvalid

/-- In every program that calls lead to, a value or an output with an invalid shape goes back
to a shape that was given, and a literal that was made from elements gives no such shape. -/
theorem given_of_invalid (name : String) (calls : List Call) :
    let p := Program.ofCalls name calls
    (∀ id f, p.function? id = some f →
      (∀ v shape, v.function = id → p.shape? v = some shape → shape.isValid = false →
        f.Given v) ∧
      ∀ output ∈ f.outputs, output.shape.isValid = false →
        ∃ v, f.Given v ∧ p.shape? v = some output.shape) ∧
      ∀ shape elements literal, Literal.ofElements shape elements = .ok literal →
        literal.shape.isValid = true := by
  intro p
  have hp : p.Looked := ofCalls_looked name calls
  refine ⟨fun id f hf => ⟨?_, ?_⟩, ?_⟩
  · intro v shape hv hshape hinvalid
    exact hp.given hf hv hshape hinvalid
  · intro output houtput hinvalid
    obtain ⟨v, hv, hshape⟩ := exists_value_of_output (ofCalls_wellScoped name calls)
      (ofCalls_ended name calls) hf houtput
    exact ⟨v, hp.given hf hv hshape hinvalid, hshape⟩
  · intro shape elements literal hliteral
    exact Literal.isValid_of_ofElements hliteral

/-- A program whose main function returns its input, which has an invalid shape. -/
def invalidProgram : Program :=
  .ofCalls "p" [.function "main" [.invalid], .returnValues 0 [⟨0, 0⟩]]

/-- The program is complete, and its text has a type that cannot be read. -/
theorem invalid_accepted :
    invalidProgram.build = .ok ("module @p \x7b\n" ++
      "  func.func @main(%arg0: tensor<invalid>) -> tensor<invalid> \x7b\n" ++
      "    \"func.return\"(%arg0) : (tensor<invalid>) -> ()\n" ++
      "  \x7d\n" ++
      "\x7d\n") ∧
      invalidProgram.shape? ⟨0, 0⟩ = some .invalid := by
  constructor
  · decide +kernel
  · decide

end Program

end TensorProgram
