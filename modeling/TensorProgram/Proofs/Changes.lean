import Mathlib.Tactic.SplitIfs
import TensorProgram.Proofs.Checks

/-!
# What changes leave behind

The changes that builders make, seen one function at a time: `function?_addFunction`,
`function?_withInput`, `function?_addStatement` and `function?_markReturned` say what
`Program.function?` finds afterwards.  Nothing else needs to open `Program.modify`.
What holds of all functions is then shown for the new one and the others, `forall_of_new`, or
for the one that has changed and the others, `forall_of_change`.

`Program.withInput` is the one change behind all kinds of inputs.
-/

namespace TensorProgram

namespace Program

/-! ## Looking functions up -/

theorem lt_of_function? {p : Program} {id : FunctionId} {f : Function}
    (h : p.function? id = some f) : id < p.functions.length := by
  unfold function? at h
  exact (List.getElem?_eq_some_iff.mp h).1

theorem exists_function?_of_lt {p : Program} {id : FunctionId} (h : id < p.functions.length) :
    ∃ f, p.function? id = some f :=
  ⟨p.functions[id], List.getElem?_eq_getElem h⟩

/-- Programs with the same functions and the same remaining parts are equal. -/
theorem ext_function? {p q : Program} (hname : p.name = q.name)
    (hdistribution : p.distribution? = q.distribution?) (hchannel : p.channelCount = q.channelCount)
    (hfunctions : ∀ j, p.function? j = q.function? j) : p = q := by
  cases p
  cases q
  simp only at hname hdistribution hchannel
  subst hname hdistribution hchannel
  congr
  exact List.ext_getElem? hfunctions

theorem function?_modify (p : Program) (id j : FunctionId) (change : Function → Function) :
    (p.modify id change).function? j =
      (p.function? j).map fun g => if id = j then change g else g := by
  simp only [modify, function?, List.getElem?_modify]
  split_ifs with h
  · rfl
  · simp

theorem function?_addFunction (p : Program) (role : Role) (j : FunctionId) :
    (p.addFunction role).2.function? j =
      if j = p.functions.length then some (.ofRole role) else p.function? j := by
  simp only [addFunction, function?]
  rcases Nat.lt_trichotomy j p.functions.length with hlt | rfl | hgt
  · rw [List.getElem?_append_left hlt, if_neg (Nat.ne_of_lt hlt)]
  · simp
  · rw [if_neg (Nat.ne_of_gt hgt), List.getElem?_eq_none (by simp; omega),
      List.getElem?_eq_none (by omega)]

/-! ## All functions but one -/

/-- The functions of a program with a new function. -/
@[elab_as_elim]
theorem forall_of_new {p q : Program} {role : Role} {motive : FunctionId → Function → Prop}
    (hq : ∀ j, q.function? j =
      if j = p.functions.length then some (.ofRole role) else p.function? j)
    (new : motive p.functions.length (.ofRole role))
    (old : ∀ j g, p.function? j = some g → motive j g) :
    ∀ j g, q.function? j = some g → motive j g := by
  intro j g hg
  rw [hq] at hg
  split_ifs at hg with hj
  · obtain rfl : Function.ofRole role = g := by simpa using hg
    rwa [hj]
  · exact old j g hg

/-- The functions of a program where one function has changed. -/
@[elab_as_elim]
theorem forall_of_change {p q : Program} {id : FunctionId} {f : Function}
    {change : FunctionId → Function → Function} {motive : FunctionId → Function → Prop}
    (hq : ∀ j, q.function? j = (p.function? j).map (change j)) (hf : p.function? id = some f)
    (changed : motive id (change id f))
    (other : ∀ j g, id ≠ j → p.function? j = some g → motive j (change j g)) :
    ∀ j g, q.function? j = some g → motive j g := by
  intro j g hg
  rw [hq] at hg
  obtain ⟨f', hf', rfl⟩ := Option.map_eq_some_iff.mp hg
  by_cases h : id = j
  · subst h
    obtain rfl : f = f' := by simpa [hf] using hf'
    exact changed
  · exact other j f' h hf'

/-! ## Roots and scopes -/

theorem root_eq_of_role {p q : Program} {id : FunctionId}
    (h : (q.function? id).map Function.role = (p.function? id).map Function.role) :
    q.root id = p.root id := by
  unfold root
  rw [h]

theorem function?_modifyScope (p : Program) (id j : FunctionId) (change : Scope → Scope) :
    (p.modifyScope id change).function? j = (p.function? j).map fun g =>
      { g with scope := if p.root id = j then change g.scope else g.scope } := by
  rw [modifyScope, function?_modify]
  congr 1
  funext g
  split_ifs <;> rfl

/-! ## Inputs -/

end Program

namespace Scope

/-- The scope after an input with a name. -/
def takeInput (s : Scope) : ValueName → Scope
  | .argument position => s.takeArgument position
  | .named name => s.takeName name
  | .numbered _ => s

end Scope

namespace Program

/-- A new input of a function, whose name is taken from the scope. -/
def withInput (p : Program) (id : FunctionId) (data : ValueData) : Program :=
  ((p.modifyScope id (·.takeInput data.name)).addInput id data).2

theorem addInput_fst (p : Program) {id : FunctionId} {f : Function} (data : ValueData)
    (hf : p.function? id = some f) : (p.addInput id data).1 = ⟨id, f.values.length⟩ := by
  simp [addInput, addValue, hf]

theorem function?_addInput {p : Program} {id : FunctionId} {f : Function} (data : ValueData)
    (hf : p.function? id = some f) (j : FunctionId) :
    (p.addInput id data).2.function? j = (p.function? j).map fun g =>
      { g with
        inputs := if id = j then g.inputs ++ [⟨id, f.values.length⟩] else g.inputs
        values := if id = j then g.values ++ [data] else g.values } := by
  simp only [addInput, addValue, hf, function?_modify, Option.map_map]
  congr 1
  funext g
  by_cases h : id = j
  · simp [h]
  · simp [h]

theorem function?_withInput {p : Program} {id : FunctionId} {f : Function} (data : ValueData)
    (hf : p.function? id = some f) (j : FunctionId) :
    (p.withInput id data).function? j = (p.function? j).map fun g =>
      { g with
        inputs := if id = j then g.inputs ++ [⟨id, f.values.length⟩] else g.inputs
        values := if id = j then g.values ++ [data] else g.values
        scope := if p.root id = j then g.scope.takeInput data.name else g.scope } := by
  have hf' := function?_modifyScope p id id (·.takeInput data.name)
  rw [hf, Option.map_some] at hf'
  rw [withInput, function?_addInput data hf', function?_modifyScope, Option.map_map]
  rfl

/-- A sharding that is set right after a positional input could have come with it. -/
theorem setSharding_withInput {p : Program} {id : FunctionId} {f : Function} (name : ValueName)
    (shape : Shape) (sharding : Sharding) (hf : p.function? id = some f) :
    (p.withInput id ⟨name, shape, none⟩).setSharding ⟨id, f.values.length⟩ sharding =
      p.withInput id ⟨name, shape, some sharding⟩ := by
  refine ext_function? rfl rfl rfl fun j => ?_
  rw [setSharding, function?_modify, function?_withInput _ hf, function?_withInput _ hf,
    Option.map_map]
  by_cases h : id = j
  · subst h
    have hmodify (data : ValueData) (change : ValueData → ValueData) :
        (f.values ++ [data]).modify f.values.length change = f.values ++ [change data] := by
      rw [List.modify_eq_take_cons_drop (by simp)]
      simp
    simp [hf, hmodify]
  · simp [h, Function.comp_def]

/-! ## Statements -/

theorem function?_consume (p : Program) (closure? : Option ClosureUse) (j : FunctionId) :
    (p.consume closure?).function? j = (p.function? j).map fun g =>
      { g with consumed := g.consumed || closure?.any (·.function == j) } := by
  unfold consume
  cases closure? with
  | none => simp
  | some use =>
    rw [function?_modify]
    congr 1
    funext g
    by_cases h : use.function = j
    · simp [h]
    · simp [h, beq_false_of_ne h]

theorem root_consume (p : Program) (closure? : Option ClosureUse) (j : FunctionId) :
    (p.consume closure?).root j = p.root j := by
  apply root_eq_of_role
  rw [function?_consume, Option.map_map]
  rfl

theorem scope_consume (p : Program) (closure? : Option ClosureUse) (j : FunctionId) :
    (p.consume closure?).scope j = p.scope j := by
  simp only [scope, root_consume, function?_consume, Option.map_map]
  rfl

/-- The statement that is added when the function has the given values. -/
def newStatement (id : FunctionId) (values : List ValueData) (op : OpKind) (inputs : List Value)
    (attributes : List (String × Attribute)) (closure? : Option ClosureUse)
    (shapes : List Shape) : Statement where
  op := op
  inputs := inputs
  attributes := .ofList attributes
  closure? := closure?
  outputs := consecutiveValues id values.length shapes.length

section Statement

variable {p : Program} {id : FunctionId} {f : Function} (hf : p.function? id = some f)
  (op : OpKind) (inputs : List Value) (attributes : List (String × Attribute))
  (closure? : Option ClosureUse) (shapes : List Shape)

include hf

theorem addStatement_fst :
    (p.addStatement id op inputs attributes closure? shapes).1 =
      consecutiveValues id f.values.length shapes.length := by
  simp [addStatement, addOutputs, function?_consume, hf]

theorem function?_addStatement (j : FunctionId) :
    (p.addStatement id op inputs attributes closure? shapes).2.function? j =
      (p.function? j).map fun g =>
        { g with
          values :=
            if id = j then g.values ++ numberedData (p.scope id).valueCount shapes else g.values
          statements :=
            if id = j then
              g.statements ++ [newStatement id f.values op inputs attributes closure? shapes]
            else g.statements
          consumed := g.consumed || closure?.any (·.function == j)
          scope := if p.root id = j then g.scope.takeNumbers shapes.length else g.scope } := by
  simp only [addStatement, addOutputs, function?_modify, function?_modifyScope, function?_consume,
    root_consume, scope_consume, hf, Option.map_map]
  congr 1
  funext g
  by_cases h : id = j
  · simp [h, newStatement]
  · simp [h]

/-- A return: a last statement without outputs, and the outputs of the function. -/
theorem function?_markReturned (outputs : List Output) (j : FunctionId) :
    ((p.addStatement id op inputs [] none []).2.markReturned id outputs).function? j =
      (p.function? j).map fun g =>
        { g with
          statements :=
            if id = j then g.statements ++ [newStatement id f.values op inputs [] none []]
            else g.statements
          returned? := if id = j then some outputs else g.returned? } := by
  rw [markReturned, function?_modify, function?_addStatement hf, Option.map_map]
  congr 1
  funext g
  by_cases h : id = j
  · simp [h, numberedData, Scope.takeNumbers]
  · simp [h, Scope.takeNumbers]

end Statement

end Program

end TensorProgram
