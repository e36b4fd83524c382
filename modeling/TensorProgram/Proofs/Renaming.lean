import TensorProgram.Proofs.Outcomes
import TensorProgram.Proofs.Scoping

/-!
# Renaming functions

A function is named by its position in the program, and so are the values that it owns.  A
renaming puts other names in place of those positions, everywhere in a function:
`Function.rename`.

`Operation.map` replaces the operands and the computation of an operation.  A traversal of the
result is a traversal of the operation, `traverse_map`, a traversal that renames what it finds
renames the outcome, `traverse_map_results`, and only the operands and the computation matter to
a traversal, `traverse_congr`.
-/

namespace TensorProgram

/-! ## Checks whose results or errors are replaced -/

section Checks

variable {ε ε' α β γ : Type}

theorem map_bind (x : Except ε α) (f : α → Except ε β) (g : β → γ) :
    (x >>= f).map g = x >>= fun a => (f a).map g := by
  cases x <;> rfl

theorem bind_map (x : Except ε α) (g : α → β) (f : β → Except ε γ) :
    x.map g >>= f = x >>= fun a => f (g a) := by
  cases x <;> rfl

theorem mapError_bind (x : Except ε α) (f : α → Except ε β) (h : ε → ε') :
    (x >>= f).mapError h = x.mapError h >>= fun a => (f a).mapError h := by
  cases x <;> rfl

theorem mapM_map_results (f : α → Except ε β) (g : β → γ) (xs : List α) :
    xs.mapM (fun x => (f x).map g) = (xs.mapM f).map (List.map g) := by
  induction xs with
  | nil => rfl
  | cons x xs ih =>
    simp only [List.mapM_cons, ih, map_bind, bind_map]
    rfl

theorem mapM_mapError (f : α → Except ε β) (h : ε → ε') (xs : List α) :
    (xs.mapM f).mapError h = xs.mapM fun x => (f x).mapError h := by
  induction xs with
  | nil => rfl
  | cons x xs ih =>
    simp only [List.mapM_cons, ← ih, mapError_bind]
    rfl

theorem mapM_congr {f g : α → Except ε β} {xs : List α} (h : ∀ x ∈ xs, f x = g x) :
    xs.mapM f = xs.mapM g := by
  induction xs with
  | nil => rfl
  | cons x xs ih =>
    rw [List.forall_mem_cons] at h
    rw [List.mapM_cons, List.mapM_cons, h.1, ih h.2]

end Checks

/-! ## Operations -/

namespace Operation

variable {ω κ ω' κ' ω'' κ'' ε ε' : Type}

/-- The operation with every operand and the computation replaced. -/
def map (a : ω → ω') (b : κ → κ') : Operation ω κ → Operation ω' κ'
  | unary op operand => unary op (a operand)
  | binary op lhs rhs => binary op (a lhs) (a rhs)
  | compare lhs rhs direction type? => compare (a lhs) (a rhs) direction type?
  | select predicate onTrue onFalse => select (a predicate) (a onTrue) (a onFalse)
  | clamp min operand max => clamp (a min) (a operand) (a max)
  | convert operand target => convert (a operand) target
  | bitcastConvert operand target => bitcastConvert (a operand) target
  | reducePrecision operand exponentBits mantissaBits =>
    reducePrecision (a operand) exponentBits mantissaBits
  | broadcastInDim operand dimensions axes => broadcastInDim (a operand) dimensions axes
  | reshape operand dimensions => reshape (a operand) dimensions
  | transpose operand permutation => transpose (a operand) permutation
  | slice operand starts limits strides => slice (a operand) starts limits strides
  | concatenate inputs axis => concatenate (inputs.map a) axis
  | pad operand paddingValue low high interior =>
    pad (a operand) (a paddingValue) low high interior
  | gather operand indices d sliceSizes => gather (a operand) (a indices) d sliceSizes
  | scatter inputs indices updates d computation =>
    scatter (inputs.map a) (a indices) (updates.map a) d (b computation)
  | dynamicSlice operand starts sliceSizes => dynamicSlice (a operand) (starts.map a) sliceSizes
  | dynamicUpdateSlice operand update starts =>
    dynamicUpdateSlice (a operand) (a update) (starts.map a)
  | reduce inputs initials axes body => reduce (inputs.map a) (initials.map a) axes (b body)
  | reduceWindow inputs initials window body =>
    reduceWindow (inputs.map a) (initials.map a) window (b body)
  | fft operand type lengths => fft (a operand) type lengths
  | dotGeneral lhs rhs d => dotGeneral (a lhs) (a rhs) d
  | convolution lhs rhs c => convolution (a lhs) (a rhs) c
  | allGather operands axis groups => allGather (operands.map a) axis groups
  | allToAll operands splitAxis concatAxis count groups =>
    allToAll (operands.map a) splitAxis concatAxis count groups
  | allReduce operands groups computation => allReduce (operands.map a) groups (b computation)
  | collectivePermute operand pairs => collectivePermute (a operand) pairs
  | collectiveBroadcast operand groups => collectiveBroadcast (a operand) groups
  | constant literal => constant literal
  | iota shape axis => iota shape axis
  | rngBitGenerator initialState shape algorithm =>
    rngBitGenerator (a initialState) shape algorithm
  | customCall target inputs outputs hasSideEffect attributes =>
    customCall target (inputs.map a) outputs hasSideEffect attributes

section Map

variable (a : ω → ω') (b : κ → κ') (o : Operation ω κ)

theorem kind_map : (o.map a b).kind = o.kind := by
  cases o <;> rfl

theorem isCollective_map : (o.map a b).isCollective = o.isCollective := by
  rw [isCollective, kind_map, isCollective]

theorem takesOperands_map : (o.map a b).takesOperands = o.takesOperands := by
  cases o <;> rfl

theorem operands_map : (o.map a b).operands = o.operands.map a := by
  cases o <;> simp [map, operands]

theorem computation?_map :
    (o.map a b).computation? = o.computation?.map fun (label, c) => (label, b c) := by
  cases o <;> rfl

/-- A traversal may replace the operands on its way. -/
theorem traverse_map (f : ω' → Except ε ω'') (g : κ' → Except ε κ'') :
    (o.map a b).traverse f g = o.traverse (fun x => f (a x)) (fun c => g (b c)) := by
  cases o <;> simp only [map, traverse, List.mapM_map] <;> rfl

end Map

/-- A traversal that replaces what it finds replaces it in the outcome. -/
theorem traverse_map_results (f : ω → Except ε ω') (g : κ → Except ε κ') (a : ω' → ω'')
    (b : κ' → κ'') (o : Operation ω κ) :
    o.traverse (fun x => (f x).map a) (fun c => (g c).map b) =
      (o.traverse f g).map (Operation.map a b) := by
  cases o <;> simp only [traverse, mapM_map_results, bind_map, map_bind] <;> rfl

theorem traverse_mapError (f : ω → Except ε ω') (g : κ → Except ε κ') (h : ε → ε')
    (o : Operation ω κ) :
    (o.traverse f g).mapError h =
      o.traverse (fun x => (f x).mapError h) (fun c => (g c).mapError h) := by
  cases o <;> simp only [traverse, mapError_bind, mapM_mapError] <;> rfl

/-- The computation of the outcome of a traversal is the outcome of the computation. -/
theorem computation_of_traverse {f : ω → Except ε ω'} {g : κ → Except ε κ'} {o : Operation ω κ}
    {o' : Operation ω' κ'} (h : o.traverse f g = .ok o') {label : String} {c' : κ'}
    (hc : o'.computation? = some (label, c')) :
    ∃ c, o.computation? = some (label, c) ∧ g c = .ok c' := by
  cases o <;> simp only [traverse, bind_eq_ok, pure_eq_ok, Except.ok.injEq] at h
  case scatter inputs indices updates d computation =>
    obtain ⟨_, _, _, _, _, _, c, hresult, rfl⟩ := h
    cases hc
    exact ⟨_, rfl, hresult⟩
  case reduce inputs initials axes body =>
    obtain ⟨_, _, _, _, c, hresult, rfl⟩ := h
    cases hc
    exact ⟨_, rfl, hresult⟩
  case reduceWindow inputs initials window body =>
    obtain ⟨_, _, _, _, c, hresult, rfl⟩ := h
    cases hc
    exact ⟨_, rfl, hresult⟩
  case allReduce operands groups computation =>
    obtain ⟨_, _, c, hresult, rfl⟩ := h
    cases hc
    exact ⟨_, rfl, hresult⟩
  -- no other operation has a computation
  all_goals first
    | obtain rfl := h
    | obtain ⟨_, _, rfl⟩ := h
    | obtain ⟨_, _, _, _, rfl⟩ := h
    | obtain ⟨_, _, _, _, _, _, rfl⟩ := h
  all_goals cases hc

/-- Only the operands and the computation matter to a traversal. -/
theorem traverse_congr {f f' : ω → Except ε ω'} {g g' : κ → Except ε κ'} {o : Operation ω κ}
    (hf : ∀ x ∈ o.operands, f x = f' x)
    (hg : ∀ label c, o.computation? = some (label, c) → g c = g' c) :
    o.traverse f g = o.traverse f' g' := by
  cases o <;> simp only [operands, List.forall_mem_append, List.forall_mem_cons] at hf
  case concatenate inputs axis => simp only [traverse, mapM_congr hf]
  case allGather operands axis groups => simp only [traverse, mapM_congr hf]
  case allToAll operands splitAxis concatAxis count groups => simp only [traverse, mapM_congr hf]
  case customCall target inputs outputs hasSideEffect attributes =>
    simp only [traverse, mapM_congr hf]
  case dynamicSlice operand starts sliceSizes =>
    simp only [traverse, hf.1, mapM_congr hf.2]
  case dynamicUpdateSlice operand update starts =>
    simp only [traverse, hf.1, hf.2.1, mapM_congr hf.2.2]
  case scatter inputs indices updates d computation =>
    simp only [traverse, mapM_congr hf.1, hf.2.1, mapM_congr hf.2.2, hg _ _ rfl]
  case reduce inputs initials axes body =>
    simp only [traverse, mapM_congr hf.1, mapM_congr hf.2, hg _ _ rfl]
  case reduceWindow inputs initials window body =>
    simp only [traverse, mapM_congr hf.1, mapM_congr hf.2, hg _ _ rfl]
  case allReduce operands groups computation => simp only [traverse, mapM_congr hf, hg _ _ rfl]
  all_goals simp_all [traverse]

end Operation

/-! ## Functions -/

section Rename

variable (ρ : FunctionId → FunctionId)

def Value.rename (v : Value) : Value :=
  { v with function := ρ v.function }

def ClosureUse.rename (use : ClosureUse) : ClosureUse :=
  { use with function := ρ use.function }

def Operation.rename (o : Operation Value FunctionId) : Operation Value FunctionId :=
  o.map (Value.rename ρ) ρ

def Statement.rename (s : Statement) : Statement :=
  { s with
    inputs := s.inputs.map (Value.rename ρ)
    closure? := s.closure?.map (ClosureUse.rename ρ)
    outputs := s.outputs.map (Value.rename ρ) }

def Role.rename : Role → Role
  | .topLevel name => .topLevel name
  | .closure parent root => .closure (ρ parent) (ρ root)

def Function.rename (f : Function) : Function :=
  { f with
    role := f.role.rename ρ
    inputs := f.inputs.map (Value.rename ρ)
    statements := f.statements.map (Statement.rename ρ) }

theorem Operation.closureUse?_rename (o : Operation Value FunctionId) :
    (o.rename ρ).closureUse? = o.closureUse?.map (ClosureUse.rename ρ) := by
  rw [closureUse?, rename, computation?_map, Option.map_map, closureUse?, Option.map_map]
  rfl

theorem Program.consecutiveValues_rename (id : FunctionId) (index count : Nat) :
    (consecutiveValues id index count).map (Value.rename ρ) =
      consecutiveValues (ρ id) index count := by
  rw [consecutiveValues, List.map_map, consecutiveValues]
  rfl

theorem Program.newStatement_rename (id : FunctionId) (values : List ValueData) (op : OpKind)
    (inputs : List Value) (attributes : List (String × Attribute)) (closure? : Option ClosureUse)
    (shapes : List Shape) :
    (newStatement id values op inputs attributes closure? shapes).rename ρ =
      newStatement (ρ id) values op (inputs.map (Value.rename ρ)) attributes
        (closure?.map (ClosureUse.rename ρ)) shapes := by
  simp only [newStatement, Statement.rename, consecutiveValues_rename]

namespace Function

variable (f : Function)

theorem name?_rename : (f.rename ρ).name? = f.name? := by
  unfold name? rename
  cases f.role <;> rfl

theorem parent?_rename : (f.rename ρ).parent? = f.parent?.map ρ := by
  unfold parent? rename
  cases f.role <;> rfl

theorem isClosure_rename : (f.rename ρ).isClosure = f.isClosure := by
  rw [isClosure, parent?_rename, Option.isSome_map, isClosure]

end Function

end Rename

/-! ## Renamings that agree -/

section Agreement

variable {ρ σ : FunctionId → FunctionId}

theorem Value.rename_congr {v : Value} (h : ρ v.function = σ v.function) :
    v.rename ρ = v.rename σ := by
  rw [rename, h, rename]

theorem map_rename_congr {values : List Value} (h : ∀ v ∈ values, ρ v.function = σ v.function) :
    values.map (Value.rename ρ) = values.map (Value.rename σ) :=
  List.map_congr_left fun v hv => Value.rename_congr (h v hv)

namespace Program

variable {p : Program} {id : FunctionId} {f : Function}

/-- A function refers to functions of the program only. -/
theorem Forest.rename_congr (hp : p.Forest) (hscoped : p.WellScoped) (hf : p.function? id = some f)
    (h : ∀ j, j < p.functions.length → ρ j = σ j) : f.rename ρ = f.rename σ := by
  have hid : ρ id = σ id := h id (lt_of_function? hf)
  have hn : p.node? id = some f.node := node?_of_function? hf
  have hrole : f.role.rename ρ = f.role.rename σ := by
    cases hrole : f.role with
    | topLevel name => rfl
    | closure parent root =>
      have hparent := Nat.lt_trans (hp.parent_lt hn hrole) (lt_of_function? hf)
      obtain ⟨r, _, hr, _⟩ := hp.exists_root hn
      rw [root_of_closure hn hrole] at hr
      rw [Role.rename, h parent hparent, h root (lt_of_node? hr), Role.rename]
  have hinputs : f.inputs.map (Value.rename ρ) = f.inputs.map (Value.rename σ) := by
    refine map_rename_congr fun v hv => ?_
    rw [(hscoped.known_of_introduced hf (List.mem_append_left _ hv)).1, hid]
  have hstatements : f.statements.map (Statement.rename ρ) =
      f.statements.map (Statement.rename σ) := by
    refine List.map_congr_left fun s hs => ?_
    have hoperands : s.inputs.map (Value.rename ρ) = s.inputs.map (Value.rename σ) := by
      refine map_rename_congr fun v hv => ?_
      rw [(hscoped.known_of_operand hf hs hv).1, hid]
    have houtputs : s.outputs.map (Value.rename ρ) = s.outputs.map (Value.rename σ) := by
      refine map_rename_congr fun v hv => ?_
      have hmem : v ∈ f.introduced :=
        List.mem_append_right _ (List.mem_flatMap.mpr ⟨s, hs, hv⟩)
      rw [(hscoped.known_of_introduced hf hmem).1, hid]
    have hclosure : s.closure?.map (ClosureUse.rename ρ) =
        s.closure?.map (ClosureUse.rename σ) := by
      refine Option.map_congr fun use huse => ?_
      have hlt := (hp.lt_of_mem_body ((body_eq hf).symm ▸ hs) huse).2
      rw [ClosureUse.rename, h use.function hlt, ClosureUse.rename]
    rw [Statement.rename, hoperands, houtputs, hclosure, Statement.rename]
  rw [Function.rename, hrole, hinputs, hstatements, Function.rename]

end Program

theorem Function.rename_id (f : Function) : (f.rename fun j => j) = f := by
  have hvalues (values : List Value) : values.map (Value.rename fun j => j) = values :=
    List.map_id values
  have huse (use? : Option ClosureUse) : use?.map (ClosureUse.rename fun j => j) = use? := by
    cases use? <;> rfl
  have hrole : (f.role.rename fun j => j) = f.role := by
    cases f.role <;> rfl
  have hstatements : f.statements.map (Statement.rename fun j => j) = f.statements := by
    refine (List.map_congr_left fun s _ => ?_).trans (List.map_id f.statements)
    rw [Statement.rename, hvalues, hvalues, huse]
    rfl
  rw [rename, hrole, hvalues, hstatements]

end Agreement

end TensorProgram
