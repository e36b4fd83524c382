import TensorProgram.Proofs.Frozen
import TensorProgram.Proofs.Outcomes

/-!
# How functions end

A function that has returned ends in a return of its outputs, and no other statement of a
program is a return: `ofCalls_ended`.  Only calls to return make a function end, next to
searches, which end the closure that they have made (`Call.Ends`).  Every call on a function
that has returned fails, `Call.isOpen_of_run`.  `returns_of_calls` puts this together.
-/

namespace TensorProgram

/-! ## Kinds of operations -/

namespace Operation

variable {ω κ ω' κ' ε : Type} {f : ω → Except ε ω'} {g : κ → Except ε κ'}

theorem traverse_kind {o : Operation ω κ} {o' : Operation ω' κ'} (h : o.traverse f g = .ok o') :
    o'.kind = o.kind := by
  cases o <;> simp only [traverse, bind_eq_ok, pure_eq_ok, Except.ok.injEq] at h
  all_goals first
    | obtain rfl := h
    | obtain ⟨_, _, rfl⟩ := h
    | obtain ⟨_, _, _, _, rfl⟩ := h
    | obtain ⟨_, _, _, _, _, _, rfl⟩ := h
    | obtain ⟨_, _, _, _, _, _, _, _, rfl⟩ := h
  all_goals rfl

/-- Inference turns down a return in the place of an elementwise operation. -/
theorem isReturn_of_infer {o : Operation Shape Inference.Signature} {outputs : List Shape}
    (h : o.infer = .ok outputs) : o.kind.isReturn = false := by
  rw [infer_eq_ok] at h
  cases o with
  | unary op operand => cases op <;> first | rfl | cases h
  | binary op lhs rhs => cases op <;> first | rfl | cases h
  | _ => rfl

end Operation

namespace Program

variable {p q : Program} {id j : FunctionId} {f g : Function}

theorem isReturn_of_resolve {o : Operation Value FunctionId}
    {shaped : Operation Shape Inference.Signature} {outputs : List Shape}
    (h : p.resolve id o = .ok (shaped, outputs)) : o.kind.isReturn = false := by
  obtain ⟨_, htraverse, hinfer⟩ := resolve_eq_ok.mp h
  rw [← Operation.traverse_kind htraverse]
  exact Operation.isReturn_of_infer hinfer

/-- The kind of a return fits the function. -/
theorem returnKind_eq (hf : p.function? id = some f) :
    Builder.returnKind p id = if f.isClosure then .regionReturn else .functionReturn := by
  simp [Builder.returnKind, hf]

theorem shape?_eq_of_shapeOf {v : Value} {s : Shape} (h : p.shapeOf id v = .ok s) :
    p.shape? v = some s := by
  obtain ⟨rfl, f, data, hf, hdata, rfl⟩ := shapeOf_eq_ok.mp h
  simp [shape?, valueData?, hf, hdata]

theorem map_shape?_of_shapeOf {values : List Value} {shapes : List Shape}
    (h : values.mapM (p.shapeOf id) = .ok shapes) : values.map p.shape? = shapes.map some :=
  map_eq_map_of_mapM h fun _ _ => shape?_eq_of_shapeOf

theorem Extends.shape?_eq (h : p.Extends q) {v : Value} {s : Shape} (hv : p.shape? v = some s) :
    q.shape? v = some s := by
  obtain ⟨data, hdata, rfl⟩ := Option.map_eq_some_iff.mp hv
  rw [shape?, h.valueData? hdata, Option.map_some]

end Program

/-- A return that passes its check returns the shapes of the values, each with the sharding
at its position. -/
theorem Builder.checkReturn_outputs {p : Program} {id : FunctionId} {values : List Value}
    {shardings : List (Option Sharding)} {outputs : List Output}
    (h : checkReturn id values shardings p = .ok outputs) :
    values.map p.shape? = outputs.map (some ·.shape) ∧
      outputs.map Output.sharding? = shardings := by
  simp only [checkReturn, bind_eq_ok, Program.require_eq_ok] at h
  obtain ⟨f, hf, shapes, hshapes, _, hlength, houtputs⟩ := h
  have hvalues := Program.map_shape?_of_shapeOf hshapes
  have hpairs : (shapes.zip shardings).map (fun pair => pair) =
      outputs.map fun o => (o.shape, o.sharding?) := by
    refine map_eq_map_of_mapM houtputs fun pair output hpair => ?_
    rcases pair with ⟨shape, _ | sharding⟩
    · obtain rfl : (⟨shape, none⟩ : Output) = output := by simpa using hpair
      rfl
    · obtain ⟨_, _, houtput⟩ := bind_eq_ok.mp hpair
      obtain rfl : (⟨shape, some sharding⟩ : Output) = output := by simpa using houtput
      rfl
  have hcount : shapes.length = shardings.length := by
    have := congrArg List.length hvalues
    simp at this hlength
    omega
  rw [List.map_id'] at hpairs
  constructor
  · rw [hvalues, ← List.map_fst_zip (Nat.le_of_eq hcount), hpairs]
    simp
  · rw [← List.map_snd_zip (Nat.le_of_eq hcount.symm), hpairs]
    simp

/-! ## The last statement -/

namespace Function

/-- The last statement is a return that fits the function, and it is the only return. -/
structure EndsIn (f : Function) (last : Statement) : Prop where
  statements : ∃ earlier, f.statements = earlier ++ [last] ∧ ∀ s ∈ earlier, s.op.isReturn = false
  op : last.op = if f.isClosure then .regionReturn else .functionReturn
  outputs : last.outputs = []

theorem EndsIn.mem {f : Function} {last : Statement} (h : f.EndsIn last) :
    last ∈ f.statements := by
  obtain ⟨earlier, hstatements, _⟩ := h.statements
  simp [hstatements]

theorem EndsIn.isReturn {f : Function} {last : Statement} (h : f.EndsIn last) :
    last.op.isReturn = true := by
  rw [h.op]
  split_ifs <;> rfl

/-- An open function has no return, and a function that has returned ends in a return of its
outputs. -/
def Ended (shape? : Value → Option Shape) (f : Function) : Prop :=
  match f.returned? with
  | none => ∀ s ∈ f.statements, s.op.isReturn = false
  | some outputs =>
    ∃ last, f.EndsIn last ∧ last.inputs.map shape? = outputs.map (some ·.shape)

variable {f g : Function} {shape? shape?' : Value → Option Shape}

theorem ended_of_open (h : f.returned? = none) :
    f.Ended shape? ↔ ∀ s ∈ f.statements, s.op.isReturn = false := by
  unfold Ended
  rw [h]

theorem ended_of_returned {outputs : List Output} (h : f.returned? = some outputs) :
    f.Ended shape? ↔
      ∃ last, f.EndsIn last ∧ last.inputs.map shape? = outputs.map (some ·.shape) := by
  unfold Ended
  rw [h]

theorem isClosure_congr (h : g.role = f.role) : g.isClosure = f.isClosure := by
  rw [isClosure, isClosure, parent?, h, parent?]

/-- Values whose shapes are known keep them. -/
theorem map_shape?_mono (hshape : ∀ v s, shape? v = some s → shape?' v = some s)
    {values : List Value} {shapes : List (Option Shape)} (h : values.map shape? = shapes)
    (hshapes : ∀ s ∈ shapes, s.isSome = true) : values.map shape?' = shapes := by
  subst h
  refine List.map_congr_left fun v hv => ?_
  obtain ⟨s, hs⟩ := Option.isSome_iff_exists.mp (hshapes _ (List.mem_map_of_mem hv))
  rw [hs]
  exact hshape v s hs

/-- How a function ends is a matter of its role and its statements, as long as the values
that have a shape keep it. -/
theorem Ended.congr (h : f.Ended shape?) (hrole : g.role = f.role)
    (hstatements : g.statements = f.statements) (hreturned : g.returned? = f.returned?)
    (hshape : ∀ v s, shape? v = some s → shape?' v = some s) : g.Ended shape?' := by
  cases hf : f.returned? with
  | none =>
    rw [ended_of_open (hreturned.trans hf), hstatements]
    exact (ended_of_open hf).mp h
  | some outputs =>
    obtain ⟨last, hends, hinputs⟩ := (ended_of_returned hf).mp h
    refine (ended_of_returned (hreturned.trans hf)).mpr ⟨last, ⟨?_, ?_, hends.outputs⟩, ?_⟩
    · rw [hstatements]
      exact hends.statements
    · rw [isClosure_congr hrole]
      exact hends.op
    · exact map_shape?_mono hshape hinputs (by simp)

/-- One more statement that is no return. -/
theorem Ended.statement (h : f.Ended shape?) (hopen : f.returned? = none) {s : Statement}
    (hs : s.op.isReturn = false) (hstatements : g.statements = f.statements ++ [s])
    (hreturned : g.returned? = none) : g.Ended shape?' := by
  rw [ended_of_open hreturned, hstatements]
  intro t ht
  rcases List.mem_append.mp ht with ht | ht
  · exact (ended_of_open hopen).mp h t ht
  · obtain rfl := List.mem_singleton.mp ht
    exact hs

/-- A return of the outputs as the last statement. -/
theorem Ended.ending (h : f.Ended shape?) (hopen : f.returned? = none) {last : Statement}
    {outputs : List Output} (hrole : g.role = f.role)
    (hstatements : g.statements = f.statements ++ [last]) (hreturned : g.returned? = some outputs)
    (hop : last.op = if f.isClosure then .regionReturn else .functionReturn)
    (houtputs : last.outputs = [])
    (hinputs : last.inputs.map shape?' = outputs.map (some ·.shape)) : g.Ended shape?' := by
  refine (ended_of_returned hreturned).mpr ⟨last, ⟨?_, ?_, houtputs⟩, hinputs⟩
  · exact ⟨f.statements, hstatements, (ended_of_open hopen).mp h⟩
  · rw [hop, isClosure_congr hrole]

end Function

namespace Program

/-- Every function has come to its proper end, or is still open. -/
def Ended (p : Program) : Prop :=
  ∀ id f, p.function? id = some f → f.Ended p.shape?

variable {p q : Program} {id j : FunctionId} {f g : Function}

theorem ended_empty (name : String) : (Program.empty name).Ended := by
  intro id f hf
  cases hf

/-- A new function is open and has no statements. -/
theorem Ended.newFunction (hp : p.Ended) {role : Role} (hq : ∀ j, q.function? j =
      if j = p.functions.length then some (.ofRole role) else p.function? j)
    (hshape : ∀ v s, p.shape? v = some s → q.shape? v = some s) : q.Ended := by
  intro j g hg
  refine forall_of_new hq ?_ (fun j g hg => ?_) j g hg
  · exact (Function.ended_of_open rfl).mpr fun s hs => nomatch hs
  · exact (hp j g hg).congr rfl rfl rfl hshape

theorem Step.ended (h : Step p q) (hp : p.Ended) : q.Ended := by
  have hshape : ∀ v s, p.shape? v = some s → q.shape? v = some s := fun v s => h.extends.shape?_eq
  intro j g hg
  cases h with
  | function hname => exact hp.newFunction (function?_addFunction p _) hshape j g hg
  | closure hf hopen => exact hp.newFunction (function?_addFunction p _) hshape j g hg
  | counts hmeshes => exact (hp j g hg).congr rfl rfl rfl hshape
  | mesh hmesh => exact (hp j g hg).congr rfl rfl rfl hshape
  | input hf hopen hname hsharding =>
    rw [function?_withInput _ hf] at hg
    obtain ⟨f', hf', rfl⟩ := Option.map_eq_some_iff.mp hg
    exact (hp j f' hf').congr rfl rfl rfl hshape
  | @operation id f o shaped outputs hf hopen hresolve =>
    refine forall_of_change (function?_withOperation hf o shaped outputs) hf ?_
      (fun j g h hg => ?_) j g hg
    · exact (hp id f hf).statement hopen (isReturn_of_resolve hresolve) (if_pos rfl) hopen
    · exact (hp j g hg).congr rfl (by simp [h]) rfl hshape
  | @«return» id f values shardings outputs hf hopen hreturn =>
    refine forall_of_change (function?_markReturned hf (Builder.returnKind p id) values outputs)
      hf ?_ (fun j g h hg => ?_) j g hg
    · refine (hp id f hf).ending hopen rfl (if_pos rfl) (if_pos rfl) (returnKind_eq hf) rfl ?_
      exact Function.map_shape?_mono hshape (Builder.checkReturn_outputs hreturn).1 (by simp)
    · exact (hp j g hg).congr rfl (by simp [h]) (by simp [h]) hshape

/-- Functions come to their proper ends in every program that calls lead to. -/
theorem ofCalls_ended (name : String) (calls : List Call) : (Program.ofCalls name calls).Ended :=
  ofCalls_induction ended_empty (fun _ _ hp hstep => hstep.ended hp) name calls

/-- A function has returned exactly when a return is among its statements. -/
theorem Ended.isReturned_iff (hp : p.Ended) (hf : p.function? id = some f) :
    f.isReturned = true ↔ ∃ s ∈ f.statements, s.op.isReturn = true := by
  unfold Function.isReturned
  cases hreturned : f.returned? with
  | none =>
    have hnone := (Function.ended_of_open hreturned).mp (hp id f hf)
    constructor
    · intro h
      cases h
    · rintro ⟨s, hs, hop⟩
      rw [hnone s hs] at hop
      cases hop
  | some outputs =>
    obtain ⟨last, hends, _⟩ := (Function.ended_of_returned hreturned).mp (hp id f hf)
    exact ⟨fun _ => ⟨last, hends.mem, hends.isReturn⟩, fun _ => rfl⟩

end Program

/-! ## Calls that end functions -/

namespace Builder

variable {α : Type} {p q : Program} {id : FunctionId}

theorem isOpen_of_run {next : Function → Builder α} {a : α}
    (h : (check (·.openFunction id) >>= next).run p = (.ok a, q)) :
    ∃ f, p.openFunction id = .ok f := by
  obtain ⟨f, _, hcheck, _⟩ := run_bind_eq_ok.mp h
  exact ⟨f, (run_check_eq_ok.mp hcheck).1⟩

theorem isOpen_of_run_returnSharded {values : List Value} {shardings : List (Option Sharding)}
    (h : (returnSharded id values shardings).run p = (.ok (), q)) :
    ∃ f, p.openFunction id = .ok f := by
  obtain ⟨_, hreturn, _⟩ := run_returnSharded_eq_ok.mp h
  obtain ⟨f, _, hf, _⟩ := checkReturn_eq_ok hreturn
  exact ⟨f, hf⟩

end Builder

namespace Call

/-- The function that a call works on, when it works on one. -/
def target? : Call → Option FunctionId
  | function .. => none
  | setReplicasAndPartitions .. => none
  | addMesh _ => none
  | closure id => some id
  | input id _ => some id
  | namedInput id _ _ => some id
  | inputWithSharding id _ _ => some id
  | returnValues id _ => some id
  | returnSharded id _ _ => some id
  | append id _ => some id
  | argExtremum id _ _ _ _ => some id

/-- The call may end the function: a return ends its own function, and a search ends the
closure that it makes, which is the next function. -/
def Ends (p : Program) (j : FunctionId) : Call → Prop
  | returnValues id _ => j = id
  | returnSharded id _ _ => j = id
  | argExtremum .. => j = p.functions.length
  | _ => False

variable {p q : Program} {c : Call} {id j : FunctionId}

/-- A call that succeeds works on an open function. -/
theorem isOpen_of_run {answer : Answer} (hid : c.target? = some id)
    (h : c.run.run p = (.ok answer, q)) : ∃ f, p.openFunction id = .ok f := by
  cases c <;> simp only [target?, reduceCtorEq, Option.some.injEq] at hid
  all_goals
    subst hid
    obtain ⟨_, _, hrun, _⟩ := Builder.run_bind_eq_ok.mp h
  case closure => exact Builder.isOpen_of_run hrun
  case input => exact Builder.isOpen_of_run hrun
  case namedInput => exact Builder.isOpen_of_run hrun
  case inputWithSharding => exact Builder.isOpen_of_run hrun
  case returnValues => exact Builder.isOpen_of_run_returnSharded hrun
  case returnSharded => exact Builder.isOpen_of_run_returnSharded hrun
  case append =>
    obtain ⟨f, _, _, hf, hopen, _⟩ := Builder.run_append_eq_ok.mp hrun
    exact ⟨f, Program.openFunction_eq_ok.mpr ⟨hf, hopen⟩⟩
  case argExtremum =>
    obtain ⟨_, _, hsearch, _⟩ := Builder.run_bind_eq_ok.mp hrun
    obtain ⟨f, hf, _⟩ := bind_eq_ok.mp (Builder.run_check_eq_ok.mp hsearch).1
    exact ⟨f, hf⟩

/-- A function that has returned refuses every call. -/
theorem refused_of_returned (hid : c.target? = some id) {f : Function}
    (hf : p.function? id = some f) (hreturned : f.isReturned = true) :
    ∃ e, c.run.run p = (.error e, p) := by
  rcases c.run_allOrNothing p with herror | ⟨answer, q, hrun, _⟩
  · exact herror
  · obtain ⟨g, hg⟩ := isOpen_of_run hid hrun
    obtain ⟨hg, hopen⟩ := Program.openFunction_eq_ok.mp hg
    obtain rfl : f = g := by simpa [hf] using hg
    rw [Function.isReturned, hopen] at hreturned
    cases hreturned

end Call

namespace Program

/-- The returns among the statements of a function. -/
def returns (p : Program) (id : FunctionId) : List Statement :=
  (p.body id).filter (·.op.isReturn)

end Program

namespace Builder

open Program

variable {p q : Program} {id j : FunctionId}

/-- Who leaves the statements alone leaves the returns alone. -/
theorem Leaves.returns {α : Type} {b : Builder α} (h : b.Leaves (body · j)) :
    b.Leaves (returns · j) :=
  fun p => congrArg (List.filter fun s : Statement => s.op.isReturn) (h p)

/-- Whatever the kind of an operation, its statement is no return. -/
theorem append_returns (id j : FunctionId) (o : Operation Value FunctionId) :
    (append id o).Leaves (returns · j) := by
  refine (append_allOrNothing id o).leaves fun p values q hrun => ?_
  obtain ⟨f, shaped, outputs, hf, _, hresolve, _, rfl⟩ := run_append_eq_ok.mp hrun
  show ((p.withOperation id o shaped outputs).body j).filter _ = (p.body j).filter _
  rw [body_withOperation hf]
  split_ifs with h
  · simp [newStatement, isReturn_of_resolve hresolve]
  · rfl

theorem appendSingle_returns (id j : FunctionId) (o : Operation Value FunctionId) :
    (appendSingle id o).Leaves (returns · j) :=
  (append_returns id j o).bind fun _ => leaves_check _

/-- A search leaves the returns of all functions but its closure. -/
theorem argExtremum_returns {e : Extremum} {operand : Value} {axis : Int}
    {positionType : ElementType} {v : Value} (hj : j ≠ p.functions.length)
    (h : (argExtremum id e operand axis positionType).run p = (.ok v, q)) :
    q.returns j = p.returns j := by
  obtain ⟨search, positions, worst, zero, body, outputs, q₁, q₂, q₃, q₄, q₅, _, h₁, h₂, h₃, h₄,
    h₅, h₆, _⟩ := run_argExtremum h
  have hbody : j ≠ body := by
    have hlength : q₃.functions.length = p.functions.length :=
      ((appendSingle_leaves_length id _).run_eq h₃).trans
        (((appendSingle_leaves_length id _).run_eq h₂).trans
          ((appendSingle_leaves_length id _).run_eq h₁))
    rwa [(run_closure_eq_ok.mp h₄).2.1, hlength]
  calc q.returns j = q₅.returns j := (append_returns id j _).run_eq h₆
    _ = q₄.returns j := (fillBetterPair_leaves e _ _ hbody).returns.run_eq h₅
    _ = q₃.returns j := (closure_leaves id j).returns.run_eq h₄
    _ = q₂.returns j := (appendSingle_returns id j _).run_eq h₃
    _ = q₁.returns j := (appendSingle_returns id j _).run_eq h₂
    _ = p.returns j := (appendSingle_returns id j _).run_eq h₁

end Builder

/-- Every other call leaves the returns of a function as they are. -/
theorem Call.returns_eq {p : Program} {c : Call} {j : FunctionId} (h : ¬ c.Ends p j) :
    (p.call c).returns j = p.returns j := by
  have hbody {b : Builder Answer} (hb : b.Leaves (Program.body · j)) :
      (b.run p).2.returns j = p.returns j :=
    hb.returns p
  cases c with
  | function name inputs =>
    exact hbody ((Builder.function_leaves j name inputs).bind fun _ => Builder.leaves_pure _)
  | setReplicasAndPartitions replicas partitions =>
    exact hbody ((Builder.setReplicasAndPartitions_leaves replicas partitions j).bind fun _ =>
      Builder.leaves_pure _)
  | addMesh mesh =>
    exact hbody ((Builder.addMesh_leaves mesh j).bind fun _ => Builder.leaves_pure _)
  | closure id =>
    exact hbody ((Builder.closure_leaves id j).bind fun _ => Builder.leaves_pure _)
  | input id shape =>
    exact hbody ((Builder.input_leaves id j shape).bind fun _ => Builder.leaves_pure _)
  | namedInput id name shape =>
    exact hbody ((Builder.namedInput_leaves id j name shape).bind fun _ => Builder.leaves_pure _)
  | inputWithSharding id shape sharding =>
    exact hbody ((Builder.inputWithSharding_leaves id j shape sharding).bind fun _ =>
      Builder.leaves_pure _)
  | returnValues id values =>
    exact hbody ((Builder.returnSharded_leaves values _ h).bind fun _ => Builder.leaves_pure _)
  | returnSharded id values shardings =>
    exact hbody ((Builder.returnSharded_leaves values shardings h).bind fun _ =>
      Builder.leaves_pure _)
  | append id o =>
    exact ((Builder.append_returns id j o).bind fun _ => Builder.leaves_pure _) p
  | argExtremum id e operand axis positionType =>
    unfold Program.call
    rcases (Call.argExtremum id e operand axis positionType).run_allOrNothing p with
      ⟨error, hrun⟩ | ⟨answer, q, hrun, _⟩
    · rw [hrun]
    · rw [hrun]
      obtain ⟨v, _, hsearch, hpure⟩ := Builder.run_bind_eq_ok.mp hrun
      obtain ⟨_, rfl⟩ := Builder.run_pure_eq_ok.mp hpure
      exact Builder.argExtremum_returns h hsearch

namespace Program

/-- Where a function stands with its return. -/
structure ReturnState (p : Program) (id : FunctionId) (f : Function) : Prop where
  returned_iff : f.isReturned = true ↔ ∃ s ∈ f.statements, s.op.isReturn = true
  /-- The return is the last statement and takes the values that are put out. -/
  ending : f.isReturned = true →
    ∃ last, f.EndsIn last ∧ last.inputs.map p.shape? = f.outputs.map (some ·.shape)
  outputs : f.isReturned = false → f.outputs = []
  /-- A call to return that succeeds puts out its values, each with the sharding given. -/
  recorded : ∀ values shardings q,
    (Builder.returnSharded id values shardings).run p = (.ok (), q) →
      ∃ g, q.function? id = some g ∧ g.isReturned = true ∧
        g.outputs.map (some ·.shape) = values.map p.shape? ∧
        g.outputs.map Output.sharding? = shardings
  refused : f.isReturned = true → ∀ c : Call, c.target? = some id →
    ∃ e, c.run.run p = (.error e, p)

/-- In every program that calls lead to, functions end in their only return, and no call
adds a return but those that are made for it. -/
theorem returns_of_calls (name : String) (calls : List Call) :
    let p := Program.ofCalls name calls
    (∀ id f, p.function? id = some f → p.ReturnState id f) ∧
      ∀ c j, ¬ Call.Ends p j c → (p.call c).returns j = p.returns j := by
  intro p
  have hp : p.Ended := ofCalls_ended name calls
  constructor
  · intro id f hf
    constructor
    · exact hp.isReturned_iff hf
    · intro hreturned
      obtain ⟨outputs, houtputs⟩ := Option.isSome_iff_exists.mp hreturned
      rw [Function.outputs, houtputs, Option.getD_some]
      exact (Function.ended_of_returned houtputs).mp (hp id f hf)
    · intro hopen
      have hnone : f.returned? = none := by simpa [Function.isReturned] using hopen
      rw [Function.outputs, hnone, Option.getD_none]
    · intro values shardings q hrun
      obtain ⟨outputs, hreturn, rfl⟩ := Builder.run_returnSharded_eq_ok.mp hrun
      obtain ⟨hshapes, hshardings⟩ := Builder.checkReturn_outputs hreturn
      have hg := function?_markReturned hf (Builder.returnKind p id) values outputs id
      rw [hf, Option.map_some] at hg
      refine ⟨_, hg, ?_, ?_, ?_⟩
      · simp [Function.isReturned]
      · simp [Function.outputs, hshapes]
      · simp [Function.outputs, hshardings]
    · intro hreturned c hc
      exact Call.refused_of_returned hc hf hreturned
  · intro c j hends
    exact Call.returns_eq hends

end Program

end TensorProgram
