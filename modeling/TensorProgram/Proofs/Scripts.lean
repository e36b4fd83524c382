import TensorProgram.Proofs.RenamedRuns

/-!
# Scripts

A script is a list of requests to build a program.  A request is a call on handles: functions
and values that are given, or that an earlier request of the same script has answered with.
What has become of a request is its `Reply`.

A request becomes a call when its handles are looked up, `Request.call`.  In programs that have
the same tree under a renaming, answers are the same under that renaming, and so are the calls
that a request becomes: `Request.call_rename`.  Such calls are in step: `Call.run_inStep`.
-/

namespace TensorProgram

/-! ## Calls on a tree -/

namespace Call

/-- The call with all functions renamed that it works on. -/
def rename (ρ : FunctionId → FunctionId) : Call → Call
  | closure id => closure (ρ id)
  | input id shape => input (ρ id) shape
  | namedInput id name shape => namedInput (ρ id) name shape
  | inputWithSharding id shape sharding => inputWithSharding (ρ id) shape sharding
  | returnValues id values => returnValues (ρ id) (values.map (Value.rename ρ))
  | returnSharded id values shardings =>
    returnSharded (ρ id) (values.map (Value.rename ρ)) shardings
  | append id o => append (ρ id) (o.rename ρ)
  | argExtremum id e operand axis positionType =>
    argExtremum (ρ id) e (operand.rename ρ) axis positionType
  | c => c

/-- The call works on functions with the property and takes no channel. -/
def Within (P : FunctionId → Prop) : Call → Prop
  | closure id | input id _ | namedInput id _ _ | inputWithSharding id _ _ => P id
  | returnValues id values | returnSharded id values _ => P id ∧ ∀ v ∈ values, P v.function
  | append id o => P id ∧ o.isCollective = false ∧ (∀ v ∈ o.operands, P v.function) ∧
      ∀ label c, o.computation? = some (label, c) → P c
  | argExtremum id _ operand _ _ => P id ∧ P operand.function
  | function .. | setReplicasAndPartitions .. | addMesh .. => False

end Call

namespace Answer

def rename (ρ : FunctionId → FunctionId) : Answer → Answer
  | done => done
  | function id => function (ρ id)
  | values vs => values (vs.map (Value.rename ρ))

/-- All functions in the answer have the property. -/
def Within (P : FunctionId → Prop) : Answer → Prop
  | done => True
  | function id => P id
  | values vs => ∀ v ∈ vs, P v.function

theorem rename_congr {ρ σ : FunctionId → FunctionId} {a : Answer}
    (h : a.Within fun id => ρ id = σ id) : a.rename ρ = a.rename σ := by
  cases a with
  | done => rfl
  | function id => exact congrArg function h
  | values vs => exact congrArg values (map_rename_congr h)

theorem Within.mono {P Q : FunctionId → Prop} {a : Answer} (h : a.Within P)
    (hPQ : ∀ id, P id → Q id) : a.Within Q := by
  cases a with
  | done => trivial
  | function id => exact hPQ id h
  | values vs => exact fun v hv => hPQ v.function (h v hv)

end Answer

namespace Call

open Builder Program

variable {p q : Program} {top : FunctionId} {ρ : FunctionId → FunctionId}

/-- The answer of one run and the same answer under the renaming. -/
def SameAnswer (top : FunctionId) (ρ : FunctionId → FunctionId) (p : Program) (a a' : Answer) :
    Prop :=
  a.Within (p.Member top) ∧ a' = a.rename ρ

/-- A builder that puts out a value of the function. -/
theorem value_inStep {id : FunctionId} {b b' : Builder Value} (hid : p.Member top id)
    (h : InStep top ρ b b' (fun _ => SameValue id ρ) p q) :
    InStep top ρ (do return .values [← b]) (do return .values [← b']) (SameAnswer top ρ) p q := by
  refine h.bind_value hid fun v p q _ _ hv h hid => inStep_pure h ⟨fun w hw => ?_, rfl⟩
  rw [List.mem_singleton.mp hw, hv]
  exact hid

theorem done_inStep {b b' : Builder Unit} (h : InStep top ρ b b' (fun _ _ _ => True) p q) :
    InStep top ρ (do b; return .done) (do b'; return .done) (SameAnswer top ρ) p q :=
  h.bind fun _ _ _ _ _ _ _ h _ => inStep_pure h ⟨trivial, rfl⟩

/-- A call in one program and the renamed call in the other are in step. -/
theorem run_inStep (h : p.Renamed top ρ q) (hρ : ρ p.functions.length = q.functions.length)
    {c : Call} (hc : c.Within (p.Member top)) :
    InStep top ρ c.run (c.rename ρ).run (SameAnswer top ρ) p q := by
  cases c with
  | function name inputs => cases hc
  | setReplicasAndPartitions replicas partitions => cases hc
  | addMesh mesh => cases hc
  | closure id =>
    refine (closure_inStep h hc hρ).bind fun c c' _ _ _ _ hc h _ => inStep_pure h ?_
    exact ⟨hc.1, congrArg Answer.function hc.2⟩
  | input id shape => exact value_inStep hc (input_inStep h hc shape)
  | namedInput id name shape => exact value_inStep hc (namedInput_inStep h hc name shape)
  | inputWithSharding id shape sharding =>
    exact value_inStep hc (inputWithSharding_inStep h hc shape sharding)
  | returnValues id values => exact done_inStep (returnValues_inStep h hc.1 hc.2)
  | returnSharded id values shardings =>
    exact done_inStep (returnSharded_inStep h hc.1 hc.2 shardings)
  | append id o =>
    obtain ⟨hid, hcollective, hoperands, hcomputation⟩ := hc
    refine (append_inStep h hid hcollective hoperands hcomputation).bind
      fun values values' p' _ _ _ hvalues h hgrown => inStep_pure h ?_
    obtain ⟨hfunction, rfl⟩ := hvalues
    exact ⟨fun v hv => hfunction v hv ▸ hid.mono hgrown, rfl⟩
  | argExtremum id e operand axis positionType =>
    exact value_inStep hc.1 (argExtremum_inStep h hc.1 hρ e hc.2 axis positionType)

end Call

/-! ## Requests -/

/-- A function that is given, or that a request of the same script has answered with. -/
inductive FunctionHandle
  | given (id : FunctionId)
  | answered (request : Nat)
  deriving DecidableEq, Repr

/-- A value that is given, or that is among those that a request of the same script has answered
with. -/
inductive ValueHandle
  | given (v : Value)
  | answered (request position : Nat)
  deriving DecidableEq, Repr

/-- A call on handles.  What changes the program as a whole, such as a new top-level function, is
not a request of a script. -/
inductive Request
  | closure (f : FunctionHandle)
  | input (f : FunctionHandle) (shape : Shape)
  | namedInput (f : FunctionHandle) (name : String) (shape : Shape)
  | inputWithSharding (f : FunctionHandle) (shape : Shape) (sharding : Sharding)
  | returnValues (f : FunctionHandle) (values : List ValueHandle)
  | returnSharded (f : FunctionHandle) (values : List ValueHandle)
      (shardings : List (Option Sharding))
  | append (f : FunctionHandle) (o : Operation ValueHandle FunctionHandle)
  | argExtremum (f : FunctionHandle) (e : Extremum) (operand : ValueHandle) (axis : Int)
      (positionType : ElementType)
  deriving DecidableEq, Repr

/-- What has become of a request.  It is not made when a handle of it was never answered. -/
abbrev Reply := Option (Except BuildError Answer)

namespace Reply

/-- The function that a request was answered with. -/
def function? : Reply → Option FunctionId
  | some (.ok (.function id)) => some id
  | _ => none

/-- The values that a request was answered with. -/
def values : Reply → List Value
  | some (.ok (.values vs)) => vs
  | _ => []

end Reply

namespace FunctionHandle

def resolve (replies : List Reply) : FunctionHandle → Except Unit FunctionId
  | given id => .ok id
  | answered request => (replies.getD request none).function?.elim (.error ()) .ok

/-- A given function has the property. -/
def Given (P : FunctionId → Prop) : FunctionHandle → Prop
  | given id => P id
  | answered _ => True

theorem Given.mono {P Q : FunctionId → Prop} {f : FunctionHandle} (h : f.Given P)
    (hPQ : ∀ id, P id → Q id) : f.Given Q := by
  cases f with
  | given id => exact hPQ id h
  | answered request => trivial

end FunctionHandle

namespace ValueHandle

def resolve (replies : List Reply) : ValueHandle → Except Unit Value
  | given v => .ok v
  | answered request position =>
    (replies.getD request none).values[position]?.elim (.error ()) .ok

/-- The function of a given value has the property. -/
def Given (P : FunctionId → Prop) : ValueHandle → Prop
  | given v => P v.function
  | answered .. => True

theorem Given.mono {P Q : FunctionId → Prop} {v : ValueHandle} (h : v.Given P)
    (hPQ : ∀ id, P id → Q id) : v.Given Q := by
  cases v with
  | given v => exact hPQ v.function h
  | answered request position => trivial

end ValueHandle

namespace Request

/-- The call that the request becomes, once its handles are looked up. -/
def call (replies : List Reply) : Request → Except Unit Call
  | closure f => return .closure (← f.resolve replies)
  | input f shape => return .input (← f.resolve replies) shape
  | namedInput f name shape => return .namedInput (← f.resolve replies) name shape
  | inputWithSharding f shape sharding =>
    return .inputWithSharding (← f.resolve replies) shape sharding
  | returnValues f values =>
    return .returnValues (← f.resolve replies) (← values.mapM (ValueHandle.resolve replies))
  | returnSharded f values shardings =>
    return .returnSharded (← f.resolve replies) (← values.mapM (ValueHandle.resolve replies))
      shardings
  | append f o =>
    return .append (← f.resolve replies)
      (← o.traverse (ValueHandle.resolve replies) (FunctionHandle.resolve replies))
  | argExtremum f e operand axis positionType =>
    return .argExtremum (← f.resolve replies) e (← operand.resolve replies) axis positionType

/-- The request is for a collective, which takes a channel of the program. -/
def isCollective : Request → Bool
  | append _ o => o.isCollective
  | _ => false

/-- All that is given in the request has the property. -/
def Given (P : FunctionId → Prop) : Request → Prop
  | closure f | input f _ | namedInput f _ _ | inputWithSharding f _ _ => f.Given P
  | returnValues f values | returnSharded f values _ => f.Given P ∧ ∀ v ∈ values, v.Given P
  | append f o => f.Given P ∧ (∀ v ∈ o.operands, v.Given P) ∧
      ∀ label c, o.computation? = some (label, c) → c.Given P
  | argExtremum f _ operand _ _ => f.Given P ∧ operand.Given P

theorem Given.mono {P Q : FunctionId → Prop} {r : Request} (h : r.Given P)
    (hPQ : ∀ id, P id → Q id) : r.Given Q := by
  cases r with
  | closure f | input f shape | namedInput f name shape | inputWithSharding f shape sharding =>
    exact FunctionHandle.Given.mono h hPQ
  | returnValues f values | returnSharded f values shardings =>
    exact ⟨h.1.mono hPQ, fun v hv => (h.2 v hv).mono hPQ⟩
  | append f o =>
    obtain ⟨hf, hoperands, hcomputation⟩ := h
    exact ⟨hf.mono hPQ, fun v hv => (hoperands v hv).mono hPQ,
      fun label c hc => (hcomputation label c hc).mono hPQ⟩
  | argExtremum f e operand axis positionType => exact ⟨h.1.mono hPQ, h.2.mono hPQ⟩

end Request

/-! ## Requests under a renaming -/

namespace Program

variable {p q p' : Program} {top : FunctionId} {ρ σ : FunctionId → FunctionId}

/-- A reply in one program and the same reply under the renaming in the other. -/
def SameReply (top : FunctionId) (ρ : FunctionId → FunctionId) (p : Program) :
    Reply → Reply → Prop :=
  Option.Rel (Corresponds (Call.SameAnswer top ρ p))

/-- The replies stay the same when the program grows and the renaming with it. -/
theorem SameReply.mono {reply reply' : Reply} (h : SameReply top ρ p reply reply')
    (hgrown : p.Extends p') (hρσ : ∀ id, id < p.functions.length → ρ id = σ id) :
    SameReply top σ p' reply reply' := by
  cases h with
  | none => exact .none
  | some h =>
    refine .some ?_
    cases h with
    | error he => exact .error he
    | ok ha =>
      obtain ⟨hmember, rfl⟩ := ha
      refine .ok ⟨hmember.mono fun id hid => hid.mono hgrown, Answer.rename_congr ?_⟩
      exact hmember.mono fun id hid => hρσ id (lt_of_function? hid.1.choose_spec)

/-- The functions that may be given: members of the tree that keep their names. -/
def Fixed (top : FunctionId) (ρ : FunctionId → FunctionId) (p : Program) (id : FunctionId) : Prop :=
  p.Member top id ∧ ρ id = id

theorem SameReply.function? {reply reply' : Reply} (h : SameReply top ρ p reply reply') :
    reply'.function? = reply.function?.map ρ ∧
      ∀ id, reply.function? = some id → p.Member top id := by
  rcases h with ⟨⟨hmember, rfl⟩ | _⟩ | _
  · rename_i a
    cases a with
    | function id =>
      refine ⟨rfl, fun id' hid => ?_⟩
      obtain rfl := Option.some.inj hid
      exact hmember
    | done => exact ⟨rfl, fun _ h => nomatch h⟩
    | values vs => exact ⟨rfl, fun _ h => nomatch h⟩
  · exact ⟨rfl, fun _ h => nomatch h⟩
  · exact ⟨rfl, fun _ h => nomatch h⟩

theorem SameReply.values {reply reply' : Reply} (h : SameReply top ρ p reply reply') :
    reply'.values = reply.values.map (Value.rename ρ) ∧
      ∀ v ∈ reply.values, p.Member top v.function := by
  rcases h with ⟨⟨hmember, rfl⟩ | _⟩ | _
  · rename_i a
    cases a with
    | values vs => exact ⟨rfl, hmember⟩
    | done => exact ⟨rfl, fun _ h => nomatch h⟩
    | function id => exact ⟨rfl, fun _ h => nomatch h⟩
  · exact ⟨rfl, fun _ h => nomatch h⟩
  · exact ⟨rfl, fun _ h => nomatch h⟩

variable {replies replies' : List Reply}

theorem sameReply_getD (h : List.Forall₂ (SameReply top ρ p) replies replies') (request : Nat) :
    SameReply top ρ p (replies.getD request none) (replies'.getD request none) := by
  induction h generalizing request with
  | nil => exact .none
  | cons hreply _ ih =>
    cases request with
    | zero => exact hreply
    | succ request => exact ih request

end Program

section Resolution

open Program

variable {p : Program} {top : FunctionId} {ρ : FunctionId → FunctionId}
  {replies replies' : List Reply} (h : List.Forall₂ (SameReply top ρ p) replies replies')

include h

theorem FunctionHandle.resolve_rename {f : FunctionHandle} (hf : f.Given (Fixed top ρ p)) :
    f.resolve replies' = (f.resolve replies).map ρ ∧
      ∀ id, f.resolve replies = .ok id → p.Member top id := by
  cases f with
  | given id =>
    refine ⟨congrArg Except.ok hf.2.symm, fun id' hid => ?_⟩
    obtain rfl := Except.ok.inj hid
    exact hf.1
  | answered request =>
    obtain ⟨hsame, hmember⟩ := (sameReply_getD h request).function?
    simp only [resolve, hsame]
    cases hown : (replies.getD request none).function? with
    | none => exact ⟨rfl, fun id hid => by cases hid⟩
    | some id =>
      refine ⟨rfl, fun id' hid => ?_⟩
      obtain rfl := Except.ok.inj hid
      exact hmember id hown

theorem ValueHandle.resolve_rename {v : ValueHandle} (hv : v.Given (Fixed top ρ p)) :
    v.resolve replies' = (v.resolve replies).map (Value.rename ρ) ∧
      ∀ w, v.resolve replies = .ok w → p.Member top w.function := by
  cases v with
  | given v =>
    have hrename : v = v.rename ρ := by rw [Value.rename, hv.2]
    refine ⟨congrArg Except.ok hrename, fun w hw => ?_⟩
    obtain rfl := Except.ok.inj hw
    exact hv.1
  | answered request position =>
    obtain ⟨hsame, hmember⟩ := (sameReply_getD h request).values
    simp only [resolve, hsame, List.getElem?_map]
    cases hown : (replies.getD request none).values[position]? with
    | none => exact ⟨rfl, fun w hw => by cases hw⟩
    | some v =>
      refine ⟨rfl, fun w hw => ?_⟩
      obtain rfl := Except.ok.inj hw
      exact hmember v (List.mem_of_getElem? hown)

theorem resolveAll_rename {values : List ValueHandle}
    (hvalues : ∀ v ∈ values, v.Given (Fixed top ρ p)) :
    values.mapM (ValueHandle.resolve replies') =
      (values.mapM (ValueHandle.resolve replies)).map (List.map (Value.rename ρ)) ∧
      ∀ vs, values.mapM (ValueHandle.resolve replies) = .ok vs →
        ∀ v ∈ vs, p.Member top v.function := by
  constructor
  · rw [← mapM_map_results]
    exact mapM_congr fun v hv => (ValueHandle.resolve_rename h (hvalues v hv)).1
  · exact fun vs hvs =>
      forall_of_mapM hvs fun v hv => (ValueHandle.resolve_rename h (hvalues v hv)).2

/-- The operation on the handles that are looked up. -/
theorem Operation.resolve_rename {o : Operation ValueHandle FunctionHandle}
    (hoperands : ∀ v ∈ o.operands, v.Given (Fixed top ρ p))
    (hcomputation : ∀ label c, o.computation? = some (label, c) → c.Given (Fixed top ρ p)) :
    o.traverse (ValueHandle.resolve replies') (FunctionHandle.resolve replies') =
      (o.traverse (ValueHandle.resolve replies) (FunctionHandle.resolve replies)).map
        (Operation.rename ρ) := by
  rw [show Operation.rename ρ = Operation.map (Value.rename ρ) ρ from rfl,
    ← Operation.traverse_map_results]
  refine Operation.traverse_congr (fun v hv => ?_) fun label c hc => ?_
  · exact (ValueHandle.resolve_rename h (hoperands v hv)).1
  · exact (FunctionHandle.resolve_rename h (hcomputation label c hc)).1

/-- A request becomes the same call under the renaming. -/
theorem Request.call_rename {r : Request} (hr : r.Given (Fixed top ρ p)) :
    r.call replies' = (r.call replies).map (Call.rename ρ) := by
  cases r with
  | closure f | input f shape | namedInput f name shape | inputWithSharding f shape sharding =>
    simp only [call, (FunctionHandle.resolve_rename h hr).1, bind_map, map_bind]
    rfl
  | returnValues f values | returnSharded f values shardings =>
    simp only [call, (FunctionHandle.resolve_rename h hr.1).1, (resolveAll_rename h hr.2).1,
      bind_map, map_bind]
    rfl
  | append f o =>
    obtain ⟨hf, hoperands, hcomputation⟩ := hr
    simp only [call, (FunctionHandle.resolve_rename h hf).1,
      Operation.resolve_rename h hoperands hcomputation, bind_map, map_bind]
    rfl
  | argExtremum f e operand axis positionType =>
    simp only [call, (FunctionHandle.resolve_rename h hr.1).1,
      (ValueHandle.resolve_rename h hr.2).1, bind_map, map_bind]
    rfl

/-- A request becomes a call on the tree. -/
theorem Request.call_within {r : Request} (hcollective : r.isCollective = false)
    (hr : r.Given (Fixed top ρ p)) {c : Call} (hc : r.call replies = .ok c) :
    c.Within (p.Member top) := by
  cases r <;> simp only [call, bind_eq_ok, pure_eq_ok, Except.ok.injEq] at hc
  case closure f | input f shape | namedInput f name shape | inputWithSharding f shape sharding =>
    obtain ⟨id, hid, rfl⟩ := hc
    exact (FunctionHandle.resolve_rename h hr).2 id hid
  case returnValues f values | returnSharded f values shardings =>
    obtain ⟨id, hid, vs, hvs, rfl⟩ := hc
    exact ⟨(FunctionHandle.resolve_rename h hr.1).2 id hid, (resolveAll_rename h hr.2).2 vs hvs⟩
  case append f o =>
    obtain ⟨hf, hoperands, hcomputation⟩ := hr
    obtain ⟨id, hid, o', htraverse, rfl⟩ := hc
    refine ⟨(FunctionHandle.resolve_rename h hf).2 id hid, ?_, ?_, fun label c' hc' => ?_⟩
    · rw [Operation.isCollective, Operation.traverse_kind htraverse]
      exact hcollective
    · exact forall_of_mapM (Operation.traverse_operands htraverse) fun v hv =>
        (ValueHandle.resolve_rename h (hoperands v hv)).2
    · obtain ⟨c, hc, hresult⟩ := Operation.computation_of_traverse htraverse hc'
      exact (FunctionHandle.resolve_rename h (hcomputation label c hc)).2 c' hresult
  case argExtremum f e operand axis positionType =>
    obtain ⟨id, hid, v, hv, rfl⟩ := hc
    exact ⟨(FunctionHandle.resolve_rename h hr.1).2 id hid,
      (ValueHandle.resolve_rename h hr.2).2 v hv⟩

end Resolution

end TensorProgram
