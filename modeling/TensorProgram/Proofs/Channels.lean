import TensorProgram.Proofs.Naming
import TensorProgram.Proofs.Outcomes

/-!
# Channels of collectives

A collective that is appended takes the next channel of the program.  Channels are counted for
the whole program while the statements are spread over its functions, so the collectives are
listed here by the places of their statements, `Program.collectivePlaces`, in the order in which
the calls have succeeded.

`Program.Channeled` says of such a list that it has a place for each channel and that the
statement there holds that channel.  Steps that take no channel add no collective,
`Steps.channeled`, and a collective adds its place, `Channeled.withOperation`.  Together they
give `channels_of_calls`: the channels of the collectives are the numbers up to the count of the
program, each held by one statement.
-/

namespace TensorProgram

/-! ## The attribute of a channel -/

namespace AttributeTable

theorem find?_insert (name : String) (value : Attribute) (table : AttributeTable) :
    (table.insert name value).find? name = some value := by
  induction table with
  | nil => simp [insert, find?]
  | cons entry table ih =>
    obtain ⟨key, old⟩ := entry
    unfold insert
    split_ifs with hlt heq
    · simp [find?]
    · simp [find?]
    · rwa [find?, List.lookup_cons, beq_false_of_ne heq]

/-- The last value with a name counts. -/
theorem find?_ofList_append (attributes : List (String × Attribute)) (name : String)
    (value : Attribute) : (ofList (attributes ++ [(name, value)])).find? name = some value := by
  rw [ofList, List.foldl_append]
  exact find?_insert name value _

end AttributeTable

/-- The text of a channel tells its number. -/
theorem ChannelHandle.number_eq {m n : Nat}
    (h : (betweenDevices m).render = (betweenDevices n).render) : m = n := by
  have htext : (toString (m : Int)).toList = (toString (n : Int)).toList := by
    simpa [betweenDevices, render, FieldText.record, FieldText.int] using congrArg String.toList h
  exact toString_injective (String.toList_inj.mp htext)

/-- The kinds of operations between devices. -/
def OpKind.collectives : List OpKind :=
  [.allGather, .allToAll, .allReduce, .collectivePermute, .collectiveBroadcast]

theorem OpKind.hasCapability_collective {op : OpKind} :
    op.hasCapability .collective = true ↔ op ∈ collectives := by
  cases op with
  | unary op => cases op <;> decide
  | binary op => cases op <;> decide
  | _ => decide

namespace Statement

/-- The statement holds the text of the channel with a number. -/
def HasChannel (s : Statement) (channel : Nat) : Prop :=
  s.attributes.find? "channel_handle" =
    some (.verbatim (ChannelHandle.betweenDevices channel).render)

theorem HasChannel.unique {s : Statement} {m n : Nat} (hm : s.HasChannel m)
    (hn : s.HasChannel n) : m = n := by
  have htext := hm.symm.trans hn
  rw [Option.some.injEq, Attribute.verbatim.injEq] at htext
  exact ChannelHandle.number_eq htext

end Statement

/-! ## Channels that are not taken -/

namespace Builder

open Program

theorem channelCount_addStatement (p : Program) (id : FunctionId) (op : OpKind)
    (inputs : List Value) (attributes : List (String × Attribute)) (closure? : Option ClosureUse)
    (shapes : List Shape) :
    (p.addStatement id op inputs attributes closure? shapes).2.channelCount = p.channelCount := by
  cases closure? <;> rfl

theorem channelCount_withOperation (p : Program) (id : FunctionId)
    (o : Operation Value FunctionId) (shaped : Operation Shape Inference.Signature)
    (outputs : List Shape) : (p.withOperation id o shaped outputs).channelCount =
      p.channelCount + if o.isCollective then 1 else 0 :=
  channelCount_addStatement (p.withChannel o.isCollective) id _ _ _ _ _

theorem closure_leaves_channels (id : FunctionId) : (closure id).Leaves channelCount :=
  (leaves_check _).bind fun _ => leaves_change fun _ => rfl

theorem input_leaves_channels (id : FunctionId) (shape : Shape) :
    (input id shape).Leaves channelCount :=
  (leaves_check _).bind fun _ => leaves_change fun _ => rfl

theorem inputWithSharding_leaves_channels (id : FunctionId) (shape : Shape) (sharding : Sharding) :
    (inputWithSharding id shape sharding).Leaves channelCount := by
  refine (leaves_check _).bind fun _ => (leaves_check _).bind fun _ => ?_
  exact (input_leaves_channels id shape).bind fun _ => leaves_change fun _ => rfl

theorem function_leaves_channels (name : String) (inputs : List Shape) :
    (function name inputs).Leaves channelCount :=
  function_leaves_of (fun _ _ => rfl) input_leaves_channels name inputs

theorem append_leaves_channels (id : FunctionId) {o : Operation Value FunctionId}
    (ho : o.isCollective = false) : (append id o).Leaves channelCount := by
  refine (append_allOrNothing id o).leaves fun p values q hrun => ?_
  obtain ⟨f, shaped, outputs, _, _, _, _, rfl⟩ := run_append_eq_ok.mp hrun
  rw [channelCount_withOperation, ho, if_neg Bool.false_ne_true, Nat.add_zero]

theorem appendSingle_leaves_channels (id : FunctionId) {o : Operation Value FunctionId}
    (ho : o.isCollective = false) : (appendSingle id o).Leaves channelCount :=
  (append_leaves_channels id ho).bind fun _ => leaves_check _

theorem returnSharded_leaves_channels (id : FunctionId) (values : List Value)
    (shardings : List (Option Sharding)) :
    (returnSharded id values shardings).Leaves channelCount := by
  refine (leaves_check _).bind fun outputs => (leaves_check _).bind fun op => ?_
  refine ((leaves_check _).bind fun _ => leaves_change fun p => ?_).bind fun _ =>
    leaves_change fun _ => rfl
  exact channelCount_addStatement p id op values [] none []

/-- The closure of a search holds no collective. -/
theorem fillBetterPair_leaves_channels (id : FunctionId) (e : Extremum)
    (elementType positionType : ElementType) :
    (fillBetterPair id e elementType positionType).Leaves channelCount :=
  fillBetterPair_leaves_of (input_leaves_channels id)
    (fun _ ho => appendSingle_leaves_channels id ho)
    (fun values => returnSharded_leaves_channels id values _) e elementType positionType

theorem argExtremum_leaves_channels (id : FunctionId) (e : Extremum) (operand : Value) (axis : Int)
    (positionType : ElementType) :
    (argExtremum id e operand axis positionType).Leaves channelCount := by
  refine (leaves_check _).bind fun search => ?_
  refine (appendSingle_leaves_channels id rfl).bind fun _ =>
    (appendSingle_leaves_channels id rfl).bind fun _ =>
    (appendSingle_leaves_channels id rfl).bind fun _ => ?_
  refine (closure_leaves_channels id).bind fun body =>
    (fillBetterPair_leaves_channels body e _ _).bind fun _ => ?_
  exact (append_leaves_channels id rfl).bind fun _ => leaves_check _

end Builder

/-- Only a collective takes a channel. -/
theorem Call.run_leaves_channels {c : Call}
    (hc : ∀ id o, c = .append id o → o.isCollective = false) :
    c.run.Leaves Program.channelCount := by
  open Builder in
  cases c with
  | function name inputs =>
    exact (function_leaves_channels name inputs).bind fun _ => leaves_pure _
  | setReplicasAndPartitions replicas partitions =>
    exact ((leaves_check _).bind fun _ => leaves_change fun _ => rfl).bind fun _ => leaves_pure _
  | addMesh mesh =>
    exact ((leaves_check _).bind fun _ => leaves_change fun _ => rfl).bind fun _ => leaves_pure _
  | closure id => exact (closure_leaves_channels id).bind fun _ => leaves_pure _
  | input id shape => exact (input_leaves_channels id shape).bind fun _ => leaves_pure _
  | namedInput id name shape =>
    exact ((leaves_check _).bind fun _ => (leaves_check _).bind fun _ =>
      leaves_change fun _ => rfl).bind fun _ => leaves_pure _
  | inputWithSharding id shape sharding =>
    exact (inputWithSharding_leaves_channels id shape sharding).bind fun _ => leaves_pure _
  | returnValues id values =>
    exact (returnSharded_leaves_channels id values _).bind fun _ => leaves_pure _
  | returnSharded id values shardings =>
    exact (returnSharded_leaves_channels id values shardings).bind fun _ => leaves_pure _
  | append id o => exact (append_leaves_channels id (hc id o rfl)).bind fun _ => leaves_pure _
  | argExtremum id e operand axis positionType =>
    exact (argExtremum_leaves_channels id e operand axis positionType).bind fun _ => leaves_pure _

/-! ## Places of collectives -/

/-- The place of a statement: its function and its position in the body. -/
structure Place where
  function : FunctionId
  position : Nat
  deriving DecidableEq, Repr

namespace Program

def statement? (p : Program) (place : Place) : Option Statement :=
  (p.body place.function)[place.position]?

/-- The places list the collectives of the program in the order of their channels. -/
structure Channeled (p : Program) (places : List Place) : Prop where
  count : places.length = p.channelCount
  channel : ∀ {i place}, places[i]? = some place →
    ∃ s, p.statement? place = some s ∧ s.op ∈ OpKind.collectives ∧ s.HasChannel (i + 1)
  all : ∀ {place s}, p.statement? place = some s → s.op ∈ OpKind.collectives → place ∈ places

variable {p q : Program} {places : List Place}

theorem channeled_empty (name : String) : (Program.empty name).Channeled [] where
  count := rfl
  channel hplace := by cases hplace
  all hs := by cases hs

/-- A statement stays in its place when bodies grow, and any other statement is new. -/
theorem statement?_of_body {new : FunctionId → List Statement}
    (hbody : ∀ j, q.body j = p.body j ++ new j) (place : Place) (s : Statement) :
    q.statement? place = some s ↔ p.statement? place = some s ∨
      ∃ i, place.position = (p.body place.function).length + i ∧
        (new place.function)[i]? = some s := by
  unfold statement?
  rw [hbody]
  rcases Nat.lt_or_ge place.position (p.body place.function).length with hlt | hge
  · rw [List.getElem?_append_left hlt]
    refine ⟨.inl, fun h => h.resolve_right ?_⟩
    rintro ⟨i, hi, _⟩
    omega
  · obtain ⟨i, hi⟩ := Nat.exists_eq_add_of_le hge
    rw [List.getElem?_append_right hge, List.getElem?_eq_none hge, hi, Nat.add_sub_cancel_left]
    simp

/-- Bodies grow, and no new statement is a collective. -/
def GrowsPlainly (p q : Program) : Prop :=
  ∃ new : FunctionId → List Statement, (∀ j, q.body j = p.body j ++ new j) ∧
    ∀ j, ∀ s ∈ new j, s.op ∉ OpKind.collectives

theorem growsPlainly_of_body_eq (h : ∀ j, q.body j = p.body j) : p.GrowsPlainly q :=
  ⟨fun _ => [], fun j => by rw [h, List.append_nil], fun _ _ hs => nomatch hs⟩

theorem growsPlainly_of_statement {id : FunctionId} {s : Statement}
    (h : ∀ j, q.body j = if id = j then p.body j ++ [s] else p.body j)
    (hs : s.op ∉ OpKind.collectives) : p.GrowsPlainly q := by
  refine ⟨fun j => if id = j then [s] else [], fun j => ?_, fun j t ht => ?_⟩
  · rw [h]
    by_cases hj : id = j <;> simp [hj]
  · obtain ⟨_, rfl⟩ : id = j ∧ t = s := by simpa using ht
    exact hs

/-- Statements that are no collectives leave the list as it is. -/
theorem Channeled.grow (hp : p.Channeled places) (hcount : q.channelCount = p.channelCount)
    (h : p.GrowsPlainly q) : q.Channeled places := by
  obtain ⟨new, hbody, hnew⟩ := h
  constructor
  case count => exact hp.count.trans hcount.symm
  case channel =>
    intro i place hplace
    obtain ⟨s, hs, hop, hchannel⟩ := hp.channel hplace
    exact ⟨s, (statement?_of_body hbody _ s).mpr (.inl hs), hop, hchannel⟩
  case all =>
    intro place s hs hop
    rcases (statement?_of_body hbody place s).mp hs with hs | ⟨i, _, hs⟩
    · exact hp.all hs hop
    · exact absurd hop (hnew place.function s (List.mem_of_getElem? hs))

/-- A collective takes the next channel, and its place is the next one. -/
theorem Channeled.withOperation (hp : p.Channeled places) {id : FunctionId} {f : Function}
    (hf : p.function? id = some f) {o : Operation Value FunctionId} (ho : o.isCollective = true)
    (shaped : Operation Shape Inference.Signature) (outputs : List Shape) :
    (p.withOperation id o shaped outputs).Channeled
      (places ++ [⟨id, (p.body id).length⟩]) := by
  let added := newStatement id f.values o.kind o.operands
    ((shaped.explicit outputs).attributes ++ p.channelAttributes o.isCollective) o.closureUse?
    outputs
  have hbody : ∀ j, (p.withOperation id o shaped outputs).body j =
      p.body j ++ if id = j then [added] else [] := by
    intro j
    rw [body_withOperation hf]
    split_ifs
    · rfl
    · rw [List.append_nil]
  have hchannel : added.HasChannel (p.channelCount + 1) := by
    show (AttributeTable.ofList _).find? _ = _
    rw [channelAttributes, ho, if_pos rfl]
    exact AttributeTable.find?_ofList_append _ _ _
  constructor
  case count =>
    rw [Builder.channelCount_withOperation, ho, if_pos rfl, List.length_append, hp.count]
    rfl
  case channel =>
    intro i place hplace
    rcases Nat.lt_or_ge i places.length with hlt | hge
    · rw [List.getElem?_append_left hlt] at hplace
      obtain ⟨s, hs, hop, hchannel⟩ := hp.channel hplace
      exact ⟨s, (statement?_of_body hbody place s).mpr (.inl hs), hop, hchannel⟩
    · rw [List.getElem?_append_right hge] at hplace
      obtain ⟨hi, rfl⟩ := List.getElem?_eq_some_iff.mp hplace
      rw [List.length_singleton, Nat.lt_one_iff, Nat.sub_eq_zero_iff_le] at hi
      obtain rfl : i = places.length := Nat.le_antisymm hi hge
      refine ⟨added, (statement?_of_body hbody _ added).mpr (.inr ⟨0, ?_, ?_⟩),
        OpKind.hasCapability_collective.mp ho, hp.count ▸ hchannel⟩
      · simp
      · simp
  case all =>
    intro place s hs hop
    rcases (statement?_of_body hbody place s).mp hs with hs | ⟨i, hi, hs⟩
    · exact List.mem_append_left _ (hp.all hs hop)
    · split_ifs at hs with hid
      · obtain rfl : i = 0 := by simpa using (List.getElem?_eq_some_iff.mp hs).1
        obtain ⟨function, position⟩ := place
        obtain rfl : id = function := hid
        obtain rfl : position = (p.body id).length := hi
        exact List.mem_append_right _ (List.mem_singleton_self _)
      · cases hs

theorem body_withInput {id : FunctionId} {f : Function} (hf : p.function? id = some f)
    (data : ValueData) (j : FunctionId) : (p.withInput id data).body j = p.body j := by
  rw [body, function?_withInput data hf, Option.map_map]
  rfl

/-- A step that takes no channel adds no collective. -/
theorem Step.bodies (h : Step p q) : p.channelCount ≤ q.channelCount ∧
    (q.channelCount = p.channelCount → p.GrowsPlainly q) := by
  cases h with
  | function hname =>
    exact ⟨Nat.le_refl _, fun _ => growsPlainly_of_body_eq (body_addFunction p _)⟩
  | closure hf hopen =>
    exact ⟨Nat.le_refl _, fun _ => growsPlainly_of_body_eq (body_addFunction p _)⟩
  | counts hmeshes => exact ⟨Nat.le_refl _, fun _ => growsPlainly_of_body_eq fun _ => rfl⟩
  | mesh hmesh => exact ⟨Nat.le_refl _, fun _ => growsPlainly_of_body_eq fun _ => rfl⟩
  | input hf hopen hname hsharding =>
    exact ⟨Nat.le_refl _, fun _ => growsPlainly_of_body_eq (body_withInput hf _)⟩
  | @operation id f o shaped outputs hf hopen hresolve =>
    rw [Builder.channelCount_withOperation]
    refine ⟨Nat.le_add_right _ _, fun hcount => ?_⟩
    refine growsPlainly_of_statement (body_withOperation hf o shaped outputs) fun hop => ?_
    have ho : o.isCollective = true := OpKind.hasCapability_collective.mpr hop
    simp [ho] at hcount
  | @«return» id f values shardings outputs hf hopen hreturn =>
    have hcount : (p.withReturn id values outputs).channelCount = p.channelCount :=
      Builder.channelCount_addStatement p id (Builder.returnKind p id) values [] none []
    refine ⟨Nat.le_of_eq hcount.symm, fun _ => ?_⟩
    have hop : Builder.returnKind p id ∉ OpKind.collectives := by
      unfold Builder.returnKind
      split_ifs <;> decide
    exact growsPlainly_of_statement (body_withReturn hf values outputs) hop

theorem Steps.channelCount_le (h : Steps p q) : p.channelCount ≤ q.channelCount := by
  induction h with
  | refl => exact Nat.le_refl _
  | tail _ hstep ih => exact Nat.le_trans ih hstep.bodies.1

/-- Steps that take no channel leave the list as it is. -/
theorem Steps.channeled (h : Steps p q) (hcount : q.channelCount = p.channelCount)
    (hp : p.Channeled places) : q.Channeled places := by
  induction h with
  | refl => exact hp
  | @tail q r hsteps hstep ih =>
    obtain ⟨hle, hbodies⟩ := hstep.bodies
    have hq : q.channelCount = p.channelCount :=
      Nat.le_antisymm (hcount ▸ hle) (Steps.channelCount_le hsteps)
    exact (ih hq).grow (hcount.trans hq.symm) (hbodies (hcount.trans hq.symm))

/-! ## Places in the order of the calls -/

/-- The place of the collective that a call adds, if the call adds one. -/
def newCollective? (p : Program) (c : Call) : Option Place :=
  match c, (c.run.run p).1 with
  | .append id o, .ok _ => if o.isCollective then some ⟨id, (p.body id).length⟩ else none
  | _, _ => none

/-- The places of the collectives that calls add, in the order in which the calls succeed. -/
def collectivePlaces (p : Program) : List Call → List Place
  | [] => []
  | c :: calls => (p.newCollective? c).toList ++ (p.call c).collectivePlaces calls

/-- A call that adds no collective takes no channel. -/
theorem channelCount_call {c : Call} (hc : p.newCollective? c = none) :
    (p.call c).channelCount = p.channelCount := by
  cases hrun : (c.run.run p).1 with
  | error e => exact congrArg channelCount (c.run_allOrNothing.eq_of_error (Prod.ext hrun rfl))
  | ok answer =>
    refine Call.run_leaves_channels (fun id o ho => ?_) p
    subst ho
    simpa [newCollective?, hrun] using hc

/-- A call adds its collective to the list. -/
theorem Channeled.call (hp : p.Channeled places) (c : Call) :
    (p.call c).Channeled (places ++ (p.newCollective? c).toList) := by
  cases hnew : p.newCollective? c with
  | none =>
    rw [Option.toList_none, List.append_nil]
    exact (call_steps p c).channeled (channelCount_call hnew) hp
  | some place =>
    unfold newCollective? at hnew
    split at hnew
    · rename_i id o answer hrun
      split_ifs at hnew with ho
      obtain rfl := Option.some.inj hnew
      have hcall : (Call.append id o).run.run p = (.ok answer, p.call (.append id o)) :=
        Prod.ext hrun rfl
      obtain ⟨values, q, happend, hanswer⟩ := Builder.run_bind_eq_ok.mp hcall
      obtain ⟨_, hq⟩ := Builder.run_pure_eq_ok.mp hanswer
      obtain ⟨f, shaped, outputs, hf, _, _, _, rfl⟩ := Builder.run_append_eq_ok.mp happend
      rw [← hq]
      exact hp.withOperation hf ho shaped outputs
    · cases hnew

theorem Channeled.calls (hp : p.Channeled places) (calls : List Call) :
    (calls.foldl Program.call p).Channeled (places ++ p.collectivePlaces calls) := by
  induction calls generalizing p places with
  | nil => simpa [collectivePlaces] using hp
  | cons c calls ih =>
    have h := ih (hp.call c)
    rwa [List.append_assoc] at h

/-- The collectives of a program hold the channels from 1 to its count, one each, in the order
in which their calls have succeeded.  A call that fails takes no channel, and neither does a call
for anything else. -/
theorem channels_of_calls (name : String) (calls : List Call) :
    let p := Program.ofCalls name calls
    let places := (Program.empty name).collectivePlaces calls
    places.length = p.channelCount ∧
      (∀ i place, places[i]? = some place →
        ∃ s, p.statement? place = some s ∧ s.op ∈ OpKind.collectives ∧ s.HasChannel (i + 1)) ∧
      (∀ n, 1 ≤ n → n ≤ p.channelCount →
        ∃! place, ∃ s, p.statement? place = some s ∧ s.op ∈ OpKind.collectives ∧ s.HasChannel n) ∧
      (∀ place s, p.statement? place = some s → s.op ∈ OpKind.collectives →
        ∃ n, 1 ≤ n ∧ n ≤ p.channelCount ∧ ∀ m, s.HasChannel m ↔ m = n) ∧
      (∀ c e, (c.run.run p).1 = .error e → (p.call c).channelCount = p.channelCount) ∧
      ∀ c, (∀ id o, c = .append id o → o.kind ∉ OpKind.collectives) →
        (p.call c).channelCount = p.channelCount := by
  intro p places
  have hp : p.Channeled places := (channeled_empty name).calls calls
  have hplace {place s} (hs : p.statement? place = some s) (hop : s.op ∈ OpKind.collectives) :
      ∃ i, places[i]? = some place ∧ i < p.channelCount ∧ s.HasChannel (i + 1) := by
    obtain ⟨i, hi⟩ := List.mem_iff_getElem?.mp (hp.all hs hop)
    obtain ⟨t, ht, _, hchannel⟩ := hp.channel hi
    obtain rfl : s = t := Option.some.inj (hs.symm.trans ht)
    exact ⟨i, hi, hp.count ▸ (List.getElem?_eq_some_iff.mp hi).1, hchannel⟩
  refine ⟨hp.count, fun i place => hp.channel, ?_, ?_, ?_, ?_⟩
  · intro n hpos hle
    obtain ⟨i, rfl⟩ := Nat.exists_eq_add_of_le' hpos
    have hi : i < places.length := by rw [hp.count]; omega
    refine ⟨places[i], hp.channel (List.getElem?_eq_getElem hi), ?_⟩
    rintro place ⟨s, hs, hop, hchannel⟩
    obtain ⟨j, hj, _, hchannel'⟩ := hplace hs hop
    obtain rfl : i = j := Nat.succ.inj (hchannel.unique hchannel')
    exact (List.getElem?_eq_some_iff.mp hj).2.symm
  · intro place s hs hop
    obtain ⟨i, _, hlt, hchannel⟩ := hplace hs hop
    refine ⟨i + 1, Nat.le_add_left 1 i, hlt, fun m => ⟨fun hm => hm.unique hchannel, ?_⟩⟩
    rintro rfl
    exact hchannel
  · intro c e he
    exact congrArg channelCount (c.run_allOrNothing.eq_of_error (Prod.ext he rfl))
  · intro c hc
    refine Call.run_leaves_channels (fun id o ho => ?_) p
    rw [← Bool.not_eq_true]
    exact fun hcollective => hc id o ho (OpKind.hasCapability_collective.mp hcollective)

/-- A collective that is refused between two others leaves no gap. -/
example :
    let calls : List Call := [.function "main" [.of (.real .f32) [2]],
      .append 0 (.collectiveBroadcast ⟨0, 0⟩ [[0, 1]]),
      .append 0 (.collectiveBroadcast ⟨0, 7⟩ [[0, 1]]),
      .append 0 (.collectivePermute ⟨0, 1⟩ [(0, 1)])]
    (Program.empty "example").collectivePlaces calls = [⟨0, 0⟩, ⟨0, 1⟩] ∧
      (Program.ofCalls "example" calls).channelCount = 2 := by
  decide

end Program

end TensorProgram
