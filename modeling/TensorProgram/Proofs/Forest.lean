import TensorProgram.Proofs.Calls
import TensorProgram.Proofs.Effects

/-!
# The forest of closures

Functions form a forest: a closure comes after its parent and has the same root.  Once a
closure is consumed, one statement of its parent refers to it and no other statement does.
`Program.Forest` holds these facts on the `Function.Node`s, the parts of functions that
make up the forest, and `ofCalls_forest` says that calls keep them.
-/

namespace TensorProgram

/-- The closure that a statement refers to. -/
def Statement.closureId? (s : Statement) : Option FunctionId :=
  s.closure?.map ClosureUse.function

/-- The closures that the statements of a function refer to. -/
def Function.uses (f : Function) : List FunctionId :=
  f.statements.filterMap Statement.closureId?

/-- The parts of a function that make up the forest. -/
structure Function.Node where
  role : Role
  uses : List FunctionId
  returned : Bool
  consumed : Bool

def Function.node (f : Function) : Function.Node where
  role := f.role
  uses := f.uses
  returned := f.isReturned
  consumed := f.consumed

/-- The node at `j` after a new statement in the function `id`, which may refer to a
closure and may end the function. -/
def Function.Node.addStatement (id j : FunctionId) (closureId? : Option FunctionId)
    (returned : Bool) (m : Function.Node) : Function.Node :=
  { m with
    uses := if id = j then m.uses ++ closureId?.toList else m.uses
    returned := if id = j then returned else m.returned
    consumed := m.consumed || closureId? == some j }

namespace Program

def node? (p : Program) (id : FunctionId) : Option Function.Node :=
  (p.function? id).map Function.node

/-- Closures come after their parents in the same tree, and a consumed closure has exactly
one use, which is in its parent. -/
structure Forest (p : Program) : Prop where
  parent_lt : ∀ {c n parent root}, p.node? c = some n → n.role = .closure parent root → parent < c
  root_eq : ∀ {c n parent root}, p.node? c = some n → n.role = .closure parent root →
    root = p.root parent
  used : ∀ {id n c}, p.node? id = some n → c ∈ n.uses → ∃ m root, p.node? c = some m ∧
    m.role = .closure id root ∧ m.returned = true ∧ m.consumed = true
  nodup : ∀ {id n}, p.node? id = some n → n.uses.Nodup
  consumed : ∀ {c m}, p.node? c = some m → m.consumed = true → ∃ id root n,
    m.role = .closure id root ∧ p.node? id = some n ∧ c ∈ n.uses

variable {p q : Program}

theorem node?_of_function? {id : FunctionId} {f : Function} (hf : p.function? id = some f) :
    p.node? id = some f.node := by
  rw [node?, hf, Option.map_some]

theorem lt_of_node? {id : FunctionId} {n : Function.Node} (h : p.node? id = some n) :
    id < p.functions.length := by
  obtain ⟨f, hf, _⟩ := Option.map_eq_some_iff.mp h
  exact lt_of_function? hf

theorem root_eq_of_node (h : ∀ j, q.node? j = p.node? j) (j : FunctionId) :
    q.root j = p.root j := by
  apply root_eq_of_role
  have hj := congrArg (Option.map Function.Node.role) (h j)
  simpa [node?, Function.comp_def, Function.node] using hj

/-- Nodes are all that a forest is about. -/
theorem Forest.congr (hp : p.Forest) (h : ∀ j, q.node? j = p.node? j) : q.Forest where
  parent_lt hc := hp.parent_lt (by rwa [h] at hc)
  root_eq hc hrole := by
    rw [root_eq_of_node h]
    exact hp.root_eq (by rwa [h] at hc) hrole
  used hid hc := by
    rw [h] at hid
    simpa only [h] using hp.used hid hc
  nodup hid := hp.nodup (by rwa [h] at hid)
  consumed hc hm := by
    rw [h] at hc
    simpa only [h] using hp.consumed hc hm

theorem forest_empty (name : String) : (Program.empty name).Forest := by
  constructor <;> intros <;> contradiction

/-! ## A new function -/

section NewFunction

variable {role : Role} (hq : ∀ j, q.function? j =
  if j = p.functions.length then some (.ofRole role) else p.function? j)

include hq

theorem node?_of_newFunction (j : FunctionId) :
    q.node? j = if j = p.functions.length then some ⟨role, [], false, false⟩ else p.node? j := by
  rw [node?, hq]
  split_ifs <;> rfl

theorem root_of_newFunction {j : FunctionId} (hj : j ≠ p.functions.length) :
    q.root j = p.root j :=
  root_eq_of_role (by rw [hq, if_neg hj])

theorem Forest.newFunction (hp : p.Forest) (hrole : p.NewRole role) : q.Forest := by
  have hnode := node?_of_newFunction hq
  have hold {j n} (h : p.node? j = some n) : q.node? j = some n := by
    rw [hnode, if_neg (Nat.ne_of_lt (lt_of_node? h)), h]
  constructor
  case parent_lt =>
    intro c n parent root hc hparent
    rw [hnode] at hc
    split_ifs at hc with hlast
    · obtain rfl : _ = n := by simpa using hc
      cases hrole with
      | topLevel name => cases hparent
      | closure hf hopen =>
        cases hparent
        rw [hlast]
        exact lt_of_function? hf
    · exact hp.parent_lt hc hparent
  case root_eq =>
    intro c n parent root hc hparent
    rw [hnode] at hc
    split_ifs at hc with hlast
    · obtain rfl : _ = n := by simpa using hc
      cases hrole with
      | topLevel name => cases hparent
      | closure hf hopen =>
        cases hparent
        exact (root_of_newFunction hq (Nat.ne_of_lt (lt_of_function? hf))).symm
    · have hlt := Nat.lt_trans (hp.parent_lt hc hparent) (lt_of_node? hc)
      rw [root_of_newFunction hq (Nat.ne_of_lt hlt)]
      exact hp.root_eq hc hparent
  case used =>
    intro id n c hid hc
    rw [hnode] at hid
    split_ifs at hid
    · obtain rfl : _ = n := by simpa using hid
      cases hc
    · obtain ⟨m, root, hm, hmrole, hreturned, hconsumed⟩ := hp.used hid hc
      exact ⟨m, root, hold hm, hmrole, hreturned, hconsumed⟩
  case nodup =>
    intro id n hid
    rw [hnode] at hid
    split_ifs at hid
    · obtain rfl : _ = n := by simpa using hid
      exact List.nodup_nil
    · exact hp.nodup hid
  case consumed =>
    intro c m hc hm
    rw [hnode] at hc
    split_ifs at hc
    · obtain rfl : _ = m := by simpa using hc
      cases hm
    · obtain ⟨id, root, n, hmrole, hid, hn⟩ := hp.consumed hc hm
      exact ⟨id, root, n, hmrole, hold hid, hn⟩

end NewFunction

/-! ## A new statement -/

section NewStatement

variable {id : FunctionId} {closureId? : Option FunctionId} {returned : Bool}

theorem mem_uses_addStatement {j c : FunctionId} {m : Function.Node} :
    c ∈ (m.addStatement id j closureId? returned).uses ↔
      c ∈ m.uses ∨ id = j ∧ closureId? = some c := by
  unfold Function.Node.addStatement
  split_ifs with h
  · simp [h]
  · simp [h]

theorem consumed_addStatement {j : FunctionId} {m : Function.Node} :
    (m.addStatement id j closureId? returned).consumed = true ↔
      m.consumed = true ∨ closureId? = some j := by
  simp [Function.Node.addStatement]

theorem returned_addStatement {j : FunctionId} {m : Function.Node} (h : id ≠ j) :
    (m.addStatement id j closureId? returned).returned = m.returned :=
  if_neg h

variable {n : Function.Node} (hp : p.Forest) (hid : p.node? id = some n)
  (hopen : n.returned = false)
  (hclosure : ∀ c, closureId? = some c → ∃ m root, p.node? c = some m ∧
    m.role = .closure id root ∧ m.returned = true ∧ m.consumed = false)

include hid hopen

/-- A function that has returned is not the one that the statement is added to. -/
theorem ne_of_returned {c : FunctionId} {m : Function.Node} (hc : p.node? c = some m)
    (hreturned : m.returned = true) : id ≠ c := by
  rintro rfl
  obtain rfl : n = m := by simpa [hid] using hc
  simp [hopen] at hreturned

include hp hclosure

/-- What a function uses after the statement is returned and consumed after the statement. -/
theorem used_addStatement {j c : FunctionId} {m : Function.Node} (hm : p.node? j = some m)
    (hc : c ∈ (m.addStatement id j closureId? returned).uses) :
    ∃ k root, p.node? c = some k ∧ k.role = .closure j root ∧
      (k.addStatement id c closureId? returned).returned = true ∧
      (k.addStatement id c closureId? returned).consumed = true := by
  rcases mem_uses_addStatement.mp hc with hold | ⟨rfl, hnew⟩
  · obtain ⟨k, root, hk, hrole, hreturned, hconsumed⟩ := hp.used hm hold
    refine ⟨k, root, hk, hrole, ?_, consumed_addStatement.mpr (.inl hconsumed)⟩
    rw [returned_addStatement (ne_of_returned hid hopen hk hreturned), hreturned]
  · obtain ⟨k, root, hk, hrole, hreturned, _⟩ := hclosure c hnew
    refine ⟨k, root, hk, hrole, ?_, consumed_addStatement.mpr (.inr hnew)⟩
    rw [returned_addStatement (ne_of_returned hid hopen hk hreturned), hreturned]

omit hid hopen in
/-- The new use is of a closure that no statement has used. -/
theorem nodup_addStatement {j : FunctionId} {m : Function.Node} (hm : p.node? j = some m) :
    (m.addStatement id j closureId? returned).uses.Nodup := by
  unfold Function.Node.addStatement
  split_ifs
  · rw [List.nodup_append]
    refine ⟨hp.nodup hm, by cases closureId? <;> simp, ?_⟩
    rintro c hc d hd rfl
    have hnew : closureId? = some c := by simpa using hd
    obtain ⟨k, _, hk, _, _, hconsumed⟩ := hp.used hm hc
    obtain ⟨k', _, hk', _, _, hunused⟩ := hclosure c hnew
    obtain rfl : k = k' := by simpa [hk] using hk'
    simp [hconsumed] at hunused
  · show m.uses.Nodup
    exact hp.nodup hm

/-- A statement that refers to a ready closure is recorded, and the closure is consumed. -/
theorem Forest.newStatement (hq : ∀ j, q.node? j =
    (p.node? j).map (·.addStatement id j closureId? returned)) : q.Forest := by
  have hnode {j m} (hm : p.node? j = some m) :
      q.node? j = some (m.addStatement id j closureId? returned) := by
    rw [hq, hm, Option.map_some]
  have hroot (j) : q.root j = p.root j := by
    apply root_eq_of_role
    have hj := congrArg (Option.map Function.Node.role) (hq j)
    simpa [node?, Function.comp_def, Function.node, Function.Node.addStatement] using hj
  constructor
  case parent_lt =>
    intro c m' parent root hc hparent
    rw [hq] at hc
    obtain ⟨m, hm, rfl⟩ := Option.map_eq_some_iff.mp hc
    exact hp.parent_lt hm hparent
  case root_eq =>
    intro c m' parent root hc hparent
    rw [hq] at hc
    obtain ⟨m, hm, rfl⟩ := Option.map_eq_some_iff.mp hc
    rw [hroot]
    exact hp.root_eq hm hparent
  case used =>
    intro j m' c hj hc
    rw [hq] at hj
    obtain ⟨m, hm, rfl⟩ := Option.map_eq_some_iff.mp hj
    obtain ⟨k, root, hk, hrole, hreturned, hconsumed⟩ :=
      used_addStatement hp hid hopen hclosure hm hc
    exact ⟨_, root, hnode hk, hrole, hreturned, hconsumed⟩
  case nodup =>
    intro j m' hj
    rw [hq] at hj
    obtain ⟨m, hm, rfl⟩ := Option.map_eq_some_iff.mp hj
    exact nodup_addStatement hp hclosure hm
  case consumed =>
    intro c m' hc hconsumed
    rw [hq] at hc
    obtain ⟨m, hm, rfl⟩ := Option.map_eq_some_iff.mp hc
    rcases consumed_addStatement.mp hconsumed with hold | hnew
    · obtain ⟨j, root, k, hrole, hk, hc⟩ := hp.consumed hm hold
      exact ⟨j, root, _, hrole, hnode hk, mem_uses_addStatement.mpr (.inl hc)⟩
    · obtain ⟨m', root, hm', hrole, _⟩ := hclosure c hnew
      obtain rfl : m = m' := by simpa [hm] using hm'
      exact ⟨id, root, _, hrole, hnode hid, mem_uses_addStatement.mpr (.inr ⟨rfl, hnew⟩)⟩

end NewStatement

/-! ## All programs -/

theorem isClosure_of_closure {f : Function} {parent root : FunctionId}
    (h : f.role = .closure parent root) : f.isClosure = true := by
  simp [Function.isClosure, Function.parent?, h]

theorem isClosure_of_topLevel {f : Function} {name : String} (h : f.role = .topLevel name) :
    f.isClosure = false := by
  simp [Function.isClosure, Function.parent?, h]

theorem role_eq_of_parent? {f : Function} {id : FunctionId} (h : f.parent? = some id) :
    ∃ root, f.role = .closure id root := by
  unfold Function.parent? at h
  cases hrole : f.role with
  | topLevel name => simp [hrole] at h
  | closure parent root => exact ⟨root, by simpa [hrole] using h⟩

/-- The node of a function that takes a statement. -/
theorem node_addStatement (id j : FunctionId) (s : Statement) (returned? : Option (List Output))
    (values : List ValueData) (scope : Scope) (g : Function) :
    Function.node { g with
      values := values
      statements := if id = j then g.statements ++ [s] else g.statements
      returned? := if id = j then returned? else g.returned?
      consumed := g.consumed || s.closure?.any (·.function == j)
      scope := scope } = g.node.addStatement id j s.closureId? returned?.isSome := by
  have huses : [s].filterMap Statement.closureId? = s.closureId?.toList := by
    cases h : s.closureId? <;> simp [h]
  have hconsumed : (s.closure?.any fun use => use.function == j) = (s.closureId? == some j) := by
    cases h : s.closure? <;> simp [Statement.closureId?, h]
  unfold Function.node Function.Node.addStatement Function.uses Function.isReturned
  split_ifs with h
  · simp [huses, hconsumed]
  · simp [hconsumed]

theorem Step.forest (h : Step p q) (hp : p.Forest) : q.Forest := by
  cases h.effect with
  | unchanged hq => exact hp.congr fun j => by rw [node?, node?, hq]
  | function hrole hq => exact hp.newFunction hq hrole
  | input hf hopen hname hq =>
    refine hp.congr fun j => ?_
    rw [node?, hq, node?, Option.map_map]
    rfl
  | @statement id f s shapes hf hopen hs returned? hq =>
    have hid : p.node? id = some f.node := node?_of_function? hf
    have hopen : f.node.returned = false := by simp [Function.node, Function.isReturned, hopen]
    have hclosure : ∀ c, s.closureId? = some c → ∃ m root, p.node? c = some m ∧
        m.role = .closure id root ∧ m.returned = true ∧ m.consumed = false := by
      intro c hc
      obtain ⟨use, huse, rfl⟩ := Option.map_eq_some_iff.mp hc
      obtain ⟨g, hg, hparent, hreturned, hconsumed⟩ := hs.closure use huse
      obtain ⟨root, hrole⟩ := role_eq_of_parent? hparent
      exact ⟨g.node, root, node?_of_function? hg, hrole, hreturned, hconsumed⟩
    have hnode : ∀ j, q.node? j =
        (p.node? j).map (·.addStatement id j s.closureId? returned?.isSome) := by
      intro j
      rw [node?, hq, node?, Option.map_map, Option.map_map]
      congr 1
      funext g
      exact node_addStatement id j s returned? _ _ g
    exact Forest.newStatement hp hid hopen hclosure hnode

theorem Steps.forest (h : Steps p q) (hp : p.Forest) : q.Forest := by
  induction h with
  | refl => exact hp
  | tail _ hstep ih => exact hstep.forest ih

theorem ofCalls_forest (name : String) (calls : List Call) : (Program.ofCalls name calls).Forest :=
  ofCalls_induction forest_empty (fun _ _ hp hstep => hstep.forest hp) name calls

/-! ## Roots -/

theorem root_of_topLevel {id : FunctionId} {n : Function.Node} (hn : p.node? id = some n)
    {name : String} (hrole : n.role = .topLevel name) : p.root id = id := by
  obtain ⟨f, hf, rfl⟩ := Option.map_eq_some_iff.mp hn
  have hrole : f.role = .topLevel name := hrole
  simp [root, hf, hrole]

theorem root_of_closure {id parent root : FunctionId} {n : Function.Node}
    (hn : p.node? id = some n) (hrole : n.role = .closure parent root) : p.root id = root := by
  obtain ⟨f, hf, rfl⟩ := Option.map_eq_some_iff.mp hn
  have hrole : f.role = .closure parent root := hrole
  simp [Program.root, hf, hrole]

theorem exists_node?_of_lt {id : FunctionId} (h : id < p.functions.length) :
    ∃ n, p.node? id = some n := by
  obtain ⟨f, hf⟩ := exists_function?_of_lt h
  exact ⟨f.node, node?_of_function? hf⟩

/-- The root of a function is a top-level function. -/
theorem Forest.exists_root (hp : p.Forest) {id : FunctionId} {n : Function.Node}
    (hn : p.node? id = some n) :
    ∃ r name, p.node? (p.root id) = some r ∧ r.role = .topLevel name := by
  induction id using Nat.strongRecOn generalizing n with
  | ind id ih =>
    cases hrole : n.role with
    | topLevel name => exact ⟨n, name, by rw [root_of_topLevel hn hrole, hn], hrole⟩
    | closure parent root =>
      have hlt := hp.parent_lt hn hrole
      obtain ⟨m, hm⟩ := exists_node?_of_lt (Nat.lt_trans hlt (lt_of_node? hn))
      rw [root_of_closure hn hrole, hp.root_eq hn hrole]
      exact ih parent hlt hm

end Program

end TensorProgram
