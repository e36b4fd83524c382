import Mathlib.Data.List.Perm.Basic
import TensorProgram.Proofs.Walk

/-!
# How often a closure is rendered

`Program.rendered` lists the closures whose blocks are written when the top-level functions
of a program are.  Each of them is written because a statement of a function that is written
refers to it, which makes `rendered` the uses of all functions that are written:
`rendered_perm`.  In a forest it follows that a closure is written once when a chain of uses
leads from a top-level function to it, and never otherwise: `count_rendered`.
-/

namespace TensorProgram

namespace Program

open scoped List

/-- The closures that the statements of a function refer to. -/
def usesOf (p : Program) (id : FunctionId) : List FunctionId :=
  (p.body id).filterMap Statement.closureId?

/-- The closures that are entered in the walk over the statements of a function. -/
def entered (p : Program) (nesting depth : Nat) (id : FunctionId) : List FunctionId :=
  ((p.body id).flatMap (p.walkUpTo nesting depth)).filterMap Visit.entered?

/-- The closures that are entered when all top-level functions are written. -/
def rendered (p : Program) : List FunctionId :=
  (p.topLevel.flatMap fun (_, f) => p.functionWalk f).filterMap Visit.entered?

variable {p : Program}

/-! ## What a walk enters -/

theorem entered_eq_nil {id : FunctionId} (h : p.usesOf id = []) (nesting depth : Nat) :
    p.entered nesting depth id = [] := by
  have hplain : ∀ s ∈ p.body id, p.walkUpTo nesting depth s = [.plain depth s] := by
    intro s hs
    refine walkUpTo_of_none ?_ nesting depth
    simpa [Statement.closureId?] using List.filterMap_eq_nil_iff.mp h s hs
  rw [entered, List.flatMap_congr hplain, List.filterMap_flatMap]
  simp [Visit.entered?]

/-- Each closure is entered before the closures that its own statements refer to. -/
theorem entered_succ (nesting depth : Nat) (id : FunctionId) :
    p.entered (nesting + 1) depth id =
      (p.usesOf id).flatMap fun c => c :: p.entered nesting (depth + 1) c := by
  unfold entered usesOf
  induction p.body id with
  | nil => rfl
  | cons s statements ih =>
    rw [List.flatMap_cons, List.filterMap_append, ih]
    cases huse : s.closure? with
    | none => simp [walkUpTo_of_none huse, Statement.closureId?, huse, Visit.entered?]
    | some use =>
      simp [walkUpTo_succ_of_some huse, Statement.closureId?, huse, Visit.entered?]

theorem lt_of_mem_usesOf (hp : p.Forest) {id c : Nat} (hc : c ∈ p.usesOf id) :
    id < c ∧ c < p.functions.length := by
  obtain ⟨s, hs, hsc⟩ := List.mem_filterMap.mp hc
  obtain ⟨use, huse, rfl⟩ := Option.map_eq_some_iff.mp hsc
  exact hp.lt_of_mem_body hs huse

/-- What a walk enters are the uses of the function and of all that is entered. -/
theorem entered_perm (hp : p.Forest) {nesting : Nat} (depth : Nat) {id : Nat}
    (h : p.functions.length ≤ id + 1 + nesting) :
    p.entered nesting depth id ~ (id :: p.entered nesting depth id).flatMap p.usesOf := by
  induction nesting generalizing depth id with
  | zero =>
    have hnil : p.usesOf id = [] := by
      refine List.eq_nil_iff_forall_not_mem.mpr fun c hc => ?_
      have := lt_of_mem_usesOf hp hc
      omega
    rw [entered_eq_nil hnil]
    simp [hnil]
  | succ nesting ih =>
    let nested := p.entered nesting (depth + 1)
    have hnested : ∀ c ∈ p.usesOf id, nested c ~ (c :: nested c).flatMap p.usesOf := by
      intro c hc
      have := lt_of_mem_usesOf hp hc
      exact ih (depth + 1) (by omega)
    rw [entered_succ, List.flatMap_cons, List.flatMap_assoc]
    calc (p.usesOf id).flatMap (fun c => c :: nested c)
      _ ~ p.usesOf id ++ (p.usesOf id).flatMap nested := by
        simpa using (List.map_append_flatMap_perm (p.usesOf id) (fun c => c) nested).symm
      _ ~ p.usesOf id ++ (p.usesOf id).flatMap fun c => (c :: nested c).flatMap p.usesOf :=
        (List.Perm.flatMap_left _ hnested).append_left _

/-! ## What is rendered -/

theorem mem_topLevel {id : FunctionId} {f : Function} :
    (id, f) ∈ p.topLevel ↔ p.function? id = some f ∧ f.isClosure = false := by
  simp only [topLevel, List.mem_map, List.mem_filter, Prod.exists, Prod.swap_prod_mk,
    Prod.mk.injEq, List.mem_zipIdx_iff_getElem?, function?]
  constructor
  · rintro ⟨g, j, ⟨hg, hopen⟩, rfl, rfl⟩
    exact ⟨hg, by simpa using hopen⟩
  · rintro ⟨hf, hopen⟩
    exact ⟨f, id, ⟨hf, by simpa using hopen⟩, rfl, rfl⟩

/-- The positions of the top-level functions. -/
theorem mem_topLevel_fst {id : FunctionId} :
    id ∈ p.topLevel.map Prod.fst ↔ ∃ f, p.function? id = some f ∧ f.isClosure = false := by
  simp only [List.mem_map, Prod.exists, exists_and_right, exists_eq_right, mem_topLevel]

theorem sorted_topLevel (p : Program) : (p.topLevel.map Prod.fst).Pairwise (· < ·) := by
  have hsub : (p.topLevel.map Prod.fst).Sublist (p.functions.zipIdx.map Prod.snd) := by
    rw [topLevel, List.map_map]
    exact List.filter_sublist.map Prod.snd
  refine List.Pairwise.sublist hsub ?_
  rw [List.zipIdx_map_snd]
  exact List.pairwise_lt_range'

theorem nodup_topLevel (p : Program) : (p.topLevel.map Prod.fst).Nodup :=
  p.sorted_topLevel.imp Nat.ne_of_lt

theorem not_mem_topLevel {id : FunctionId} {f : Function} (hf : p.function? id = some f)
    (hclosure : f.isClosure = true) : id ∉ p.topLevel.map Prod.fst := by
  intro hmem
  obtain ⟨⟨_, g⟩, hg, rfl⟩ := List.mem_map.mp hmem
  obtain ⟨hg, htop⟩ := mem_topLevel.mp hg
  obtain rfl : f = g := by simpa [hf] using hg
  simp [hclosure] at htop

theorem rendered_eq (p : Program) :
    p.rendered = (p.topLevel.map Prod.fst).flatMap (p.entered p.functions.length 2) := by
  rw [rendered, List.filterMap_flatMap, List.flatMap_map]
  refine List.flatMap_congr ?_
  rintro ⟨id, f⟩ hf
  obtain ⟨hf, _⟩ := mem_topLevel.mp hf
  simp only [functionWalk, entered, body, hf, Option.map_some, Option.getD_some]
  rfl

/-- Everything that is written is a top-level function or used by something that is. -/
theorem rendered_perm (hp : p.Forest) :
    p.rendered ~ (p.topLevel.map Prod.fst ++ p.rendered).flatMap p.usesOf := by
  let tops := p.topLevel.map Prod.fst
  let nested := p.entered p.functions.length 2
  rw [rendered_eq, List.flatMap_append, List.flatMap_assoc]
  calc tops.flatMap nested
    _ ~ tops.flatMap fun id => (id :: nested id).flatMap p.usesOf :=
      List.Perm.flatMap_left _ fun id _ => entered_perm hp 2 (by omega)
    _ ~ tops.flatMap p.usesOf ++ tops.flatMap fun id => (nested id).flatMap p.usesOf := by
      simpa using
        (List.flatMap_append_perm tops p.usesOf fun id => (nested id).flatMap p.usesOf).symm

/-! ## How often -/

/-- A chain of uses leads from a top-level function to the function. -/
inductive Attached (p : Program) : FunctionId → Prop
  | topLevel {id : FunctionId} {f : Function} (hf : p.function? id = some f)
      (htop : f.isClosure = false) : Attached p id
  | closure {id c : FunctionId} (huse : c ∈ p.usesOf id) (hid : Attached p id) : Attached p c

theorem usesOf_eq {id : FunctionId} {n : Function.Node} (hn : p.node? id = some n) :
    p.usesOf id = n.uses := by
  obtain ⟨f, hf, rfl⟩ := Option.map_eq_some_iff.mp hn
  simp [usesOf, body, hf, Function.node, Function.uses]

/-- A function that is used is a closure of the function that uses it, and consumed. -/
theorem Forest.node?_of_mem_usesOf (hp : p.Forest) {id c : FunctionId} (hc : c ∈ p.usesOf id) :
    ∃ m root, p.node? c = some m ∧ m.role = .closure id root ∧ m.returned = true ∧
      m.consumed = true := by
  obtain ⟨s, hs, _⟩ := List.mem_filterMap.mp hc
  obtain ⟨f, hf, _⟩ := exists_function?_of_mem_body hs
  have hn : p.node? id = some f.node := node?_of_function? hf
  rw [usesOf_eq hn] at hc
  exact hp.used hn hc

theorem Forest.nodup_usesOf (hp : p.Forest) (id : FunctionId) : (p.usesOf id).Nodup := by
  cases hn : p.node? id with
  | none =>
    have hf : p.function? id = none := by simpa [node?] using hn
    simp [usesOf, body, hf]
  | some n =>
    rw [usesOf_eq hn]
    exact hp.nodup hn

section Closure

variable {c parent root : FunctionId} {n : Function.Node}
  (hp : p.Forest) (hn : p.node? c = some n) (hrole : n.role = .closure parent root)

include hp hn hrole

/-- Only the parent uses a closure. -/
theorem eq_parent_of_mem_usesOf {id : FunctionId} (hc : c ∈ p.usesOf id) : id = parent := by
  obtain ⟨m, root', hm, hrole', _⟩ := hp.node?_of_mem_usesOf hc
  obtain rfl : n = m := by simpa [hn] using hm
  rw [hrole] at hrole'
  cases hrole'
  rfl

theorem attached_closure_iff : p.Attached c ↔ c ∈ p.usesOf parent ∧ p.Attached parent := by
  constructor
  · intro h
    cases h with
    | @topLevel _ f hf htop =>
      obtain rfl : f.node = n := by simpa [node?, hf] using hn
      have hrole : f.role = .closure parent root := hrole
      simp [isClosure_of_closure hrole] at htop
    | closure huse hid =>
      obtain rfl := eq_parent_of_mem_usesOf hp hn hrole huse
      exact ⟨huse, hid⟩
  · rintro ⟨huse, hid⟩
    exact .closure huse hid

/-- A closure is rendered as often as the parent that uses it is written. -/
theorem count_rendered_eq : p.rendered.count c =
    if c ∈ p.usesOf parent then (p.topLevel.map Prod.fst ++ p.rendered).count parent else 0 := by
  rw [(rendered_perm hp).count_eq]
  induction p.topLevel.map Prod.fst ++ p.rendered with
  | nil => simp
  | cons id written ih =>
    rw [List.flatMap_cons, List.count_append, ih, List.count_cons]
    by_cases hid : id = parent
    · subst hid
      by_cases hc : c ∈ p.usesOf id
      · simp [hc, (hp.nodup_usesOf id).count, Nat.add_comm]
      · simp [hc, List.count_eq_zero_of_not_mem hc]
    · have hc : c ∉ p.usesOf id := fun hc => hid (eq_parent_of_mem_usesOf hp hn hrole hc)
      simp [hid, List.count_eq_zero_of_not_mem hc]

end Closure

theorem Forest.not_mem_rendered (hp : p.Forest) {id : FunctionId} {n : Function.Node}
    (hn : p.node? id = some n) {name : String} (hrole : n.role = .topLevel name) :
    id ∉ p.rendered := by
  intro hmem
  obtain ⟨parent, _, huse⟩ := List.mem_flatMap.mp ((rendered_perm hp).mem_iff.mp hmem)
  obtain ⟨m, root, hm, hrole', _⟩ := hp.node?_of_mem_usesOf huse
  obtain rfl : n = m := by simpa [hn] using hm
  rw [hrole] at hrole'
  cases hrole'

/-- Whether a function is written is a matter of its chain of uses. -/
theorem Forest.count_written (hp : p.Forest) {id : Nat} (hid : id < p.functions.length) :
    (p.Attached id → (p.topLevel.map Prod.fst ++ p.rendered).count id = 1) ∧
      (¬ p.Attached id → (p.topLevel.map Prod.fst ++ p.rendered).count id = 0) := by
  induction id using Nat.strongRecOn with
  | ind id ih =>
    obtain ⟨n, hn⟩ := exists_node?_of_lt hid
    obtain ⟨f, hf, rfl⟩ := Option.map_eq_some_iff.mp hn
    simp only [List.count_append] at ih ⊢
    cases hrole : f.role with
    | topLevel name =>
      have htop : f.isClosure = false := isClosure_of_topLevel hrole
      have hmem : id ∈ p.topLevel.map Prod.fst :=
        List.mem_map.mpr ⟨(id, f), mem_topLevel.mpr ⟨hf, htop⟩, rfl⟩
      have hattached : p.Attached id := .topLevel hf htop
      have hcount := (p.nodup_topLevel.count (a := id)).trans (if_pos hmem)
      rw [hcount, List.count_eq_zero_of_not_mem (hp.not_mem_rendered hn hrole)]
      simp [hattached]
    | closure parent root =>
      have hclosure : f.isClosure = true := isClosure_of_closure hrole
      have htop := not_mem_topLevel hf hclosure
      have hlt := hp.parent_lt hn hrole
      obtain ⟨hattached, hdetached⟩ := ih parent hlt (Nat.lt_trans hlt hid)
      rw [List.count_eq_zero_of_not_mem htop, count_rendered_eq hp hn hrole,
        attached_closure_iff hp hn hrole, List.count_append]
      by_cases huse : id ∈ p.usesOf parent
      · simp only [huse, if_true, true_and, Nat.zero_add]
        exact ⟨hattached, hdetached⟩
      · simp [huse]

/-- A closure is rendered once when a chain of uses leads to it, and otherwise never. -/
theorem Forest.count_rendered (hp : p.Forest) {c : FunctionId} {f : Function}
    (hf : p.function? c = some f) (hclosure : f.isClosure = true) :
    (p.Attached c → p.rendered.count c = 1) ∧ (¬ p.Attached c → p.rendered.count c = 0) := by
  have htop := not_mem_topLevel hf hclosure
  have hcount := hp.count_written (lt_of_function? hf)
  rwa [List.count_append, List.count_eq_zero_of_not_mem htop, Nat.zero_add] at hcount

/-- Of two closures the one that is used is rendered. -/
example : sumProgram.rendered = [1] := by decide

end Program

end TensorProgram
