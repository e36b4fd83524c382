import TensorProgram.Proofs.Rendered

/-!
# Closures belong to one statement

`Program.Uses` says that a statement, found by its function and its position there, refers
to a closure.  A closure is consumed when exactly one statement of the whole program does,
and that statement stands in the parent of the closure: `Forest.consumed_iff`.
`closures_owned` puts this together with the shape of the forest and with what it means for
the text of a program.
-/

namespace TensorProgram

namespace Program

/-- The statement at a position of a function refers to a closure. -/
def Uses (p : Program) (id : FunctionId) (position : Nat) (c : FunctionId) : Prop :=
  ∃ f s use, p.function? id = some f ∧ f.statements[position]? = some s ∧
    s.closure? = some use ∧ use.function = c

variable {p : Program}

theorem Uses.closureId? {id c : FunctionId} {position : Nat} (h : p.Uses id position c) :
    ∃ s, (p.body id)[position]? = some s ∧ s.closureId? = some c := by
  obtain ⟨f, s, use, hf, hs, huse, rfl⟩ := h
  exact ⟨s, by simpa [body, hf] using hs, by rw [Statement.closureId?, huse, Option.map_some]⟩

theorem mem_usesOf_iff {id c : FunctionId} :
    c ∈ p.usesOf id ↔ ∃ position, p.Uses id position c := by
  constructor
  · intro hc
    obtain ⟨s, hs, hsc⟩ := List.mem_filterMap.mp hc
    obtain ⟨f, hf, hs⟩ := exists_function?_of_mem_body hs
    obtain ⟨position, hs⟩ := List.mem_iff_getElem?.mp hs
    obtain ⟨use, huse, rfl⟩ := Option.map_eq_some_iff.mp hsc
    exact ⟨position, f, s, use, hf, hs, huse, rfl⟩
  · rintro ⟨position, h⟩
    obtain ⟨s, hs, hsc⟩ := h.closureId?
    exact List.mem_filterMap.mpr ⟨s, List.mem_of_getElem? hs, hsc⟩

/-- No two statements of a function refer to the same closure. -/
theorem Forest.uses_unique (hp : p.Forest) {id c : FunctionId} {i j : Nat}
    (hi : p.Uses id i c) (hj : p.Uses id j c) : i = j := by
  obtain ⟨s, hs, hsc⟩ := hi.closureId?
  obtain ⟨t, ht, htc⟩ := hj.closureId?
  have hpairwise := List.pairwise_iff_getElem.mp (List.pairwise_filterMap.mp (hp.nodup_usesOf id))
  obtain ⟨hi, hs⟩ := List.getElem?_eq_some_iff.mp hs
  obtain ⟨hj, ht⟩ := List.getElem?_eq_some_iff.mp ht
  subst hs ht
  rcases Nat.lt_trichotomy i j with hlt | heq | hgt
  · exact absurd rfl (hpairwise i j hi hj hlt c hsc c htc)
  · exact heq
  · exact absurd rfl (hpairwise j i hj hi hgt c htc c hsc)

/-- A closure is consumed when it has returned and exactly one statement refers to it, which
stands in its parent. -/
theorem Forest.consumed_iff (hp : p.Forest) {c parent root : FunctionId} {f : Function}
    (hf : p.function? c = some f) (hrole : f.role = .closure parent root) :
    f.consumed = true ↔ f.isReturned = true ∧ ∃ position, p.Uses parent position c ∧
      ∀ id i, p.Uses id i c → id = parent ∧ i = position := by
  have hn : p.node? c = some f.node := node?_of_function? hf
  constructor
  · intro hconsumed
    obtain ⟨id, root', n, hrole', hid, hc⟩ := hp.consumed hn hconsumed
    rw [← usesOf_eq hid] at hc
    obtain rfl : id = parent := eq_parent_of_mem_usesOf hp hn hrole hc
    obtain ⟨m, _, hm, _, hreturned, _⟩ := hp.node?_of_mem_usesOf hc
    obtain rfl : f.node = m := by simpa [hn] using hm
    obtain ⟨position, huse⟩ := mem_usesOf_iff.mp hc
    refine ⟨hreturned, position, huse, fun id' i hi => ?_⟩
    obtain rfl := eq_parent_of_mem_usesOf hp hn hrole (mem_usesOf_iff.mpr ⟨i, hi⟩)
    exact ⟨rfl, hp.uses_unique hi huse⟩
  · rintro ⟨_, position, huse, _⟩
    obtain ⟨m, _, hm, _, _, hconsumed⟩ :=
      hp.node?_of_mem_usesOf (mem_usesOf_iff.mpr ⟨position, huse⟩)
    obtain rfl : f.node = m := by simpa [hn] using hm
    exact hconsumed

/-- A closure that is not consumed hangs on no chain of uses. -/
theorem Forest.not_attached (hp : p.Forest) {c : FunctionId} {f : Function}
    (hf : p.function? c = some f) (hclosure : f.isClosure = true) (hconsumed : f.consumed = false) :
    ¬ p.Attached c := by
  have hn : p.node? c = some f.node := node?_of_function? hf
  intro h
  cases h with
  | topLevel hg htop =>
    obtain rfl := by simpa [hf] using hg
    simp [hclosure] at htop
  | closure huse _ =>
    obtain ⟨m, _, hm, _, _, hm'⟩ := hp.node?_of_mem_usesOf huse
    obtain rfl : f.node = m := by simpa [hn] using hm
    simp [show f.consumed = true from hm'] at hconsumed

/-- Closures of programs that calls lead to.  A closure comes after its parent, in the same
tree, and it is consumed when exactly one statement refers to it.  Rendering needs no bound
to come to an end.  The lines of a program are written in a walk over its top-level functions, which
enters a closure, and so starts its block, once if a chain of uses leads to the closure and never
otherwise. -/
theorem closures_owned [NarrowConversions] (name : String) (calls : List Call) :
    let p := Program.ofCalls name calls
    (∀ c f parent root, p.function? c = some f → f.role = .closure parent root →
      (parent < c ∧ p.root c = p.root parent) ∧
      (f.consumed = true ↔ f.isReturned = true ∧ ∃ position, p.Uses parent position c ∧
        ∀ id i, p.Uses id i c → id = parent ∧ i = position) ∧
      p.rendered.count c ≤ 1 ∧ (p.rendered.count c = 1 ↔ p.Attached c) ∧
      (f.consumed = false → p.rendered.count c = 0)) ∧
    (∀ id s depth, s ∈ p.body id → p.statementLines depth s =
      p.statementLinesWith (p.statementLines (depth + 1)) depth s) ∧
    (∀ f, p.functionLines f = ⟨1, p.functionHeader (f.name?.getD "") f⟩ ::
      (p.functionWalk f).flatMap p.visitLines ++ [⟨1, "\x7d"⟩]) ∧
    (p.lines = ⟨0, p.header⟩ :: p.meshes.map (fun mesh => ⟨1, mesh.declaration⟩) ++
      p.topLevel.flatMap (fun (_, f) => ⟨1, p.functionHeader (f.name?.getD "") f⟩ ::
        (p.functionWalk f).flatMap p.visitLines ++ [⟨1, "\x7d"⟩]) ++ [⟨0, "\x7d"⟩] ∧
      p.rendered = (p.topLevel.flatMap fun (_, f) => p.functionWalk f).filterMap Visit.entered?) ∧
    ∀ depth s use c, p.function? use.function = some c →
      (Visit.enter depth s use).entered? = some use.function ∧
      p.visitLines (.enter depth s use) =
        [⟨depth, p.statementHead s ++ " (\x7b"⟩, ⟨depth, p.blockLabel use.label c.inputs⟩] := by
  intro p
  have hp : p.Forest := ofCalls_forest name calls
  refine ⟨?_, ?_, p.functionLines_eq, ⟨p.lines_eq, rfl⟩,
    fun depth s use c hc => ⟨rfl, visitLines_enter hc⟩⟩
  · intro c f parent root hf hrole
    have hn : p.node? c = some f.node := node?_of_function? hf
    have hclosure : f.isClosure = true := isClosure_of_closure hrole
    obtain ⟨hattached, hdetached⟩ := hp.count_rendered hf hclosure
    have hroot : p.root c = p.root parent := by
      rw [root_of_closure hn hrole, hp.root_eq hn hrole]
    refine ⟨⟨hp.parent_lt hn hrole, hroot⟩, hp.consumed_iff hf hrole, ?_, ?_, ?_⟩
    · by_cases h : p.Attached c
      · exact Nat.le_of_eq (hattached h)
      · rw [hdetached h]
        exact Nat.zero_le 1
    · refine ⟨fun hcount => ?_, hattached⟩
      by_contra h
      rw [hdetached h] at hcount
      cases hcount
    · exact fun hconsumed => hdetached (hp.not_attached hf hclosure hconsumed)
  · intro id s depth hs
    rw [← hp.statementLinesUpTo_eq hs depth (Nat.le_succ _)]
    rfl

end Program

end TensorProgram
