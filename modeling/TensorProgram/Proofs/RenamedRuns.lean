import TensorProgram.Proofs.Growth
import TensorProgram.Proofs.RenamedChecks

/-!
# Runs under a renaming

The same builder is run on one tree of functions in two programs.  `Builder.InStep` says that
both runs succeed, with results that are the same under the renaming, or that both fail for the
same reason, and that the tree is the same in both programs afterwards.  Runs in step can be
put one after the other, `InStep.bind`, so that it is enough to look at each kind of change
once: an input, a statement, a return, and a new closure.

All the while nothing outside the tree changes in the second program: `Program.Confined`.
-/

namespace TensorProgram

namespace Program

/-- The program has grown, with the same name, the same distribution and the same top-level
functions. -/
structure KeepsFrame (p q : Program) : Prop where
  name : q.name = p.name
  distribution : q.distribution? = p.distribution?
  grown : p.Extends q
  topLevel : ∀ {id f}, q.function? id = some f → f.isClosure = false →
    ∃ g, p.function? id = some g

/-- The changes from one program to the other are in the tree of a top-level function. -/
structure Confined (top : FunctionId) (p q : Program) : Prop where
  frame : p.KeepsFrame q
  outside : ∀ {id f}, p.function? id = some f → p.root id ≠ top → q.function? id = some f

variable {p q p' q' : Program} {top id : FunctionId} {ρ : FunctionId → FunctionId} {f : Function}

theorem Extends.isClosure_eq {g : Function} (h : p.Extends q) (hf : p.function? id = some f)
    (hg : q.function? id = some g) : g.isClosure = f.isClosure := by
  obtain ⟨g', hg', hfg⟩ := h id f hf
  obtain rfl : g = g' := by simpa [hg] using hg'
  rw [Function.isClosure, Function.parent?, hfg.role, Function.isClosure, Function.parent?]

theorem distribution_addStatement (p : Program) (id : FunctionId) (op : OpKind)
    (inputs : List Value) (attributes : List (String × Attribute)) (closure? : Option ClosureUse)
    (shapes : List Shape) :
    (p.addStatement id op inputs attributes closure? shapes).2.distribution? =
      p.distribution? := by
  cases closure? <;> rfl

theorem name_addStatement (p : Program) (id : FunctionId) (op : OpKind)
    (inputs : List Value) (attributes : List (String × Attribute)) (closure? : Option ClosureUse)
    (shapes : List Shape) :
    (p.addStatement id op inputs attributes closure? shapes).2.name = p.name := by
  cases closure? <;> rfl

section WithOperation

variable (p : Program) (id : FunctionId) (o : Operation Value FunctionId)
  (shaped : Operation Shape Inference.Signature) (outputs : List Shape)

theorem distribution_withOperation :
    (p.withOperation id o shaped outputs).distribution? = p.distribution? :=
  distribution_addStatement (p.withChannel o.isCollective) id _ _ _ _ _

theorem name_withOperation : (p.withOperation id o shaped outputs).name = p.name :=
  name_addStatement (p.withChannel o.isCollective) id _ _ _ _ _

end WithOperation

section WithReturn

variable (p : Program) (id : FunctionId) (values : List Value) (outputs : List Output)

theorem distribution_withReturn :
    (p.withReturn id values outputs).distribution? = p.distribution? :=
  distribution_addStatement p id (Builder.returnKind p id) values [] none []

theorem name_withReturn : (p.withReturn id values outputs).name = p.name :=
  name_addStatement p id (Builder.returnKind p id) values [] none []

theorem function?_withReturn (hf : p.function? id = some f) (j : FunctionId) :
    (p.withReturn id values outputs).function? j = (p.function? j).map fun g =>
      { g with
        statements :=
          if id = j then
            g.statements ++ [newStatement id f.values (Builder.returnKind p id) values [] none []]
          else g.statements
        returned? := if id = j then some outputs else g.returned? } :=
  function?_markReturned hf (Builder.returnKind p id) values outputs j

end WithReturn

theorem KeepsFrame.refl (p : Program) : p.KeepsFrame p where
  name := rfl
  distribution := rfl
  grown := .refl p
  topLevel hf _ := ⟨_, hf⟩

theorem KeepsFrame.trans {r : Program} (hpq : p.KeepsFrame q) (hqr : q.KeepsFrame r) :
    p.KeepsFrame r where
  name := hqr.name.trans hpq.name
  distribution := hqr.distribution.trans hpq.distribution
  grown := hpq.grown.trans hqr.grown
  topLevel hf htop := by
    obtain ⟨g, hg⟩ := hqr.topLevel hf htop
    exact hpq.topLevel hg ((hqr.grown.isClosure_eq hg hf).symm.trans htop)

namespace Confined

theorem refl (top : FunctionId) (p : Program) : p.Confined top p where
  frame := .refl p
  outside hf _ := hf

theorem trans {r : Program} (hpq : p.Confined top q) (hqr : q.Confined top r) :
    p.Confined top r where
  frame := hpq.frame.trans hqr.frame
  outside hf hroot := by
    refine hqr.outside (hpq.outside hf hroot) ?_
    rwa [hpq.frame.grown.root_eq hf]

/-- Functions are changed one by one, and none outside of the tree. -/
theorem of_map {change : FunctionId → Function → Function} (hname : q.name = p.name)
    (hdistribution : q.distribution? = p.distribution?) (hgrown : p.Extends q)
    (hq : ∀ j, q.function? j = (p.function? j).map (change j))
    (houtside : ∀ j g, p.function? j = some g → p.root j ≠ top → change j g = g) :
    p.Confined top q where
  frame := by
    refine ⟨hname, hdistribution, hgrown, fun {j g} hg _ => ?_⟩
    rw [hq] at hg
    obtain ⟨g, hg, _⟩ := Option.map_eq_some_iff.mp hg
    exact ⟨g, hg⟩
  outside {j g} hg hroot := by
    rw [hq, hg, Option.map_some, houtside j g hg hroot]

end Confined

theorem Member.mono (hid : p.Member top id) (h : p.Extends q) : q.Member top id := by
  obtain ⟨⟨f, hf⟩, hroot⟩ := hid
  obtain ⟨g, hg, _⟩ := h id f hf
  exact ⟨⟨g, hg⟩, (h.root_eq hf).trans hroot⟩

namespace Renamed

/-- A change elsewhere leaves the tree in the second program as it is. -/
theorem confined {other : FunctionId} (h : p.Renamed top ρ q) (hq : q.Confined other q')
    (hne : top ≠ other) : p.Renamed top ρ q' where
  forest := h.forest
  wellScoped := h.wellScoped
  topLevel := h.topLevel
  top_eq := h.top_eq
  function {j g} hg hroot := by
    refine hq.outside (h.function hg hroot) ?_
    rwa [h.root ⟨⟨g, hg⟩, hroot⟩]
  injective := h.injective
  distribution := hq.frame.distribution.trans h.distribution

/-- A program is the same as itself in all its trees. -/
theorem self (hforest : p.Forest) (hscoped : p.WellScoped) (hf : p.function? top = some f)
    (htop : f.isClosure = false) : p.Renamed top (fun j => j) p where
  forest := hforest
  wellScoped := hscoped
  topLevel := by
    cases hrole : f.role with
    | topLevel name => exact ⟨f, name, hf, hrole⟩
    | closure parent root => simp [isClosure_of_closure hrole] at htop
  top_eq := rfl
  function {j g} hg _ := by rw [hg, g.rename_id]
  injective _ _ hij := hij
  distribution := rfl

/-- Functions are changed one by one, in the same way in both programs. -/
theorem of_map (h : p.Renamed top ρ q) (hsteps : Steps p p')
    {change : FunctionId → Function → Function}
    (hp : ∀ j, p'.function? j = (p.function? j).map (change j))
    (hrole : ∀ j g, (change j g).role = g.role)
    (hq : ∀ j g, p.function? j = some g → p.root j = top →
      q'.function? (ρ j) = some ((change j g).rename ρ))
    (hdistribution : q'.distribution? = p'.distribution?) : p'.Renamed top ρ q' := by
  have hroot := root_of_map hp hrole
  have hmember {j : FunctionId} (hj : p'.Member top j) : p.Member top j := by
    obtain ⟨⟨g, hg⟩, hj⟩ := hj
    rw [hp] at hg
    obtain ⟨g, hg, _⟩ := Option.map_eq_some_iff.mp hg
    exact ⟨⟨g, hg⟩, by rw [← hroot, hj]⟩
  constructor
  case forest => exact hsteps.forest h.forest
  case wellScoped => exact hsteps.wellScoped h.wellScoped
  case topLevel =>
    obtain ⟨g, name, hg, hname⟩ := h.topLevel
    exact ⟨change top g, name, by rw [hp, hg, Option.map_some], (hrole top g).trans hname⟩
  case top_eq => exact h.top_eq
  case function =>
    intro j g hg hj
    rw [hp] at hg
    obtain ⟨g, hg', rfl⟩ := Option.map_eq_some_iff.mp hg
    exact hq j g hg' (by rw [← hroot, hj])
  case injective => exact fun hi hj => h.injective (hmember hi) (hmember hj)
  case distribution => exact hdistribution

/-! ## Inputs -/

section Input

variable (h : p.Renamed top ρ q) (hf : p.function? id = some f) (hroot : p.root id = top)
  (data : ValueData)

include h hf hroot

theorem withInput (hsteps : Steps p (p.withInput id data)) :
    (p.withInput id data).Renamed top ρ (q.withInput (ρ id) data) := by
  have hid : p.Member top id := ⟨⟨f, hf⟩, hroot⟩
  refine h.of_map hsteps (function?_withInput data hf) (fun _ _ => rfl) (fun j g hg hj => ?_)
    h.distribution
  have hmember : p.Member top j := ⟨⟨g, hg⟩, hj⟩
  rw [function?_withInput data (h.function hf hroot), h.function hg hj, Option.map_some, h.root hid,
    hroot]
  have htop : top = ρ j ↔ top = j := by
    rw [← h.eq_iff h.member_top hmember, h.top_eq]
  simp only [h.eq_iff hid hmember, htop]
  congr 1
  by_cases hij : id = j
  · simp [hij, Function.rename, Value.rename]
  · simp [hij, Function.rename]

theorem confined_withInput (hsteps : Steps q (q.withInput (ρ id) data)) :
    q.Confined top (q.withInput (ρ id) data) := by
  have hid := h.root ⟨⟨f, hf⟩, hroot⟩
  refine .of_map rfl rfl hsteps.extends (function?_withInput data (h.function hf hroot))
    fun j g hg hj => ?_
  have hne : ρ id ≠ j := by
    rintro rfl
    exact hj hid
  have htop : top ≠ j := by
    rintro rfl
    exact hj h.root_top
  simp [hid, hne, htop]

end Input

/-! ## Statements -/

section Statement

variable (h : p.Renamed top ρ q) (hf : p.function? id = some f) (hroot : p.root id = top)
  {o : Operation Value FunctionId} (hcollective : o.isCollective = false)
  (hcomputation : ∀ label c, o.computation? = some (label, c) → p.Member top c)
  (shaped : Operation Shape Inference.Signature) (outputs : List Shape)

include h

/-- A closure of the tree is consumed by the statement in both programs, or in none. -/
theorem any_closureUse? {j : FunctionId} (hj : p.Member top j)
    (hcomputation : ∀ label c, o.computation? = some (label, c) → p.Member top c) :
    (o.rename ρ).closureUse?.any (·.function == ρ j) = o.closureUse?.any (·.function == j) := by
  rw [Operation.closureUse?_rename, Operation.closureUse?]
  cases hc : o.computation? with
  | none => rfl
  | some entry =>
    obtain ⟨label, c⟩ := entry
    rw [Bool.eq_iff_iff]
    simp only [Option.map_some, Option.any_some, ClosureUse.rename, beq_iff_eq]
    exact h.eq_iff (hcomputation label c hc) hj

include hf hroot hcomputation

include hcollective in
theorem withOperation (hsteps : Steps p (p.withOperation id o shaped outputs)) :
    (p.withOperation id o shaped outputs).Renamed top ρ
      (q.withOperation (ρ id) (o.rename ρ) shaped outputs) := by
  have hid : p.Member top id := ⟨⟨f, hf⟩, hroot⟩
  have hcollective' : (o.rename ρ).isCollective = false :=
    (Operation.isCollective_map _ _ o).trans hcollective
  refine h.of_map hsteps (function?_withOperation hf o shaped outputs) (fun _ _ => rfl)
    (fun j g hg hj => ?_) ?_
  · have hmember : p.Member top j := ⟨⟨g, hg⟩, hj⟩
    rw [function?_withOperation (h.function hf hroot), h.function hg hj, Option.map_some,
      h.root hid, hroot, h.scope hid, h.any_closureUse? hmember hcomputation]
    have htop : top = ρ j ↔ top = j := by
      rw [← h.eq_iff h.member_top hmember, h.top_eq]
    have hstatement : newStatement (ρ id) f.values (o.rename ρ).kind (o.rename ρ).operands
        ((shaped.explicit outputs).attributes ++ q.channelAttributes (o.rename ρ).isCollective)
        (o.rename ρ).closureUse? outputs = (newStatement id f.values o.kind o.operands
          ((shaped.explicit outputs).attributes ++ p.channelAttributes o.isCollective)
          o.closureUse? outputs).rename ρ := by
      have hchannel : q.channelAttributes false = p.channelAttributes false := by
        rw [channelAttributes, if_neg Bool.false_ne_true, channelAttributes,
          if_neg Bool.false_ne_true]
      rw [newStatement_rename, Operation.closureUse?_rename, hcollective, hcollective', hchannel,
        Operation.rename, Operation.kind_map, Operation.operands_map]
    simp only [h.eq_iff hid hmember, htop, Function.rename, hstatement]
    congr 1
    by_cases hij : id = j
    · simp only [hij, if_true, List.map_append, List.map_singleton]
    · simp only [hij, if_false]
  · rw [distribution_withOperation, distribution_withOperation, h.distribution]

theorem confined_withOperation
    (hsteps : Steps q (q.withOperation (ρ id) (o.rename ρ) shaped outputs)) :
    q.Confined top (q.withOperation (ρ id) (o.rename ρ) shaped outputs) := by
  have hid : p.Member top id := ⟨⟨f, hf⟩, hroot⟩
  refine .of_map (name_withOperation q _ _ _ _) (distribution_withOperation q _ _ _ _)
    hsteps.extends (function?_withOperation (h.function hf hroot) _ shaped outputs)
    fun j g hg hj => ?_
  have hne : ρ id ≠ j := by
    rintro rfl
    exact hj (h.root hid)
  have htop : top ≠ j := by
    rintro rfl
    exact hj h.root_top
  have hunused : (o.rename ρ).closureUse?.any (·.function == j) = false := by
    rw [Operation.closureUse?_rename, Operation.closureUse?]
    cases hc : o.computation? with
    | none => rfl
    | some entry =>
      obtain ⟨label, c⟩ := entry
      refine beq_false_of_ne ?_
      rintro rfl
      exact hj (h.root (hcomputation label c hc))
  simp [h.root hid, hne, htop, hunused]

end Statement

/-! ## Returns -/

section Return

variable (h : p.Renamed top ρ q) (hf : p.function? id = some f) (hroot : p.root id = top)
  (values : List Value) (outputs : List Output)

include h hf hroot

theorem withReturn (hsteps : Steps p (p.withReturn id values outputs)) :
    (p.withReturn id values outputs).Renamed top ρ
      (q.withReturn (ρ id) (values.map (Value.rename ρ)) outputs) := by
  have hid : p.Member top id := ⟨⟨f, hf⟩, hroot⟩
  have hdistribution : (q.withReturn (ρ id) (values.map (Value.rename ρ)) outputs).distribution? =
      (p.withReturn id values outputs).distribution? := by
    rw [distribution_withReturn, distribution_withReturn, h.distribution]
  refine h.of_map hsteps (function?_withReturn p id values outputs hf) (fun _ _ => rfl)
    (fun j g hg hj => ?_) hdistribution
  have hmember : p.Member top j := ⟨⟨g, hg⟩, hj⟩
  have hq := h.function hf hroot
  have hkind : Builder.returnKind q (ρ id) = Builder.returnKind p id := by
    simp only [Builder.returnKind, hf, hq, Option.any_some, Function.isClosure_rename]
  have hstatement : newStatement (ρ id) f.values (Builder.returnKind p id)
      (values.map (Value.rename ρ)) [] none [] =
        (newStatement id f.values (Builder.returnKind p id) values [] none []).rename ρ := by
    rw [newStatement_rename]
    rfl
  rw [function?_withReturn q _ _ outputs hq, h.function hg hj, Option.map_some, hkind]
  simp only [h.eq_iff hid hmember, Function.rename, hstatement]
  congr 1
  by_cases hij : id = j
  · simp only [hij, if_true, List.map_append, List.map_singleton]
  · simp only [hij, if_false]

theorem confined_withReturn
    (hsteps : Steps q (q.withReturn (ρ id) (values.map (Value.rename ρ)) outputs)) :
    q.Confined top (q.withReturn (ρ id) (values.map (Value.rename ρ)) outputs) := by
  refine .of_map (name_withReturn q _ _ _) (distribution_withReturn q _ _ _) hsteps.extends
    (function?_withReturn q _ _ outputs (h.function hf hroot)) fun j g hg hj => ?_
  have hne : ρ id ≠ j := by
    rintro rfl
    exact hj (h.root ⟨⟨f, hf⟩, hroot⟩)
  simp [hne]

end Return

/-! ## Closures -/

section Closure

variable (h : p.Renamed top ρ q) (hid : p.Member top id)

include h hid

/-- A new closure, when the renaming already has its place. -/
theorem addFunction (hρ : ρ p.functions.length = q.functions.length)
    (hsteps : Steps p (p.addFunction (.closure id (p.root id))).2) :
    (p.addFunction (.closure id (p.root id))).2.Renamed top ρ
      (q.addFunction (.closure (ρ id) (q.root (ρ id)))).2 := by
  have hp := function?_addFunction p (.closure id (p.root id))
  have hq := function?_addFunction q (.closure (ρ id) (q.root (ρ id)))
  -- the closure is the only new member
  have hmember {j : FunctionId} (hj : (p.addFunction (.closure id (p.root id))).2.Member top j)
      (hne : j ≠ p.functions.length) : p.Member top j := by
    obtain ⟨⟨g, hg⟩, hj⟩ := hj
    rw [hp, if_neg hne] at hg
    exact ⟨⟨g, hg⟩, by rw [← hj, root_of_newFunction hp hne]⟩
  have hlt {j : FunctionId} (hj : p.Member top j) : ρ j < q.functions.length := by
    obtain ⟨⟨g, hg⟩, hj⟩ := hj
    exact lt_of_function? (h.function hg hj)
  constructor
  case forest => exact hsteps.forest h.forest
  case wellScoped => exact hsteps.wellScoped h.wellScoped
  case topLevel =>
    obtain ⟨g, name, hg, hrole⟩ := h.topLevel
    exact ⟨g, name, by rw [hp, if_neg (Nat.ne_of_lt (lt_of_function? hg)), hg], hrole⟩
  case top_eq => exact h.top_eq
  case function =>
    intro j g hg hj
    by_cases hnew : j = p.functions.length
    · subst hnew
      rw [hp, if_pos rfl, Option.some.injEq] at hg
      rw [hq, hρ, if_pos rfl, ← hg, h.root hid, hid.2]
      simp only [Function.rename, Function.ofRole, Role.rename, h.top_eq, List.map_nil]
    · have hj := hmember ⟨⟨g, hg⟩, hj⟩ hnew
      rw [hp, if_neg hnew] at hg
      rw [hq, if_neg (Nat.ne_of_lt (hlt hj)), h.function hg hj.2]
  case injective =>
    intro i j hi hj hij
    by_cases hi' : i = p.functions.length
    · by_cases hj' : j = p.functions.length
      · rw [hi', hj']
      · rw [hi', hρ] at hij
        exact absurd hij.symm (Nat.ne_of_lt (hlt (hmember hj hj')))
    · by_cases hj' : j = p.functions.length
      · rw [hj', hρ] at hij
        exact absurd hij (Nat.ne_of_lt (hlt (hmember hi hi')))
      · exact h.injective (hmember hi hi') (hmember hj hj') hij
  case distribution => exact h.distribution

omit h hid in
theorem confined_addFunction (top parent root : FunctionId) :
    q.Confined top (q.addFunction (.closure parent root)).2 := by
  have hq := function?_addFunction q (.closure parent root)
  have hold {j : FunctionId} {g : Function} (hg : q.function? j = some g) :
      (q.addFunction (.closure parent root)).2.function? j = some g := by
    rw [hq, if_neg (Nat.ne_of_lt (lt_of_function? hg)), hg]
  refine ⟨⟨rfl, rfl, fun j g hg => ⟨g, hold hg, .refl g⟩, fun {j g} hg htop => ?_⟩,
    fun hg _ => hold hg⟩
  rw [hq] at hg
  split_ifs at hg
  · obtain rfl := Option.some.inj hg
    cases htop
  · exact ⟨g, hg⟩

end Closure

end Renamed

end Program

namespace Builder

open Program

/-! ## Runs in step -/

/-- The two runs succeed and leave the same tree, with results that are related in the first
program, or they fail for the same reason. -/
inductive InStep {α β : Type} (top : FunctionId) (ρ : FunctionId → FunctionId) (b : Builder α)
    (b' : Builder β) (R : Program → α → β → Prop) (p q : Program) : Prop
  | ok {a : α} {a' : β} {p' q' : Program} (hrun : b.run p = (.ok a, p'))
      (hrun' : b'.run q = (.ok a', q')) (hR : R p' a a') (hrenamed : p'.Renamed top ρ q')
      (hgrown : p.Extends p') (hconfined : q.Confined top q')
  | error {e e' : BuildError} {p' q' : Program} (hrun : b.run p = (.error e, p'))
      (hrun' : b'.run q = (.error e', q')) (he : e.anonymous = e'.anonymous)

section InStep

variable {α β α' β' : Type} {top id : FunctionId} {ρ : FunctionId → FunctionId} {p q : Program}
  {b : Builder α} {b' : Builder β} {R : Program → α → β → Prop} {S : Program → α' → β' → Prop}
  {next : α → Builder α'} {next' : β → Builder β'}

theorem InStep.bind (h : InStep top ρ b b' R p q)
    (hnext : ∀ a a' p' q', b.run p = (.ok a, p') → b'.run q = (.ok a', q') → R p' a a' →
      p'.Renamed top ρ q' → p.Extends p' → InStep top ρ (next a) (next' a') S p' q') :
    InStep top ρ (b >>= next) (b' >>= next') S p q := by
  cases h with
  | error hrun hrun' he => exact .error (run_bind_error hrun) (run_bind_error hrun') he
  | ok hrun hrun' hR hrenamed hgrown hconfined =>
    cases hnext _ _ _ _ hrun hrun' hR hrenamed hgrown with
    | error hnext hnext' he =>
      exact .error ((run_bind_ok hrun).trans hnext) ((run_bind_ok hrun').trans hnext') he
    | ok hnext hnext' hS hrenamed' hgrown' hconfined' =>
      exact .ok ((run_bind_ok hrun).trans hnext) ((run_bind_ok hrun').trans hnext') hS hrenamed'
        (hgrown.trans hgrown') (hconfined.trans hconfined')

theorem inStep_pure (h : p.Renamed top ρ q) {a : α} {a' : β} (hR : R p a a') :
    InStep top ρ (pure a) (pure a') R p q :=
  .ok rfl rfl hR h (.refl p) (.refl top q)

theorem inStep_check (h : p.Renamed top ρ q) {question : Program → Except BuildError α}
    {question' : Program → Except BuildError β}
    (hc : Corresponds (R p) (question p) (question' q)) :
    InStep top ρ (check question) (check question') R p q := by
  rcases hc.ok_or_error with ⟨a, a', ha, ha', hR⟩ | ⟨e, e', he, he', hee⟩
  · exact .ok (by rw [run_check, ha]) (by rw [run_check, ha']) hR h (.refl p) (.refl top q)
  · exact .error (by rw [run_check, he]) (by rw [run_check, he']) hee

/-- When the first check fails, both runs end there. -/
theorem inStep_of_check {question : Program → Except BuildError α}
    {question' : Program → Except BuildError β} {Q : α → β → Prop}
    (hc : Corresponds Q (question p) (question' q))
    (hok : ∀ a a', question p = .ok a → question' q = .ok a' → Q a a' →
      InStep top ρ (check question >>= next) (check question' >>= next') S p q) :
    InStep top ρ (check question >>= next) (check question' >>= next') S p q := by
  rcases hc.ok_or_error with ⟨a, a', ha, ha', hQ⟩ | ⟨e, e', he, he', hee⟩
  · exact hok a a' ha ha' hQ
  · exact .error (run_bind_error (by rw [run_check, he]))
      (run_bind_error (by rw [run_check, he'])) hee

/-- What follows a check has to deal with what the check has found. -/
theorem inStep_check_bind {question : Program → Except BuildError α}
    {question' : Program → Except BuildError β} {Q : α → β → Prop}
    (hc : Corresponds Q (question p) (question' q))
    (hnext : ∀ a a', question p = .ok a → question' q = .ok a' → Q a a' →
      InStep top ρ (next a) (next' a') S p q) :
    InStep top ρ (check question >>= next) (check question' >>= next') S p q := by
  refine inStep_of_check hc fun a a' ha ha' hQ => ?_
  have hcheck : (check question).run p = (.ok a, p) := by rw [run_check, ha]
  have hcheck' : (check question').run q = (.ok a', q) := by rw [run_check, ha']
  cases hnext a a' ha ha' hQ with
  | ok hrun hrun' hS hrenamed hgrown hconfined =>
    exact .ok ((run_bind_ok hcheck).trans hrun) ((run_bind_ok hcheck').trans hrun') hS hrenamed
      hgrown hconfined
  | error hrun hrun' he =>
    exact .error ((run_bind_ok hcheck).trans hrun) ((run_bind_ok hcheck').trans hrun') he

/-- A value of a function and the same value under the renaming. -/
def SameValue (id : FunctionId) (ρ : FunctionId → FunctionId) (v v' : Value) : Prop :=
  v.function = id ∧ v' = v.rename ρ

/-- Values of a function and the same values under the renaming. -/
def SameValues (id : FunctionId) (ρ : FunctionId → FunctionId) (values values' : List Value) :
    Prop :=
  (∀ v ∈ values, v.function = id) ∧ values' = values.map (Value.rename ρ)

/-- The runs put out a value of the function and go on in the function. -/
theorem InStep.bind_value {b b' : Builder Value} {next : Value → Builder α'}
    {next' : Value → Builder β'} (h : InStep top ρ b b' (fun _ => SameValue id ρ) p q)
    (hid : p.Member top id)
    (hnext : ∀ v p' q', b.run p = (.ok v, p') → b'.run q = (.ok (v.rename ρ), q') →
      v.function = id → p'.Renamed top ρ q' → p'.Member top id →
      InStep top ρ (next v) (next' (v.rename ρ)) S p' q') :
    InStep top ρ (b >>= next) (b' >>= next') S p q := by
  refine h.bind fun v v' p' q' hrun hrun' hv h hgrown => ?_
  obtain ⟨hv, rfl⟩ := hv
  exact hnext v p' q' hrun hrun' hv h (hid.mono hgrown)

variable (h : p.Renamed top ρ q) (hid : p.Member top id)

include h hid

/-! ## Inputs in step -/

/-- An input that both functions can take. -/
theorem inStep_withInput (data : ValueData) {b b' : Builder Value} {f : Function}
    (hf : p.function? id = some f) (hopen : f.returned? = none)
    (hname : InputName p id data.name) (hname' : InputName q (ρ id) data.name)
    (hsharding : ∀ s, data.sharding? = some s → p.checkSharding s data.shape = .ok ())
    (hrun : b.run p = (.ok ⟨id, f.values.length⟩, p.withInput id data))
    (hrun' : b'.run q = (.ok ⟨ρ id, f.values.length⟩, q.withInput (ρ id) data)) :
    InStep top ρ b b' (fun _ => SameValue id ρ) p q := by
  have hsteps : Steps p (p.withInput id data) := .single (.input hf hopen hname hsharding)
  have hsteps' : Steps q (q.withInput (ρ id) data) :=
    .single (.input (h.function hf hid.2) hopen hname' (by rwa [h.checkSharding]))
  exact .ok hrun hrun' ⟨rfl, rfl⟩ (h.withInput hf hid.2 data hsteps) hsteps.extends
    (h.confined_withInput hf hid.2 data hsteps')

theorem input_inStep (shape : Shape) :
    InStep top ρ (input id shape) (input (ρ id) shape) (fun _ => SameValue id ρ) p q := by
  refine inStep_of_check (h.openFunction hid) fun f _ hp _ _ => ?_
  obtain ⟨hf, hopen⟩ := openFunction_eq_ok.mp hp
  have hrun' := (input_succeeds (h.function hf hid.2) hopen shape).1
  rw [h.scope hid] at hrun'
  exact inStep_withInput h hid ⟨.argument (p.scope id).freeArgument, shape, none⟩ hf hopen
    .positional (h.scope hid ▸ .positional) (by simp) (input_succeeds hf hopen shape).1 hrun'

theorem namedInput_inStep (name : String) (shape : Shape) :
    InStep top ρ (namedInput id name shape) (namedInput (ρ id) name shape)
      (fun _ => SameValue id ρ) p q := by
  refine inStep_check_bind (h.openFunction hid) fun f _ hp hq hfg => ?_
  obtain ⟨_, rfl⟩ := hfg
  refine inStep_check_bind (.of_eq (h.newInputName hid name).symm)
    fun name' _ hname hname' heq => ?_
  subst heq
  obtain ⟨hf, hopen⟩ := openFunction_eq_ok.mp hp
  have hrun := (namedInput_succeeds hf hopen hname shape).1
  have hrun' := (namedInput_succeeds (h.function hf hid.2) hopen hname' shape).1
  rw [namedInput, run_bind_ok (succeeds_check hp).1, run_bind_ok (succeeds_check hname).1] at hrun
  rw [namedInput, run_bind_ok (succeeds_check hq).1, run_bind_ok (succeeds_check hname').1] at hrun'
  exact inStep_withInput h hid ⟨.named name', shape, none⟩ hf hopen (.named hname) (.named hname')
    (by simp) hrun hrun'

theorem inputWithSharding_inStep (shape : Shape) (sharding : Sharding) :
    InStep top ρ (inputWithSharding id shape sharding) (inputWithSharding (ρ id) shape sharding)
      (fun _ => SameValue id ρ) p q := by
  refine inStep_check_bind (h.openFunction hid) fun f _ hp hq hfg => ?_
  obtain ⟨_, rfl⟩ := hfg
  refine inStep_check_bind (.of_eq (by rw [h.checkSharding])) fun _ _ hsharding hsharding' _ => ?_
  obtain ⟨hf, hopen⟩ := openFunction_eq_ok.mp hp
  have hrun := (inputWithSharding_succeeds hf hopen hsharding).1
  have hrun' := (inputWithSharding_succeeds (h.function hf hid.2) hopen hsharding').1
  rw [inputWithSharding, run_bind_ok (succeeds_check hp).1,
    run_bind_ok (succeeds_check hsharding).1] at hrun
  rw [inputWithSharding, run_bind_ok (succeeds_check hq).1,
    run_bind_ok (succeeds_check hsharding').1, h.scope hid] at hrun'
  refine inStep_withInput h hid ⟨.argument (p.scope id).freeArgument, shape, some sharding⟩ hf hopen
    .positional (h.scope hid ▸ .positional) ?_ hrun hrun'
  intro s hs
  obtain rfl : sharding = s := Option.some.inj hs
  exact hsharding

/-! ## Statements in step -/

theorem append_inStep {o : Operation Value FunctionId} (hcollective : o.isCollective = false)
    (hoperands : ∀ v ∈ o.operands, p.Member top v.function)
    (hcomputation : ∀ label c, o.computation? = some (label, c) → p.Member top c) :
    InStep top ρ (append id o) (append (ρ id) (o.rename ρ)) (fun _ => SameValues id ρ) p q := by
  refine inStep_of_check (h.resolve hid hoperands hcomputation) fun resolved _ hp hq heq => ?_
  obtain ⟨shaped, outputs⟩ := resolved
  subst heq
  obtain ⟨f, hf⟩ := hid.1
  have hf' := h.function hf hid.2
  by_cases hopen : f.returned? = none
  · have hrun := append_succeeds hf hopen hp
    have hrun' := append_succeeds hf' hopen hq
    refine .ok hrun.1 hrun'.1 ⟨?_, ?_⟩
      (h.withOperation hf hid.2 hcollective hcomputation shaped outputs hrun.2) hrun.2.extends
      (h.confined_withOperation hf hid.2 hcomputation shaped outputs hrun'.2)
    · exact fun v hv => (mem_consecutiveValues.mp hv).1
    · exact (consecutiveValues_rename ρ id _ _).symm
  · exact .error (run_append_of_returned hf hopen hp) (run_append_of_returned hf' hopen hq) rfl

omit h hid in
/-- An output in both lists, or in none. -/
theorem output_corresponds {values values' : List Value} (hvalues : SameValues id ρ values values')
    (position : Nat) : Corresponds (SameValue id ρ)
      ((Inference.entry values position).mapError searchError)
      ((Inference.entry values' position).mapError searchError) := by
  obtain ⟨hfunction, rfl⟩ := hvalues
  unfold Inference.entry
  rw [List.getElem?_map, List.length_map]
  cases hv : values[position]? with
  | none => exact .error rfl
  | some v => exact .ok ⟨hfunction v (List.mem_of_getElem? hv), rfl⟩

theorem appendSingle_inStep {o : Operation Value FunctionId} (hcollective : o.isCollective = false)
    (hoperands : ∀ v ∈ o.operands, p.Member top v.function)
    (hcomputation : ∀ label c, o.computation? = some (label, c) → p.Member top c) :
    InStep top ρ (appendSingle id o) (appendSingle (ρ id) (o.rename ρ))
      (fun _ => SameValue id ρ) p q :=
  (append_inStep h hid hcollective hoperands hcomputation).bind
    fun _ _ _ _ _ _ hvalues h' _ => inStep_check h' (output_corresponds hvalues 0)

theorem returnSharded_inStep {values : List Value}
    (hvalues : ∀ v ∈ values, p.Member top v.function) (shardings : List (Option Sharding)) :
    InStep top ρ (returnSharded id values shardings)
      (returnSharded (ρ id) (values.map (Value.rename ρ)) shardings) (fun _ _ _ => True) p q := by
  refine inStep_of_check (h.checkReturn hid hvalues shardings) fun outputs _ hp hq heq => ?_
  subst heq
  obtain ⟨f, _, hopen, _⟩ := checkReturn_eq_ok hp
  obtain ⟨hf, _⟩ := openFunction_eq_ok.mp hopen
  have hrun := returnSharded_succeeds hp
  have hrun' := returnSharded_succeeds hq
  exact .ok hrun.1 hrun'.1 trivial (h.withReturn hf hid.2 values outputs hrun.2) hrun.2.extends
    (h.confined_withReturn hf hid.2 values outputs hrun'.2)

theorem returnValues_inStep {values : List Value}
    (hvalues : ∀ v ∈ values, p.Member top v.function) :
    InStep top ρ (returnValues id values) (returnValues (ρ id) (values.map (Value.rename ρ)))
      (fun _ _ _ => True) p q := by
  have hnone : (values.map (Value.rename ρ)).map (fun _ => (none : Option Sharding)) =
      values.map fun _ => none := by
    rw [List.map_map]
    rfl
  rw [returnValues, returnValues, hnone]
  exact returnSharded_inStep h hid hvalues _

/-! ## Closures in step -/

omit h in
/-- A new closure is in the tree of its parent. -/
theorem member_of_closure {p' : Program} {c : FunctionId}
    (hrun : (closure id).run p = (.ok c, p')) : p'.Member top c := by
  obtain ⟨_, rfl, rfl⟩ := run_closure_eq_ok.mp hrun
  have hc := function?_addFunction p (.closure id (p.root id)) p.functions.length
  rw [if_pos rfl] at hc
  exact ⟨⟨_, hc⟩, (root_of_closure (node?_of_function? hc) rfl).trans hid.2⟩

theorem closure_inStep (hρ : ρ p.functions.length = q.functions.length) :
    InStep top ρ (closure id) (closure (ρ id))
      (fun p c c' => p.Member top c ∧ c' = ρ c) p q := by
  refine inStep_of_check (h.openFunction hid) fun f _ hp _ _ => ?_
  obtain ⟨hf, hopen⟩ := openFunction_eq_ok.mp hp
  have hrun := closure_succeeds hf hopen
  have hrun' := closure_succeeds (h.function hf hid.2) hopen
  exact .ok hrun.1 hrun'.1 ⟨member_of_closure hid hrun.1, hρ.symm⟩
    (h.addFunction hid hρ hrun.2) hrun.2.extends (Renamed.confined_addFunction top _ _)

/-! ## A search in step -/

/-- An operation on values of its own function. -/
theorem appendOwn_inStep {o : Operation Value FunctionId} (hcollective : o.isCollective = false)
    (hoperands : ∀ v ∈ o.operands, v.function = id) (hcomputation : o.computation? = none) :
    InStep top ρ (appendSingle id o) (appendSingle (ρ id) (o.rename ρ))
      (fun _ => SameValue id ρ) p q := by
  refine appendSingle_inStep h hid hcollective (fun v hv => ?_) fun label c hc => ?_
  · rw [hoperands v hv]
    exact hid
  · rw [hcomputation] at hc
    cases hc

theorem fillBetterPair_inStep (e : Extremum) (elementType positionType : ElementType) :
    InStep top ρ (fillBetterPair id e elementType positionType)
      (fillBetterPair (ρ id) e elementType positionType) (fun _ _ _ => True) p q := by
  refine (input_inStep h hid _).bind_value hid fun lhs p q _ _ hlhs h hid => ?_
  refine (input_inStep h hid _).bind_value hid fun lhsPosition p q _ _ hlhsPosition h hid => ?_
  refine (input_inStep h hid _).bind_value hid fun rhs p q _ _ hrhs h hid => ?_
  refine (input_inStep h hid _).bind_value hid fun rhsPosition p q _ _ hrhsPosition h hid => ?_
  -- all operands are inputs of the closure or results in it
  refine (appendOwn_inStep (o := .compare lhs rhs e.better none) h hid rfl
    (by simp [Operation.operands, hlhs, hrhs]) rfl).bind_value hid
    fun better p q _ _ hbetter h hid => ?_
  refine (appendOwn_inStep (o := .compare lhs rhs .equal none) h hid rfl
    (by simp [Operation.operands, hlhs, hrhs]) rfl).bind_value hid fun tie p q _ _ htie h hid => ?_
  refine (appendOwn_inStep (o := .select better lhs rhs) h hid rfl
    (by simp [Operation.operands, hbetter, hlhs, hrhs]) rfl).bind_value hid
    fun element p q _ _ helement h hid => ?_
  refine (appendOwn_inStep (o := .select better lhsPosition rhsPosition) h hid rfl
    (by simp [Operation.operands, hbetter, hlhsPosition, hrhsPosition]) rfl).bind_value hid
    fun position p q _ _ hposition h hid => ?_
  refine (appendOwn_inStep (o := .binary (.binary .minimum) lhsPosition rhsPosition) h hid rfl
    (by simp [Operation.operands, hlhsPosition, hrhsPosition]) rfl).bind_value hid
    fun smaller p q _ _ hsmaller h hid => ?_
  refine (appendOwn_inStep (o := .select tie smaller position) h hid rfl
    (by simp [Operation.operands, htie, hsmaller, hposition]) rfl).bind_value hid
    fun chosen p q _ _ hchosen h hid => ?_
  have hvalues : ∀ v ∈ [element, chosen], p.Member top v.function := by
    simpa [helement, hchosen] using hid
  exact returnValues_inStep h hid hvalues

theorem argExtremum_inStep (hρ : ρ p.functions.length = q.functions.length) (e : Extremum)
    {operand : Value} (hoperand : p.Member top operand.function) (axis : Int)
    (positionType : ElementType) :
    InStep top ρ (argExtremum id e operand axis positionType)
      (argExtremum (ρ id) e (operand.rename ρ) axis positionType)
      (fun _ => SameValue id ρ) p q := by
  refine inStep_check_bind (h.checkSearch hid e hoperand axis positionType)
    fun search _ hcheck _ hsearch => ?_
  subst hsearch
  obtain ⟨_, hshape, _⟩ := checkSearch_eq_ok hcheck
  have hown : operand.function = id := (shapeOf_eq_ok.mp hshape).1
  -- the positions and the two constants make no function, so the closure has its place
  have hlength (o : Operation Value FunctionId) {p p' : Program} {id : FunctionId} {v : Value}
      (hrun : (appendSingle id o).run p = (.ok v, p')) :
      p'.functions.length = p.functions.length :=
    (appendSingle_leaves_length id o).run_eq hrun
  refine (appendOwn_inStep (o := .iota (search.shape.withElementType positionType)
    (Inference.fromFront axis search.shape.rank)) h hid rfl (by simp [Operation.operands])
    rfl).bind_value hid fun positions p q hrun hrun' hpositions h hid => ?_
  rw [← hlength _ hrun, ← hlength _ hrun'] at hρ
  refine (appendOwn_inStep (o := .constant search.worst) h hid rfl (by simp [Operation.operands])
    rfl).bind_value hid fun worst p q hrun hrun' hworst h hid => ?_
  rw [← hlength _ hrun, ← hlength _ hrun'] at hρ
  refine (appendOwn_inStep (o := .constant search.zero) h hid rfl (by simp [Operation.operands])
    rfl).bind_value hid fun zero p q hrun hrun' hzero h hid => ?_
  rw [← hlength _ hrun, ← hlength _ hrun'] at hρ
  refine (closure_inStep h hid hρ).bind fun body _ p q _ _ hbody h hgrown => ?_
  obtain ⟨hmember, rfl⟩ := hbody
  refine (fillBetterPair_inStep h hmember e search.elementType positionType).bind
    fun _ _ p q _ _ _ h hfilled => ?_
  replace hid := hid.mono (hgrown.trans hfilled)
  replace hmember := hmember.mono hfilled
  refine (append_inStep (o := .reduce [operand, positions] [worst, zero]
    [Inference.fromFront axis search.shape.rank] body) h hid rfl ?_ ?_).bind
    fun _ _ p q _ _ houtputs h _ => inStep_check h (output_corresponds houtputs 1)
  · simp [Operation.operands, hpositions, hworst, hzero, hid, hown]
  · intro label c hc
    obtain ⟨_, rfl⟩ := Prod.mk.inj (Option.some.inj hc)
    exact hmember

end InStep

end Builder

end TensorProgram
