import TensorProgram.Proofs.Endings
import TensorProgram.Proofs.Renaming

/-!
# Checks under a renaming

`Program.Renamed` says that a top-level function of one program, with all closures in it, is
also in another program, where the functions have other names.  The checks of a builder look at
one tree of functions only, so they find the same in both programs: `Renamed.resolve`,
`Renamed.checkReturn` and `Renamed.checkSearch`.

An error may describe a closure by its position, so the same check may fail with two texts.
`BuildError.anonymous` leaves those descriptions out, and `Corresponds` compares the outcomes
of two checks up to them.
-/

namespace TensorProgram

/-! ## Outcomes of checks -/

/-- The error without descriptions of functions that may be closures. -/
def ProgramError.anonymous : ProgramError → ProgramError
  | alreadyReturned _ => alreadyReturned ""
  | valueOutOfScope value _ => valueOutOfScope value ""
  | closureNotChild _ _ => closureNotChild "" ""
  | closureNotReturned _ => closureNotReturned ""
  | closureAlreadyUsed _ => closureAlreadyUsed ""
  | e => e

def BuildError.anonymous : BuildError → BuildError
  | program e => program e.anonymous
  | e => e

/-- Both checks succeed, with results that are related, or both fail for the same reason. -/
inductive Corresponds {α β : Type} (R : α → β → Prop) :
    Except BuildError α → Except BuildError β → Prop
  | ok {a : α} {b : β} (h : R a b) : Corresponds R (.ok a) (.ok b)
  | error {e e' : BuildError} (h : e.anonymous = e'.anonymous) :
    Corresponds R (.error e) (.error e')

namespace Corresponds

variable {α β α' β' : Type} {R : α → β → Prop} {R' : α' → β' → Prop}

theorem of_eq {x y : Except BuildError α} (h : x = y) : Corresponds Eq x y := by
  subst h
  cases x with
  | error e => exact .error rfl
  | ok a => exact .ok rfl

theorem iff_mapError {x y : Except BuildError α} :
    Corresponds Eq x y ↔ x.mapError BuildError.anonymous = y.mapError BuildError.anonymous := by
  constructor
  · rintro (⟨rfl⟩ | h)
    · rfl
    · rw [Except.mapError, h, Except.mapError]
  · intro h
    cases x with
    | error e =>
      cases y with
      | error e' => exact .error (Except.error.inj h)
      | ok b => cases h
    | ok a =>
      cases y with
      | error e' => cases h
      | ok b => exact .ok (Except.ok.inj h)

theorem bind {x : Except BuildError α} {y : Except BuildError β} {f : α → Except BuildError α'}
    {g : β → Except BuildError β'} (h : Corresponds R x y)
    (hnext : ∀ a b, R a b → Corresponds R' (f a) (g b)) :
    Corresponds R' (x >>= f) (y >>= g) := by
  cases h with
  | ok h => exact hnext _ _ h
  | error h => exact .error h

theorem ok_or_error {x : Except BuildError α} {y : Except BuildError β} (h : Corresponds R x y) :
    (∃ a b, x = .ok a ∧ y = .ok b ∧ R a b) ∨
      ∃ e e', x = .error e ∧ y = .error e' ∧ e.anonymous = e'.anonymous := by
  cases h with
  | ok h => exact .inl ⟨_, _, rfl, rfl, h⟩
  | error h => exact .inr ⟨_, _, rfl, rfl, h⟩

/-- Checks of the entries of a list. -/
theorem mapM {f : α → Except BuildError β} {a : α → α'} {f' : α' → Except BuildError β}
    {xs : List α} (h : ∀ x ∈ xs, Corresponds Eq (f x) (f' (a x))) :
    Corresponds Eq (xs.mapM f) ((xs.map a).mapM f') := by
  rw [iff_mapError, List.mapM_map, mapM_mapError, mapM_mapError]
  exact mapM_congr fun x hx => iff_mapError.mp (h x hx)

/-- Both requirements hold, or neither does. -/
theorem require {condition condition' : Bool} {e e' : ProgramError}
    (h : condition = condition') (he : e.anonymous = e'.anonymous) :
    Corresponds Eq (Program.require condition e) (Program.require condition' e') := by
  subst h
  cases condition with
  | false => exact .error (congrArg BuildError.program he)
  | true => exact .ok rfl

end Corresponds

namespace Program

/-! ## A tree of functions in two programs -/

/-- The function lies in the tree of a top-level function. -/
def Member (p : Program) (top id : FunctionId) : Prop :=
  (∃ f, p.function? id = some f) ∧ p.root id = top

/-- The tree of a top-level function is in another program as well, under the renaming. -/
structure Renamed (top : FunctionId) (ρ : FunctionId → FunctionId) (p q : Program) : Prop where
  forest : p.Forest
  wellScoped : p.WellScoped
  topLevel : ∃ f name, p.function? top = some f ∧ f.role = .topLevel name
  top_eq : ρ top = top
  function : ∀ {id f}, p.function? id = some f → p.root id = top →
    q.function? (ρ id) = some (f.rename ρ)
  injective : ∀ {i j}, p.Member top i → p.Member top j → ρ i = ρ j → i = j
  distribution : q.distribution? = p.distribution?

variable {p q : Program} {top id : FunctionId} {ρ σ : FunctionId → FunctionId} {f : Function}

theorem Forest.member_parent (hp : p.Forest) (hf : p.function? id = some f)
    (hroot : p.root id = top) {parent : FunctionId} (hparent : f.parent? = some parent) :
    p.Member top parent := by
  have hn : p.node? id = some f.node := node?_of_function? hf
  obtain ⟨root, hrole⟩ := role_eq_of_parent? hparent
  refine ⟨exists_function?_of_lt (Nat.lt_trans (hp.parent_lt hn hrole) (lt_of_function? hf)), ?_⟩
  rw [← hp.root_eq hn hrole, ← root_of_closure hn hrole, hroot]

/-- The closure of a statement lies in the tree of the statement. -/
theorem Forest.member_use (hp : p.Forest) {s : Statement} (hs : s ∈ p.body id)
    (hroot : p.root id = top) {use : ClosureUse} (huse : s.closure? = some use) :
    p.Member top use.function := by
  obtain ⟨f, hf, hs⟩ := exists_function?_of_mem_body hs
  have hmem : use.function ∈ f.node.uses :=
    List.mem_filterMap.mpr ⟨s, hs, by rw [Statement.closureId?, huse, Option.map_some]⟩
  obtain ⟨m, root, hm, hrole, _⟩ := hp.used (node?_of_function? hf) hmem
  obtain ⟨c, hc, rfl⟩ := Option.map_eq_some_iff.mp hm
  exact ⟨⟨c, hc⟩, by rw [root_of_closure hm hrole, hp.root_eq hm hrole, hroot]⟩

namespace Renamed

/-- Only the new names of functions of the program matter. -/
theorem congr (h : p.Renamed top ρ q) (hρσ : ∀ j, j < p.functions.length → ρ j = σ j) :
    p.Renamed top σ q where
  forest := h.forest
  wellScoped := h.wellScoped
  topLevel := h.topLevel
  top_eq := by
    obtain ⟨f, _, hf, _⟩ := h.topLevel
    rw [← hρσ top (lt_of_function? hf), h.top_eq]
  function {id f} hf hroot := by
    rw [← hρσ id (lt_of_function? hf), h.function hf hroot,
      h.forest.rename_congr h.wellScoped hf hρσ]
  injective {i j} hi hj hij := by
    obtain ⟨_, hf⟩ := hi.1
    obtain ⟨_, hg⟩ := hj.1
    refine h.injective hi hj ?_
    rw [hρσ i (lt_of_function? hf), hρσ j (lt_of_function? hg), hij]
  distribution := h.distribution

variable (h : p.Renamed top ρ q)

include h

theorem member_top : p.Member top top := by
  obtain ⟨f, name, hf, hrole⟩ := h.topLevel
  exact ⟨⟨f, hf⟩, root_of_topLevel (node?_of_function? hf) hrole⟩

theorem root_top : q.root top = top := by
  obtain ⟨f, name, hf, hrole⟩ := h.topLevel
  have hq := h.function hf h.member_top.2
  rw [h.top_eq] at hq
  exact root_of_topLevel (node?_of_function? hq) (show f.role.rename ρ = .topLevel name by
    rw [hrole, Role.rename])

theorem root (hid : p.Member top id) : q.root (ρ id) = top := by
  obtain ⟨⟨f, hf⟩, hroot⟩ := hid
  have hq := h.function hf hroot
  cases hrole : f.role with
  | topLevel name =>
    rw [root_of_topLevel (node?_of_function? hf) hrole] at hroot
    rw [hroot, h.top_eq, h.root_top]
  | closure parent r =>
    rw [root_of_closure (node?_of_function? hf) hrole] at hroot
    have hrole' : (f.rename ρ).role = .closure (ρ parent) (ρ r) := by
      show f.role.rename ρ = _
      rw [hrole, Role.rename]
    rw [root_of_closure (node?_of_function? hq) hrole', hroot, h.top_eq]

theorem scope (hid : p.Member top id) : q.scope (ρ id) = p.scope id := by
  obtain ⟨f, _, hf, _⟩ := h.topLevel
  have hq := h.function hf h.member_top.2
  rw [h.top_eq] at hq
  rw [Program.scope, h.root hid, hq, Program.scope, hid.2, hf]
  rfl

theorem eq_iff {i j : FunctionId} (hi : p.Member top i) (hj : p.Member top j) :
    ρ i = ρ j ↔ i = j :=
  ⟨h.injective hi hj, congrArg ρ⟩

/-! ## Values -/

theorem valueData? {v : Value} (hv : p.Member top v.function) :
    q.valueData? (v.rename ρ) = p.valueData? v := by
  obtain ⟨⟨f, hf⟩, hroot⟩ := hv
  rw [Program.valueData?, Value.rename, h.function hf hroot, Program.valueData?, hf]
  rfl

theorem shape? {v : Value} (hv : p.Member top v.function) :
    q.shape? (v.rename ρ) = p.shape? v := by
  rw [Program.shape?, h.valueData? hv, Program.shape?]

/-- The inputs of a function are values of the tree. -/
theorem member_input (hf : p.function? id = some f) (hroot : p.root id = top) :
    ∀ v ∈ f.inputs, p.Member top v.function := by
  intro v hv
  rw [(h.wellScoped.known_of_introduced hf (List.mem_append_left _ hv)).1]
  exact ⟨⟨f, hf⟩, hroot⟩

theorem describeValue {v : Value} (hv : p.Member top v.function) :
    q.describeValue (v.rename ρ) = p.describeValue v := by
  rw [Program.describeValue, h.valueData? hv, Program.describeValue]
  rfl

/-! ## Checks on functions and values -/

theorem getFunction (hid : p.Member top id) :
    Corresponds (fun f g => p.function? id = some f ∧ g = f.rename ρ)
      (p.getFunction id) (q.getFunction (ρ id)) := by
  obtain ⟨⟨f, hf⟩, hroot⟩ := hid
  rw [getFunction_eq_ok.mpr hf, getFunction_eq_ok.mpr (h.function hf hroot)]
  exact .ok ⟨hf, rfl⟩

theorem openFunction (hid : p.Member top id) :
    Corresponds (fun f g => p.function? id = some f ∧ g = f.rename ρ)
      (p.openFunction id) (q.openFunction (ρ id)) := by
  refine (h.getFunction hid).bind fun f g hfg => ?_
  obtain ⟨hf, rfl⟩ := hfg
  exact Corresponds.bind (.require rfl rfl) fun _ _ _ => .ok ⟨hf, rfl⟩

/-- A value is in scope in both programs, or in none. -/
theorem shapeOf (hid : p.Member top id) {v : Value} (hv : p.Member top v.function) :
    Corresponds Eq (p.shapeOf id v) (q.shapeOf (ρ id) (v.rename ρ)) := by
  refine (h.getFunction hid).bind fun f g hfg => ?_
  obtain ⟨hf, rfl⟩ := hfg
  have hdata : (if (v.rename ρ).function = ρ id then (f.rename ρ).values[(v.rename ρ).index]?
      else none) = if v.function = id then f.values[v.index]? else none :=
    if_congr (h.eq_iff hv hid) rfl rfl
  rw [hdata]
  cases if v.function = id then f.values[v.index]? else none with
  | some data => exact .ok rfl
  | none =>
    refine .error (congrArg BuildError.program ?_)
    simp only [ProgramError.anonymous, h.describeValue hv]

theorem shapesOf (hid : p.Member top id) {values : List Value}
    (hvalues : ∀ v ∈ values, p.Member top v.function) :
    Corresponds Eq (values.mapM (p.shapeOf id))
      ((values.map (Value.rename ρ)).mapM (q.shapeOf (ρ id))) :=
  .mapM fun v hv => h.shapeOf hid (hvalues v hv)

/-- A closure is ready in both programs, with the same signature, or in none. -/
theorem closureSignature (hid : p.Member top id) {closure : FunctionId}
    (hclosure : p.Member top closure) :
    Corresponds Eq (p.closureSignature id closure) (q.closureSignature (ρ id) (ρ closure)) := by
  refine (h.getFunction hid).bind fun f g hfg => ?_
  refine (h.getFunction hclosure).bind fun c d hcd => ?_
  obtain ⟨hc, rfl⟩ := hcd
  have hparent : (c.parent? == some id) = ((c.rename ρ).parent? == some (ρ id)) := by
    rw [Function.parent?_rename]
    cases hparent : c.parent? with
    | none => rfl
    | some parent =>
      have hmember := h.forest.member_parent hc hclosure.2 hparent
      rw [Bool.eq_iff_iff, Option.map_some]
      simp only [beq_iff_eq, Option.some.injEq, h.eq_iff hmember hid]
  have hinputs : c.inputs.filterMap p.shape? = (c.rename ρ).inputs.filterMap q.shape? := by
    rw [Function.rename, List.filterMap_map]
    exact List.filterMap_congr fun v hv =>
      (h.shape? (h.member_input hc hclosure.2 v hv)).symm
  refine Corresponds.bind (.require hparent rfl) fun _ _ _ => ?_
  refine Corresponds.bind (.require rfl rfl) fun _ _ _ => ?_
  refine Corresponds.bind (.require rfl rfl) fun _ _ _ => .ok ?_
  rw [hinputs]
  rfl

omit h in
theorem checkSharding_congr (hdistribution : q.distribution? = p.distribution?) :
    q.checkSharding = p.checkSharding := by
  have hmesh : q.mesh? = p.mesh? := by
    funext name
    rw [mesh?, meshes, hdistribution, mesh?, meshes]
  funext s shape
  rw [Program.checkSharding, hmesh, Program.checkSharding]

theorem checkSharding : q.checkSharding = p.checkSharding :=
  checkSharding_congr h.distribution

/-- Both programs describe the top-level function by its name. -/
theorem describeFunction_top : q.describeFunction top = p.describeFunction top := by
  obtain ⟨f, name, hf, hrole⟩ := h.topLevel
  have hq := h.function hf h.member_top.2
  rw [h.top_eq] at hq
  have hname : f.name? = some name := by rw [Function.name?, hrole]
  simp [describeFunction, hf, hq, Function.describe, Function.name?_rename, hname]

theorem newInputName (hid : p.Member top id) (name : String) :
    Builder.newInputName q (ρ id) name = Builder.newInputName p id name := by
  rw [Builder.newInputName, h.scope hid, h.root hid, h.describeFunction_top, Builder.newInputName,
    hid.2]

theorem checkReturn (hid : p.Member top id) {values : List Value}
    (hvalues : ∀ v ∈ values, p.Member top v.function) (shardings : List (Option Sharding)) :
    Corresponds Eq (Builder.checkReturn id values shardings p)
      (Builder.checkReturn (ρ id) (values.map (Value.rename ρ)) shardings q) := by
  refine (h.openFunction hid).bind fun _ _ _ => ?_
  refine (h.shapesOf hid hvalues).bind fun shapes _ hshapes => ?_
  subst hshapes
  rw [List.length_map, h.checkSharding]
  exact .of_eq rfl

/-! ## Checks on operations -/

theorem traverse (hid : p.Member top id) {o : Operation Value FunctionId}
    (hoperands : ∀ v ∈ o.operands, p.Member top v.function)
    (hcomputation : ∀ label c, o.computation? = some (label, c) → p.Member top c) :
    Corresponds Eq (o.traverse (p.shapeOf id) (p.closureSignature id))
      ((o.rename ρ).traverse (q.shapeOf (ρ id)) (q.closureSignature (ρ id))) := by
  rw [Corresponds.iff_mapError, Operation.rename, Operation.traverse_map,
    Operation.traverse_mapError, Operation.traverse_mapError]
  refine Operation.traverse_congr (fun v hv => ?_) fun label c hc => ?_
  · exact Corresponds.iff_mapError.mp (h.shapeOf hid (hoperands v hv))
  · exact Corresponds.iff_mapError.mp (h.closureSignature hid (hcomputation label c hc))

theorem resolve (hid : p.Member top id) {o : Operation Value FunctionId}
    (hoperands : ∀ v ∈ o.operands, p.Member top v.function)
    (hcomputation : ∀ label c, o.computation? = some (label, c) → p.Member top c) :
    Corresponds Eq (p.resolve id o) (q.resolve (ρ id) (o.rename ρ)) := by
  have hrest : Corresponds Eq
      (do
        let shaped ← o.traverse (p.shapeOf id) (p.closureSignature id)
        let outputs ← shaped.infer.mapError .shape
        return (shaped, outputs))
      (do
        let shaped ← (o.rename ρ).traverse (q.shapeOf (ρ id)) (q.closureSignature (ρ id))
        let outputs ← shaped.infer.mapError .shape
        return (shaped, outputs)) := by
    refine (h.traverse hid hoperands hcomputation).bind fun shaped _ hshaped => ?_
    subst hshaped
    exact .of_eq rfl
  unfold Program.resolve
  rw [Operation.rename, Operation.takesOperands_map]
  cases o.takesOperands with
  | true => exact Corresponds.bind (h.openFunction hid) fun _ _ _ => hrest
  | false => exact Corresponds.bind (h.getFunction hid) fun _ _ _ => hrest

theorem checkSearch (hid : p.Member top id) (e : Extremum) {operand : Value}
    (hoperand : p.Member top operand.function) (axis : Int) (positionType : ElementType) :
    Corresponds Eq (Builder.checkSearch id e operand axis positionType p)
      (Builder.checkSearch (ρ id) e (operand.rename ρ) axis positionType q) := by
  refine (h.openFunction hid).bind fun _ _ _ => ?_
  refine (h.shapeOf hid hoperand).bind fun shape _ hshape => ?_
  subst hshape
  exact .of_eq rfl

end Renamed

end Program

end TensorProgram
