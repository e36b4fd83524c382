import TensorProgram.NearestConversions
import TensorProgram.Proofs.Naming
import TensorProgram.Proofs.Rendered
import TensorProgram.Proofs.Scoping

/-!
# Names are used where they are introduced

`Program.visitRegions` reads a walk over statements as a reader of the text would: it keeps
the names that were introduced, region by region, and stops at an operand that the innermost
region does not have.  A walk over a top-level function is read to its end:
`foldlM_functionWalk`.  Together with the names of values being different this makes the
text of a program well formed, `functions_wellFormed`.
-/

namespace TensorProgram

namespace Program

/-! ## Reading names -/

def names (p : Program) (values : List Value) : List String :=
  values.map p.valueText

/-- The inputs of a function. -/
def inputsOf (p : Program) (id : FunctionId) : List Value :=
  ((p.function? id).map Function.inputs).getD []

/-- The names of the open regions, the innermost first, after one more visit, as long as the
operands of the statement are names of the innermost region.  The block of a closure is a
region that starts out with the inputs of the closure, and outputs of a statement become
names once the statement is complete. -/
def visitRegions (p : Program) (regions : List (List String)) (visit : Visit) :
    Option (List (List String)) :=
  match visit, regions with
  | .plain _ s, region :: outer =>
    if p.names s.inputs ⊆ region then some ((region ++ p.names s.outputs) :: outer) else none
  | .enter _ s use, region :: outer =>
    if p.names s.inputs ⊆ region then some (p.names (p.inputsOf use.function) :: region :: outer)
    else none
  | .leave _ s, _ :: region :: outer => some ((region ++ p.names s.outputs) :: outer)
  | _, _ => none

variable {p : Program}

theorem names_append (p : Program) (values values' : List Value) :
    p.names (values ++ values') = p.names values ++ p.names values' :=
  List.map_append

/-- A statement is read when its operands are visible and the block of its closure is. -/
theorem foldlM_walkWith {nested : Statement → List Visit} {s : Statement} {visible : List Value}
    (hnested : ∀ c outer, ∃ region, ((p.body c).flatMap nested).foldlM p.visitRegions
      (p.names (p.inputsOf c) :: outer) = some (region :: outer))
    (hs : s.inputs ⊆ visible) (depth : Nat) (outer : List (List String)) :
    (p.walkWith nested depth s).foldlM p.visitRegions (p.names visible :: outer) =
      some (p.names (visible ++ s.outputs) :: outer) := by
  have hoperands : p.names s.inputs ⊆ p.names visible := List.map_subset _ hs
  unfold walkWith
  cases huse : s.closure? with
  | none => simp [visitRegions, hoperands, names_append]
  | some use =>
    obtain ⟨region, hregion⟩ := hnested use.function (p.names visible :: outer)
    simp [visitRegions, hoperands, names_append, hregion]

/-- Statements in order are read one after the other. -/
theorem foldlM_statements {nested : Statement → List Visit}
    (hnested : ∀ {s visible outer}, s.inputs ⊆ visible →
      (nested s).foldlM p.visitRegions (p.names visible :: outer) =
        some (p.names (visible ++ s.outputs) :: outer))
    {statements : List Statement} {visible : List Value} (h : InOrder visible statements)
    (outer : List (List String)) :
    (statements.flatMap nested).foldlM p.visitRegions (p.names visible :: outer) =
      some (p.names (visible ++ statements.flatMap Statement.outputs) :: outer) := by
  induction statements generalizing visible with
  | nil => simp
  | cons s statements ih =>
    rw [List.flatMap_cons, List.foldlM_append, hnested h.1]
    simp [ih h.2]

/-- The statements of a function are in order. -/
theorem WellScoped.inOrder_body (hp : p.WellScoped) (id : FunctionId) :
    InOrder (p.inputsOf id) (p.body id) := by
  unfold inputsOf body
  cases hf : p.function? id with
  | none => trivial
  | some f => exact (hp id f hf).inOrder

theorem foldlM_walkUpTo (hp : p.WellScoped) (nesting depth : Nat) {s : Statement}
    {visible : List Value} (hs : s.inputs ⊆ visible) (outer : List (List String)) :
    (p.walkUpTo nesting depth s).foldlM p.visitRegions (p.names visible :: outer) =
      some (p.names (visible ++ s.outputs) :: outer) := by
  induction nesting generalizing depth s visible outer with
  | zero =>
    rw [walkUpTo]
    refine foldlM_walkWith (fun c outer => ⟨p.names (p.inputsOf c), ?_⟩) hs depth outer
    rw [List.flatMap_eq_nil_iff.mpr fun _ _ => rfl]
    rfl
  | succ nesting ih =>
    rw [walkUpTo]
    exact foldlM_walkWith (fun c outer => ⟨_, foldlM_statements (fun hs => ih (depth + 1) hs _)
      (hp.inOrder_body c) outer⟩) hs depth outer

/-- A top-level function is read to its end. -/
theorem foldlM_functionWalk (hp : p.WellScoped) {id : FunctionId} {f : Function}
    (hf : p.function? id = some f) :
    (p.functionWalk f).foldlM p.visitRegions [p.names f.inputs] =
      some [p.names f.introduced] :=
  foldlM_statements (fun hs => foldlM_walkUpTo hp _ 2 hs _) (hp id f hf).inOrder []

/-! ## Functions in a top-level function -/

/-- The function is the top-level function or a closure in it, at any depth. -/
inductive Inside (p : Program) (top : FunctionId) : FunctionId → Prop
  | self : Inside p top top
  | closure {id c : FunctionId} {f : Function} (hid : Inside p top id)
      (hf : p.function? c = some f) (hparent : f.parent? = some id) : Inside p top c

/-- What lies in a top-level function has it as its root. -/
theorem Inside.root_eq (hp : p.Forest) {top id : FunctionId} {f : Function}
    (hf : p.function? top = some f) (htop : f.isClosure = false) (h : p.Inside top id) :
    p.root id = top := by
  induction h with
  | self =>
    cases hrole : f.role with
    | topLevel name => simp [root, hf, hrole]
    | closure parent root => simp [isClosure_of_closure hrole] at htop
  | @closure id c g _ hg hparent ih =>
    obtain ⟨root, hrole⟩ := role_eq_of_parent? hparent
    have hn : p.node? c = some g.node := node?_of_function? hg
    rw [root_of_closure hn hrole, hp.root_eq hn hrole, ih]

theorem valueText_eq {v : Value} {data : ValueData} (h : p.valueData? v = some data) :
    p.valueText v = data.name.render := by
  rw [valueText, h, Option.map_some, Option.getD_some]

/-- The values of a top-level function and of all closures in it have different names. -/
theorem valueText_ne (hforest : p.Forest) (hnamed : p.Named) {top : FunctionId} {f : Function}
    (hf : p.function? top = some f) (htop : f.isClosure = false) {v w : Value}
    (hv : p.Inside top v.function) (hw : p.Inside top w.function)
    (hv' : p.Known v) (hw' : p.Known w) (hne : v ≠ w) :
    p.valueText v ≠ p.valueText w := by
  obtain ⟨dv, hdv⟩ := Option.isSome_iff_exists.mp hv'
  obtain ⟨dw, hdw⟩ := Option.isSome_iff_exists.mp hw'
  rw [valueText_eq hdv, valueText_eq hdw]
  refine hnamed.distinct hdv hdw ?_ hne
  rw [hv.root_eq hforest hf htop, hw.root_eq hforest hf htop]

/-! ## Text in static single assignment form -/

section WellFormed

variable [NarrowConversions]

/-- The text of a top-level function and of the closures in it is well formed. -/
structure WellFormed (p : Program) (top : FunctionId) (f : Function) : Prop where
  /-- Different values have different names. -/
  names_ne : ∀ v w, p.Inside top v.function → p.Inside top w.function → p.Known v → p.Known w →
    v ≠ w → p.valueText v ≠ p.valueText w
  /-- An operand is an input of the function of the statement or an output of an earlier
  statement in it. -/
  introduced : ∀ id g i s v, p.Inside top id → p.function? id = some g →
    g.statements[i]? = some s → v ∈ s.inputs →
      v ∈ g.inputs ++ (g.statements.take i).flatMap Statement.outputs
  /-- An operand does not have the name of a value of another function. -/
  not_elsewhere : ∀ id g s v w, p.Inside top id → p.function? id = some g → s ∈ g.statements →
    v ∈ s.inputs → p.Inside top w.function → p.Known w → w.function ≠ id →
      p.valueText w ≠ p.valueText v
  /-- The text is written in the order of the walk. -/
  lines : p.functionLines f = ⟨1, p.functionHeader (f.name?.getD "") f⟩ ::
    (p.functionWalk f).flatMap p.visitLines ++ [⟨1, "\x7d"⟩]
  /-- A reader of the walk who takes names from the innermost region gets to its end. -/
  read : (p.functionWalk f).foldlM p.visitRegions [p.names f.inputs] =
    some [p.names f.introduced]

/-- All that calls build is well formed. -/
theorem wellFormed_of_topLevel {name : String} {calls : List Call} {top : FunctionId}
    {f : Function} (h : (top, f) ∈ (Program.ofCalls name calls).topLevel) :
    (Program.ofCalls name calls).WellFormed top f := by
  generalize hp : Program.ofCalls name calls = p at h
  have hforest : p.Forest := hp ▸ ofCalls_forest name calls
  have hnamed : p.Named := hp ▸ ofCalls_named name calls
  have hscoped : p.WellScoped := hp ▸ ofCalls_wellScoped name calls
  obtain ⟨hf, htop⟩ := mem_topLevel.mp h
  constructor
  case names_ne =>
    intro v w hv hw hv' hw' hne
    exact valueText_ne hforest hnamed hf htop hv hw hv' hw' hne
  case introduced =>
    intro id g i s v _ hg hs
    exact (hscoped id g hg).inOrder.mem_of_getElem? hs v
  case not_elsewhere =>
    intro id g s v w hid hg hs hv hw hw' hne
    obtain ⟨hvid, hv'⟩ := hscoped.known_of_operand hg hs hv
    refine valueText_ne hforest hnamed hf htop hw (hvid ▸ hid) hw' hv' ?_
    rintro rfl
    exact hne hvid
  case lines => exact p.functionLines_eq f
  case read => exact foldlM_functionWalk hscoped hf

end WellFormed

/-- The top-level function of the sum. -/
def sumMain : Function :=
  (sumProgram.function? 0).getD (.ofRole (.topLevel "main"))

/-- The sum has an input with the name of a positional input. -/
theorem wellFormed_sum : (0, sumMain) ∈ sumProgram.topLevel ∧ sumProgram.WellFormed 0 sumMain :=
  ⟨by decide, wellFormed_of_topLevel (by decide)⟩

end Program

end TensorProgram
