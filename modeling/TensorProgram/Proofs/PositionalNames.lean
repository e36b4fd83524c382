import Mathlib.Order.Bounds.Basic
import TensorProgram.Proofs.Numbering

/-!
# Names of positional inputs

The name of a positional input is searched for in rounds.  A round moves the counter of a scope past
a position and takes the position if its name is free, and rounds follow until one of them does:
`Scope.Finds`.  The number of rounds is not given.  The search ends because a scope has finitely
many names, and it ends at the least free position, `Scope.finds_iff`.

The names of a scope are those of the inputs that share it, and the positions of inputs lie below
its counter: `Program.InputsNamed`, which every step keeps.  So the positions that a search passes
are those whose names were given to inputs, `Program.InputsNamed.mem_names_iff`.  In a program that
calls lead to, `Program.input_of_calls` says which name an input gets and what else changes.
-/

namespace TensorProgram

open ValueName

/-! ## The search -/

namespace Scope

/-- One round of the search.  The counter goes up, and the position that it had is taken if its
name is free. -/
def tryPosition (s : Scope) : Option Nat × Scope :=
  let passed := { s with argumentCount := s.argumentCount + 1 }
  if argumentName s.argumentCount ∈ s.names then (none, passed)
  else (some s.argumentCount, passed.takeName (argumentName s.argumentCount))

/-- Rounds lead from a scope to the position that one of them takes and the scope after it. -/
inductive Finds : Scope → Nat → Scope → Prop
  | taken {s s' : Scope} {n : Nat} (h : s.tryPosition = (some n, s')) : Finds s n s'
  | passed {s t s' : Scope} {n : Nat} (h : s.tryPosition = (none, t)) (hrest : Finds t n s') :
    Finds s n s'

/-- The positions that are not below the counter and whose names are free. -/
def freePositions (s : Scope) : Set Nat :=
  {n | s.argumentCount ≤ n ∧ argumentName n ∉ s.names}

variable {s s' : Scope} {n : Nat}

theorem tryPosition_of_mem (h : argumentName s.argumentCount ∈ s.names) :
    s.tryPosition = (none, { s with argumentCount := s.argumentCount + 1 }) :=
  if_pos h

theorem tryPosition_of_notMem (h : argumentName s.argumentCount ∉ s.names) :
    s.tryPosition = (some s.argumentCount, s.takeArgument s.argumentCount) :=
  if_neg h

/-- A search that ends has taken the least free position.  The induction is on its rounds: one that
passes a position takes it out of those that are not below the counter. -/
theorem Finds.isLeast (h : s.Finds n s') :
    IsLeast s.freePositions n ∧ s' = s.takeArgument n := by
  induction h with
  | @taken s s' n h =>
    by_cases hname : argumentName s.argumentCount ∈ s.names
    · rw [tryPosition_of_mem hname] at h
      cases h
    · rw [tryPosition_of_notMem hname] at h
      cases h
      exact ⟨⟨⟨Nat.le_refl _, hname⟩, fun m hm => hm.1⟩, rfl⟩
  | @passed s t s' n h _ ih =>
    by_cases hname : argumentName s.argumentCount ∈ s.names
    · rw [tryPosition_of_mem hname] at h
      cases h
      obtain ⟨⟨⟨hle, hfree⟩, hleast⟩, rfl⟩ := ih
      refine ⟨⟨⟨Nat.le_of_succ_le hle, hfree⟩, fun m hm => ?_⟩, rfl⟩
      have hne : m ≠ s.argumentCount := fun heq => hm.2 (heq ▸ hname)
      exact hleast ⟨Nat.lt_of_le_of_ne hm.1 hne.symm, hm.2⟩
    · rw [tryPosition_of_notMem hname] at h
      cases h

/-- A search passes names that are taken, however many, and ends at the first one that is free. -/
theorem finds_add (passes : Nat)
    (htaken : ∀ i < passes, argumentName (s.argumentCount + i) ∈ s.names)
    (hfree : argumentName (s.argumentCount + passes) ∉ s.names) :
    s.Finds (s.argumentCount + passes) (s.takeArgument (s.argumentCount + passes)) := by
  induction passes generalizing s with
  | zero =>
    exact .taken (tryPosition_of_notMem hfree)
  | succ passes ih =>
    let t := { s with argumentCount := s.argumentCount + 1 }
    have hposition (i : Nat) : t.argumentCount + i = s.argumentCount + (i + 1) := by
      show s.argumentCount + 1 + i = _
      omega
    have hrest :
        t.Finds (t.argumentCount + passes) (t.takeArgument (t.argumentCount + passes)) := by
      apply ih
      · intro i hi
        rw [hposition]
        exact htaken (i + 1) (by omega)
      · rw [hposition]
        exact hfree
    rw [hposition] at hrest
    exact .passed (tryPosition_of_mem (htaken 0 (by omega))) hrest

/-- The names in front of the free position are taken. -/
theorem exists_freeArgument (s : Scope) : ∃ passes, s.freeArgument = s.argumentCount + passes ∧
    ∀ i < passes, argumentName (s.argumentCount + i) ∈ s.names := by
  let isFree (i : Nat) : Bool := !s.names.contains (argumentName (s.argumentCount + i))
  have hfind : s.freeArgument =
      (((List.range (s.names.length + 1)).find? isFree).map (s.argumentCount + ·)).getD
        s.argumentCount := by
    rw [freeArgument, List.find?_map]
    rfl
  cases hrange : (List.range (s.names.length + 1)).find? isFree with
  | none =>
    rw [hrange] at hfind
    exact ⟨0, hfind, by omega⟩
  | some passes =>
    rw [hrange] at hfind
    refine ⟨passes, hfind, fun i hi => ?_⟩
    have hi := (List.find?_range_eq_some.mp hrange).2.2 i hi
    simpa [isFree] using hi

/-- The search ends in one way, at the position that a positional input gets. -/
theorem finds_iff : s.Finds n s' ↔ n = s.freeArgument ∧ s' = s.takeArgument n := by
  obtain ⟨passes, hposition, htaken⟩ := s.exists_freeArgument
  have hfree := s.freeArgument_not_mem
  rw [hposition] at hfree ⊢
  have hfinds := finds_add passes htaken hfree
  constructor
  · intro h
    obtain ⟨hleast, hscope⟩ := h.isLeast
    exact ⟨hleast.unique hfinds.isLeast.1, hscope⟩
  · rintro ⟨rfl, rfl⟩
    exact hfinds

theorem finds_freeArgument (s : Scope) :
    s.Finds s.freeArgument (s.takeArgument s.freeArgument) :=
  finds_iff.mpr ⟨rfl, rfl⟩

end Scope

/-! ## Names of inputs -/

namespace Program

/-- An input of the tree that the function lies in has the name. -/
def InputHas (p : Program) (id : FunctionId) (name : String) : Prop :=
  ∃ v data, p.root v.function = p.root id ∧ v ∈ p.inputsOf v.function ∧
    p.valueData? v = some data ∧ data.name.number? = none ∧ data.name.identifier = name

/-- The names of a scope are those of inputs that share it, and the positions of inputs are below
its counter. -/
structure InputsNamed (p : Program) : Prop where
  inputHas : ∀ {id name}, name ∈ (p.scope id).names → p.InputHas id name
  position_lt : ∀ {v data n}, p.valueData? v = some data → data.name = .argument n →
    n < (p.scope v.function).argumentCount

variable {p q : Program} {id : FunctionId} {f : Function}

theorem Extends.mem_inputsOf (h : p.Extends q) {v : Value} (hf : p.function? id = some f)
    (hv : v ∈ p.inputsOf id) : v ∈ q.inputsOf id := by
  obtain ⟨g, hg, hfg⟩ := h id f hf
  have hv : v ∈ f.inputs := by simpa [inputsOf, hf] using hv
  simpa [inputsOf, hg] using hfg.inputs.subset hv

theorem InputHas.mono (h : p.Extends q) (hroot : q.root id = p.root id) {name : String}
    (hname : p.InputHas id name) : q.InputHas id name := by
  obtain ⟨v, data, htree, hinput, hdata, hname⟩ := hname
  obtain ⟨f, hf, _⟩ := Option.bind_eq_some_iff.mp hdata
  refine ⟨v, data, ?_, h.mem_inputsOf hf hinput, h.valueData? hdata, hname⟩
  rw [h.root_eq hf, hroot, htree]

theorem InputHas.congr {j : FunctionId} (hroot : p.root id = p.root j) {name : String}
    (h : p.InputHas id name) : p.InputHas j name := by
  unfold InputHas at h ⊢
  rwa [← hroot]

theorem inputsNamed_empty (name : String) : (Program.empty name).InputsNamed where
  inputHas h := nomatch h
  position_lt h := nomatch h

theorem InputsNamed.congr (hp : p.InputsNamed) (h : p.Extends q)
    (hq : ∀ j, q.function? j = p.function? j) : q.InputsNamed where
  inputHas {id name} hname := by
    rw [scope_congr hq] at hname
    exact (hp.inputHas hname).mono h (root_congr hq id)
  position_lt {v data n} hv hn := by
    rw [valueData?_congr hq] at hv
    rw [scope_congr hq]
    exact hp.position_lt hv hn

/-- A new function has no inputs, and a new closure has the scope of its parent. -/
theorem InputsNamed.newFunction (hp : p.InputsNamed) (h : p.Extends q) {role : Role}
    (hrole : p.NewRole role) (hq : ∀ j, q.function? j =
      if j = p.functions.length then some (.ofRole role) else p.function? j) : q.InputsNamed where
  inputHas {j name} hname := by
    by_cases hj : j = p.functions.length
    · have hnew : q.function? j = some (.ofRole role) := by rw [hq, if_pos hj]
      cases hrole with
      | topLevel text =>
        have hroot : q.root j = j := by simp [root, hnew, Function.ofRole]
        rw [scope, hroot, hnew] at hname
        cases hname
      | @closure parent f hf hopen =>
        have hparent : parent ≠ p.functions.length := Nat.ne_of_lt (lt_of_function? hf)
        have hroot : q.root j = q.root parent := by
          rw [root_of_newFunction hq hparent]
          simp [root, hnew, Function.ofRole]
        rw [scope_eq_of_root_eq hroot, scope_of_newFunction hq hparent] at hname
        have hinput := (hp.inputHas hname).mono h (root_of_newFunction hq hparent)
        exact hinput.congr hroot.symm
    · rw [scope_of_newFunction hq hj] at hname
      exact (hp.inputHas hname).mono h (root_of_newFunction hq hj)
  position_lt {v data n} hv hn := by
    obtain ⟨hv, hne⟩ := valueData?_of_newFunction hq hv
    rw [scope_of_newFunction hq hne]
    exact hp.position_lt hv hn

section Changes

variable {change : FunctionId → Function → Function} (take : Scope → Scope) (data : List ValueData)
  (hf : p.function? id = some f) (hq : ∀ j, q.function? j = (p.function? j).map (change j))
  (hrole : ∀ j g, (change j g).role = g.role)
  (hvalues : ∀ j g, (change j g).values = if id = j then g.values ++ data else g.values)
  (hscope : ∀ j g, (change j g).scope = if p.root id = j then take g.scope else g.scope)

include hf hq hrole hvalues hscope

/-- A function takes values.  What is new in its scope are names of inputs, and the counter stays
above the positions. -/
theorem InputsNamed.ofMap (hp : p.InputsNamed) (h : p.Extends q) (hforest : p.Forest)
    (hnames : ∀ name ∈ (take (p.scope id)).names,
      name ∈ (p.scope id).names ∨ q.InputHas id name)
    (hcount : (p.scope id).argumentCount ≤ (take (p.scope id)).argumentCount)
    (hpositions : ∀ d ∈ data, ∀ n, d.name = .argument n →
      n < (take (p.scope id)).argumentCount) : q.InputsNamed where
  inputHas {j name} hname := by
    have hroot := root_of_map hq hrole
    rw [scope_of_map take hf hq hrole hscope hforest] at hname
    split_ifs at hname with htree
    · have hsame : q.root id = q.root j := by rw [hroot, hroot, htree]
      rcases hnames name hname with hold | hnew
      · exact ((hp.inputHas hold).mono h (hroot id)).congr hsame
      · exact hnew.congr hsame
    · exact (hp.inputHas hname).mono h (hroot j)
  position_lt {v d n} hv hn := by
    rw [scope_of_map take hf hq hrole hscope hforest]
    rcases valueData?_of_append hf (valueData?_of_map data hf hq hvalues) hv with
      hold | ⟨hfunction, i, _, hi⟩
    · have hlt := hp.position_lt hold hn
      split_ifs with htree
      · rw [← scope_eq_of_root_eq htree] at hlt
        omega
      · exact hlt
    · rw [if_pos (by rw [hfunction])]
      exact hpositions d (List.mem_of_getElem? hi) n hn

end Changes

/-- A name moves the counter past its position, if it has one, and never back. -/
theorem InputName.argumentCount_takeInput {name : ValueName} (h : InputName p id name) :
    (p.scope id).argumentCount ≤ ((p.scope id).takeInput name).argumentCount ∧
      ∀ n, name = .argument n → n < ((p.scope id).takeInput name).argumentCount := by
  cases h with
  | positional =>
    obtain ⟨passes, hposition, _⟩ := (p.scope id).exists_freeArgument
    refine ⟨?_, fun n hn => ?_⟩
    · show (p.scope id).argumentCount ≤ (p.scope id).freeArgument + 1
      omega
    · cases hn
      exact Nat.lt_succ_self _
  | named hname => exact ⟨Nat.le_refl _, fun n hn => nomatch hn⟩

theorem InputName.names_takeInput {name : ValueName} (h : InputName p id name) :
    ((p.scope id).takeInput name).names = name.identifier :: (p.scope id).names := by
  cases h with
  | positional => rfl
  | named hname => rfl

theorem Step.inputsNamed (h : Step p q) (hforest : p.Forest) (hp : p.InputsNamed) :
    q.InputsNamed := by
  have hextends := h.extends
  cases h.effect with
  | unchanged hq => exact hp.congr hextends hq
  | function hrole hq => exact hp.newFunction hextends hrole hq
  | @input id f data hf hopen hname hq =>
    obtain ⟨hcount, hposition⟩ := hname.argumentCount_takeInput
    have hinput : q.InputHas id data.name.identifier := by
      refine ⟨⟨id, f.values.length⟩, data, rfl, ?_, ?_, hname.fresh.2, rfl⟩
      · simp [inputsOf, hq, hf]
      · simp [Program.valueData?, hq, hf]
    refine hp.ofMap (·.takeInput data.name) [data] hf hq (fun _ _ => rfl) (fun _ _ => rfl)
      (fun _ _ => rfl) hextends hforest (fun name hmem => ?_) hcount (fun d hd => ?_)
    · rw [hname.names_takeInput] at hmem
      rcases List.mem_cons.mp hmem with rfl | hold
      · exact .inr hinput
      · exact .inl hold
    · obtain rfl := List.mem_singleton.mp hd
      exact hposition
  | @statement id f s shapes hf hopen hs returned? hq =>
    refine hp.ofMap (·.takeNumbers shapes.length) (numberedData (p.scope id).valueCount shapes)
      hf hq (fun _ _ => rfl) (fun _ _ => rfl) (fun _ _ => rfl) hextends hforest
      (fun name hmem => .inl hmem) (Nat.le_refl _) (fun d hd n hn => ?_)
    obtain ⟨i, hi⟩ := List.mem_iff_getElem?.mp hd
    rw [(name_of_getElem?_numberedData hi).2] at hn
    cases hn

theorem ofCalls_inputsNamed (name : String) (calls : List Call) :
    (Program.ofCalls name calls).InputsNamed :=
  (ofCalls_induction (motive := fun p => p.Forest ∧ p.InputsNamed)
    (fun name => ⟨forest_empty name, inputsNamed_empty name⟩)
    (fun _ _ hp hstep => ⟨hstep.forest hp.1, hstep.inputsNamed hp.1 hp.2⟩) name calls).2

/-! ## Positional inputs -/

/-- An input of the function or of a closure in it was given the name. -/
def GivesName (p : Program) (top : FunctionId) (name : String) : Prop :=
  ∃ v data, p.Inside top v.function ∧ v ∈ p.inputsOf v.function ∧ p.valueData? v = some data ∧
    data.name = .named name

/-- What lies in the root of a function is what has the same root. -/
theorem Forest.inside_root_iff (hp : p.Forest) (hf : p.function? id = some f) {j : FunctionId}
    {g : Function} (hg : p.function? j = some g) :
    p.Inside (p.root id) j ↔ p.root j = p.root id := by
  constructor
  · intro h
    obtain ⟨_, name, hr, hrole⟩ := hp.exists_root (node?_of_function? hf)
    obtain ⟨r, hroot, rfl⟩ := Option.map_eq_some_iff.mp hr
    exact h.root_eq hp hroot (isClosure_of_topLevel hrole)
  · intro h
    rw [← h]
    exact hp.inside_root hg

/-- From the counter on, the positions whose names are taken are those whose names were given. -/
theorem InputsNamed.mem_names_iff (hp : p.InputsNamed) (hforest : p.Forest) (hnamed : p.Named)
    (hf : p.function? id = some f) {n : Nat} (hn : (p.scope id).argumentCount ≤ n) :
    argumentName n ∈ (p.scope id).names ↔ p.GivesName (p.root id) (argumentName n) := by
  constructor
  · intro h
    obtain ⟨v, data, hroot, hinput, hdata, hletter, hidentifier⟩ := hp.inputHas h
    obtain ⟨g, hg, _⟩ := Option.bind_eq_some_iff.mp hdata
    refine ⟨v, data, (hforest.inside_root_iff hf hg).mpr hroot, hinput, hdata, ?_⟩
    cases hname : data.name with
    | argument m =>
      have hlt := hp.position_lt hdata hname
      rw [scope_eq_of_root_eq hroot] at hlt
      rw [hname] at hidentifier
      obtain rfl : m = n := argumentName_injective hidentifier
      omega
    | numbered m =>
      rw [hname] at hletter
      cases hletter
    | named name =>
      rw [hname] at hidentifier
      exact congrArg ValueName.named hidentifier
  · rintro ⟨v, data, hinside, _, hdata, hname⟩
    obtain ⟨g, hg, _⟩ := Option.bind_eq_some_iff.mp hdata
    have hholds := hnamed.holds hdata
    rw [scope_eq_of_root_eq ((hforest.inside_root_iff hf hg).mp hinside), hname] at hholds
    exact hholds.1

/-- The positions that are free to a search are those whose names were not given. -/
theorem InputsNamed.freePositions_eq (hp : p.InputsNamed) (hforest : p.Forest) (hnamed : p.Named)
    (hf : p.function? id = some f) : (p.scope id).freePositions =
      {n | (p.scope id).argumentCount ≤ n ∧ ¬p.GivesName (p.root id) (argumentName n)} :=
  Set.ext fun _ => and_congr_right fun hn => not_congr (hp.mem_names_iff hforest hnamed hf hn)

/-- The new value of a function stands behind the values that it had, and other values stay. -/
theorem valueData?_withInput (hf : p.function? id = some f) (data : ValueData) (v : Value) :
    (p.withInput id data).valueData? v =
      if v = ⟨id, f.values.length⟩ then some data else p.valueData? v := by
  obtain ⟨j, index⟩ := v
  rw [valueData?_of_map [data] hf (function?_withInput data hf) (fun _ _ => rfl)]
  simp only [Value.mk.injEq]
  by_cases hj : j = id
  · subst hj
    rw [if_pos rfl, valueData?, hf, Option.bind_some]
    rcases Nat.lt_trichotomy index f.values.length with hlt | rfl | hgt
    · rw [if_neg (by omega), List.getElem?_append_left hlt]
    · rw [if_pos ⟨rfl, rfl⟩, List.getElem?_concat_length]
    · have hlength : (f.values ++ [data]).length ≤ index := by
        rw [List.length_append, List.length_singleton]
        exact hgt
      rw [if_neg (by omega), List.getElem?_eq_none hlength, List.getElem?_eq_none hgt.le]
  · rw [if_neg hj, if_neg (by simp [hj])]

theorem scope_withInput (hf : p.function? id = some f) (hforest : p.Forest) (data : ValueData)
    (j : FunctionId) : (p.withInput id data).scope j =
      if p.root id = p.root j then (p.scope id).takeInput data.name else p.scope j :=
  scope_of_map (·.takeInput data.name) hf (function?_withInput data hf) (fun _ _ => rfl)
    (fun _ _ => rfl) hforest j

/-- An open function takes a positional input, and the search for its name ends in one way.  The
name is that of the least position that is not below the counter of the root and whose name no
input in the root was given.  The counter moves on to the next position, the name is one more of
those in the scope, and the names of other scopes and of all other values stay as they are. -/
theorem input_of_calls {name : String} {calls : List Call} {id : FunctionId} {f : Function}
    (hf : (ofCalls name calls).function? id = some f) (hopen : f.returned? = none)
    (shape : Shape) :
    let p := ofCalls name calls
    let v : Value := ⟨id, f.values.length⟩
    ∃ n q, (Builder.input id shape).run p = (.ok v, q) ∧
      (∀ m s, (p.scope id).Finds m s ↔ m = n ∧ s = q.scope id) ∧
      IsLeast {m | (p.scope id).argumentCount ≤ m ∧
        ¬p.GivesName (p.root id) (argumentName m)} n ∧
      q.valueText v = "%arg" ++ toString n ∧
      q.scope id = ⟨n + 1, (p.scope id).valueCount, argumentName n :: (p.scope id).names⟩ ∧
      (∀ j, p.root j ≠ p.root id → q.scope j = p.scope j) ∧
      ∀ w, w ≠ v → q.valueText w = p.valueText w := by
  intro p v
  have hforest : p.Forest := ofCalls_forest name calls
  have hpositions := (ofCalls_inputsNamed name calls).freePositions_eq hforest
    (ofCalls_named name calls) hf
  have hleast := (p.scope id).finds_freeArgument.isLeast.1
  rw [hpositions] at hleast
  let data : ValueData := ⟨.argument (p.scope id).freeArgument, shape, none⟩
  have hscope := scope_withInput hf hforest data
  have hvalue := valueData?_withInput hf data
  have htaken : (p.withInput id data).scope id =
      (p.scope id).takeArgument (p.scope id).freeArgument := by
    rw [hscope, if_pos rfl]
    rfl
  refine ⟨(p.scope id).freeArgument, p.withInput id data, (Builder.input_succeeds hf hopen shape).1,
    fun m s => ?_, hleast, ?_, htaken, fun j hj => ?_, fun w hw => ?_⟩
  · rw [Scope.finds_iff, htaken]
    constructor
    · rintro ⟨rfl, rfl⟩
      exact ⟨rfl, rfl⟩
    · rintro ⟨rfl, rfl⟩
      exact ⟨rfl, rfl⟩
  · have hdata : (p.withInput id data).valueData? v = some data := by rw [hvalue, if_pos rfl]
    rw [valueText_eq hdata, render, argumentName, ← String.append_assoc]
    rfl
  · rw [hscope, if_neg hj.symm]
  · rw [valueText, hvalue, if_neg hw, valueText]

/-- A function with a closure in it and a closure in that one.  Names of the two positions after the
first input were given to inputs of the closures, and one of a later position to an input of the
function. -/
def crowdedCalls : List Call :=
  [.function "main" [.scalar (.real .f32)],
    .closure 0,
    .closure 1,
    .namedInput 2 "arg2" (.scalar (.real .f32)),
    .namedInput 1 "arg1" (.scalar (.real .f32)),
    .namedInput 0 "arg4" (.scalar (.real .f32))]

/-- The search passes two names, so the next input of the inner closure has the third position. -/
theorem input_of_calls_crowded :
    let p := ofCalls "example" crowdedCalls
    ∃ f q, p.function? 2 = some f ∧ f.returned? = none ∧
      (Builder.input 2 (.scalar .boolean)).run p = (.ok ⟨2, 1⟩, q) ∧
      (p.scope 2).Finds 3 (q.scope 2) ∧ p.GivesName 0 "arg1" ∧ p.GivesName 0 "arg2" ∧
      ¬p.GivesName 0 "arg3" ∧ q.valueText ⟨2, 1⟩ = "%arg3" ∧ (q.scope 2).argumentCount = 4 := by
  intro p
  let f : Function := p.functions.get ⟨2, by decide⟩
  have hf : p.function? 2 = some f := by decide
  have hopen : f.returned? = none := by decide
  obtain ⟨n, q, hrun, hfinds, hleast, htext, hscope, _⟩ :=
    input_of_calls hf hopen (.scalar .boolean)
  have hend := (hfinds n (q.scope 2)).mpr ⟨rfl, rfl⟩
  obtain rfl : n = 3 := (Scope.finds_iff.mp hend).1.trans (by decide)
  -- positions that come before the least free one have names that were given
  have hgiven {m : Nat} (hm : 1 ≤ m ∧ m < 3) : p.GivesName 0 (argumentName m) := by
    by_contra hfree
    have hle : 3 ≤ m := hleast.2 ⟨hm.1, hfree⟩
    omega
  refine ⟨f, q, hf, hopen, hrun, hend, hgiven (m := 1) (by decide), hgiven (m := 2) (by decide),
    hleast.1.2, htext, ?_⟩
  rw [hscope]

end Program

end TensorProgram
