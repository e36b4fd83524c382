import Mathlib.Data.List.Nodup
import TensorProgram.Proofs.Forest

/-!
# Values have different names

Names are given out by scopes: numbers by a counter, and all other names from a list of
those in use.  A number starts with a digit and no other name does, so a name that is given
out differs from every name given out before, `Scope.render_ne`.  Functions with the same
root share a scope, hence their values have different names: `ofCalls_named`.
-/

namespace TensorProgram

/-! ## Names as text -/

def startsWithDigit (text : String) : Bool :=
  text.toList.head?.any Char.isDigit

theorem startsWithDigit_toString (n : Nat) : startsWithDigit (toString n) = true := by
  obtain ⟨c, cs, hdigits⟩ := List.exists_cons_of_ne_nil (Nat.toDigits_ne_nil (n := n) (b := 10))
  have hc : c.isDigit := Nat.isDigit_of_mem_toDigits (by decide) (by decide)
    (hdigits ▸ List.mem_cons_self : c ∈ Nat.toDigits 10 n)
  simp [startsWithDigit, Nat.toList_repr, hdigits, hc]

theorem toString_injective {m n : Nat} (h : toString m = toString n) : m = n := by
  have hdigits : Nat.toDigits 10 m = Nat.toDigits 10 n := by
    simpa [Nat.toList_repr] using congrArg String.toList h
  rw [← Nat.ofDigitChars_ten_toDigits (n := m), hdigits, Nat.ofDigitChars_ten_toDigits]

/-- A normalized name does not start with a digit. -/
theorem startsWithDigit_normalize (text : String) :
    startsWithDigit (Identifier.normalize text) = false := by
  have hguard (cs : List Char) : (Identifier.guardDigit cs).head?.any Char.isDigit = false := by
    cases cs with
    | nil => rfl
    | cons c cs =>
      cases hc : c.isDigit <;> simp [Identifier.guardDigit, hc]
  simpa [startsWithDigit, Identifier.normalize, Identifier.normalizeChars] using hguard _

namespace ValueName

/-- The name without the sign in front. -/
def identifier : ValueName → String
  | argument position => argumentName position
  | numbered number => toString number
  | named name => name

theorem render_eq (name : ValueName) : name.render = "%" ++ name.identifier := by
  cases name <;> rfl

/-- The number of a name that is a number. -/
def number? : ValueName → Option Nat
  | numbered number => some number
  | _ => none

theorem identifier_of_number {name : ValueName} {n : Nat} (h : name.number? = some n) :
    name.identifier = toString n := by
  cases name with
  | argument position => cases h
  | numbered number => rw [identifier, Option.some.inj h]
  | named name => cases h

theorem startsWithDigit_argumentName (position : Nat) :
    startsWithDigit (argumentName position) = false := by
  simp [startsWithDigit, argumentName]

theorem argumentName_injective {m n : Nat} (h : argumentName m = argumentName n) : m = n := by
  refine toString_injective (String.toList_inj.mp ?_)
  simpa [argumentName] using congrArg String.toList h

end ValueName

/-! ## Names in a scope -/

namespace Scope

/-- The name is given out: a number is below the counter, and any other name is in the
list and does not start with a digit. -/
def Holds (s : Scope) (name : ValueName) : Prop :=
  match name.number? with
  | some number => number < s.valueCount
  | none => name.identifier ∈ s.names ∧ startsWithDigit name.identifier = false

/-- The name can be given out. -/
def Fresh (s : Scope) (name : ValueName) : Prop :=
  match name.number? with
  | some number => s.valueCount ≤ number
  | none => name.identifier ∉ s.names ∧ startsWithDigit name.identifier = false

/-- A name that can be given out differs from all that were. -/
theorem identifier_ne {s : Scope} {a b : ValueName} (ha : s.Holds a) (hb : s.Fresh b) :
    a.identifier ≠ b.identifier := by
  intro h
  unfold Holds at ha
  unfold Fresh at hb
  -- a number differs from all other names in its first character
  have hdigit := congrArg startsWithDigit h
  cases hm : a.number? with
  | none =>
    simp only [hm] at ha
    cases hn : b.number? with
    | none =>
      simp only [hn] at hb
      exact hb.1 (h ▸ ha.1)
    | some n =>
      rw [ha.2, ValueName.identifier_of_number hn, startsWithDigit_toString] at hdigit
      cases hdigit
  | some m =>
    simp only [hm] at ha
    cases hn : b.number? with
    | none =>
      simp only [hn] at hb
      rw [hb.2, ValueName.identifier_of_number hm, startsWithDigit_toString] at hdigit
      cases hdigit
    | some n =>
      simp only [hn] at hb
      rw [ValueName.identifier_of_number hm, ValueName.identifier_of_number hn] at h
      have := toString_injective h
      omega

theorem render_ne {s : Scope} {a b : ValueName} (ha : s.Holds a) (hb : s.Fresh b) :
    a.render ≠ b.render := by
  rw [ValueName.render_eq, ValueName.render_eq]
  intro h
  exact identifier_ne ha hb ((String.append_right_inj "%").mp h)

/-- Among one more position than there are names, one is free. -/
theorem freeArgument_not_mem (s : Scope) :
    ValueName.argumentName s.freeArgument ∉ s.names := by
  let positions := (List.range (s.names.length + 1)).map (s.argumentCount + ·)
  cases hfind : positions.find? fun position =>
      !s.names.contains (ValueName.argumentName position) with
  | some position =>
    have hfree : s.freeArgument = position := by
      show (positions.find? _).getD s.argumentCount = position
      rw [hfind]
      rfl
    rw [hfree]
    simpa using List.find?_some hfind
  | none =>
    have hmem : positions.map ValueName.argumentName ⊆ s.names := by
      intro name hname
      obtain ⟨position, hposition, rfl⟩ := List.mem_map.mp hname
      simpa using List.find?_eq_none.mp hfind position hposition
    have hnodup : (positions.map ValueName.argumentName).Nodup :=
      (List.nodup_range.map fun _ _ => Nat.add_left_cancel).map
        fun _ _ => ValueName.argumentName_injective
    have := hnodup.length_le_of_subset hmem
    simp only [positions, List.length_map, List.length_range] at this
    omega

theorem fresh_positional (s : Scope) : s.Fresh (.argument s.freeArgument) :=
  ⟨s.freeArgument_not_mem, ValueName.startsWithDigit_argumentName _⟩

/-- What is given out stays given out when a scope gives out more. -/
theorem Holds.mono {s s' : Scope} {name : ValueName} (h : s.Holds name)
    (hcount : s.valueCount ≤ s'.valueCount) (hnames : s.names ⊆ s'.names) : s'.Holds name := by
  unfold Holds at h ⊢
  cases hn : name.number? with
  | none =>
    simp only [hn] at h ⊢
    exact ⟨hnames h.1, h.2⟩
  | some n =>
    simp only [hn] at h ⊢
    omega

theorem Holds.takeInput {s : Scope} {a : ValueName} (h : s.Holds a) (name : ValueName) :
    (s.takeInput name).Holds a := by
  cases name with
  | argument position => exact h.mono (Nat.le_refl _) (List.subset_cons_self _ _)
  | numbered number => exact h
  | named name => exact h.mono (Nat.le_refl _) (List.subset_cons_self _ _)

theorem Fresh.takeInput {s : Scope} {name : ValueName} (h : s.Fresh name)
    (hletter : name.number? = none) : (s.takeInput name).Holds name := by
  cases name with
  | argument position => exact ⟨List.mem_cons_self, h.2⟩
  | numbered number => cases hletter
  | named name => exact ⟨List.mem_cons_self, h.2⟩

theorem Holds.takeNumbers {s : Scope} {a : ValueName} (h : s.Holds a) (count : Nat) :
    (s.takeNumbers count).Holds a :=
  h.mono (Nat.le_add_right _ _) (List.Subset.refl _)

end Scope

/-! ## Names in a program -/

namespace Program

/-- The names of values are given out by the scope of the root, and values with the same
root have different names. -/
structure Named (p : Program) : Prop where
  holds : ∀ {v data}, p.valueData? v = some data → (p.scope v.function).Holds data.name
  distinct : ∀ {v w dv dw}, p.valueData? v = some dv → p.valueData? w = some dw →
    p.root v.function = p.root w.function → v ≠ w → dv.name.render ≠ dw.name.render

variable {p q : Program}

theorem scope_eq_of_root_eq {i j : FunctionId} (h : p.root i = p.root j) :
    p.scope i = p.scope j := by
  unfold scope
  rw [h]

/-- A value of a program where one function has more values is an old one or comes after all old
values of the function. -/
theorem valueData?_of_append {id : FunctionId} {f : Function} {data : List ValueData}
    (hf : p.function? id = some f)
    (hvalues : ∀ v, q.valueData? v =
      if v.function = id then (f.values ++ data)[v.index]? else p.valueData? v)
    {v : Value} {d : ValueData} (hv : q.valueData? v = some d) :
    p.valueData? v = some d ∨
      v.function = id ∧ ∃ i, v.index = f.values.length + i ∧ data[i]? = some d := by
  rw [hvalues] at hv
  split_ifs at hv with hid
  · rcases Nat.lt_or_ge v.index f.values.length with hlt | hge
    · rw [List.getElem?_append_left hlt] at hv
      exact .inl (by simp [valueData?, hid, hf, hv])
    · rw [List.getElem?_append_right hge] at hv
      exact .inr ⟨hid, _, (Nat.add_sub_cancel' hge).symm, hv⟩
  · exact .inl hv

/-- New values of one function, whose names are fresh. -/
theorem Named.newValues {id : FunctionId} {f : Function} (hp : p.Named)
    (hf : p.function? id = some f) (data : List ValueData)
    (hvalues : ∀ v, q.valueData? v =
      if v.function = id then (f.values ++ data)[v.index]? else p.valueData? v)
    (hroot : ∀ j, q.root j = p.root j)
    (hmono : ∀ {j name}, (p.scope j).Holds name → (q.scope j).Holds name)
    (hfresh : ∀ d ∈ data, (p.scope id).Fresh d.name)
    (hholds : ∀ d ∈ data, (q.scope id).Holds d.name)
    (hdistinct : ∀ {i j : Nat} {d d' : ValueData}, data[i]? = some d → data[j]? = some d' → i ≠ j →
      d.name.render ≠ d'.name.render) : q.Named := by
  have hcases {v d} := valueData?_of_append hf hvalues (v := v) (d := d)
  have hold {v w : Value} {dv dw} (hv : p.valueData? v = some dv) (hw : w.function = id) (hdw : dw ∈ data)
      (hsame : p.root v.function = p.root w.function) : dv.name.render ≠ dw.name.render := by
    have hscope := hp.holds hv
    rw [scope_eq_of_root_eq (hsame.trans (by rw [hw]))] at hscope
    exact Scope.render_ne hscope (hfresh dw hdw)
  constructor
  case holds =>
    intro v d hv
    rcases hcases hv with hv | ⟨hid, i, _, hi⟩
    · exact hmono (hp.holds hv)
    · rw [hid]
      exact hholds d (List.mem_of_getElem? hi)
  case distinct =>
    intro v w dv dw hv hw hsame hne
    rw [hroot, hroot] at hsame
    rcases hcases hv with hv | ⟨hvid, i, hvi, hi⟩
    · rcases hcases hw with hw | ⟨hwid, j, _, hj⟩
      · exact hp.distinct hv hw hsame hne
      · exact hold hv hwid (List.mem_of_getElem? hj) hsame
    · rcases hcases hw with hw | ⟨hwid, j, hwj, hj⟩
      · exact (hold hw hvid (List.mem_of_getElem? hi) hsame.symm).symm
      · refine hdistinct hi hj ?_
        rintro rfl
        exact hne (by cases v; cases w; simp_all)

theorem named_empty (name : String) : (Program.empty name).Named := by
  constructor <;> intros <;> contradiction

section Unchanged

variable (hq : ∀ j, q.function? j = p.function? j)

include hq

theorem valueData?_congr (v : Value) : q.valueData? v = p.valueData? v := by
  rw [valueData?, hq, valueData?]

theorem root_congr (j : FunctionId) : q.root j = p.root j := by
  rw [root, hq, root]

theorem scope_congr (j : FunctionId) : q.scope j = p.scope j := by
  rw [scope, root_congr hq, hq, scope]

/-- Names are a matter of functions. -/
theorem Named.congr (hp : p.Named) : q.Named := by
  constructor
  case holds =>
    intro v data hv
    rw [valueData?_congr hq] at hv
    rw [scope_congr hq]
    exact hp.holds hv
  case distinct =>
    intro v w dv dw hv hw hsame
    rw [valueData?_congr hq] at hv hw
    rw [root_congr hq, root_congr hq] at hsame
    exact hp.distinct hv hw hsame

end Unchanged

section NewFunction

variable {role : Role} (hq : ∀ j, q.function? j =
  if j = p.functions.length then some (.ofRole role) else p.function? j)

include hq

/-- New functions have no values. -/
theorem valueData?_of_newFunction {v : Value} {data : ValueData}
    (hv : q.valueData? v = some data) :
    p.valueData? v = some data ∧ v.function ≠ p.functions.length := by
  rw [valueData?, hq] at hv
  split_ifs at hv with h
  · simp [Function.ofRole] at hv
  · exact ⟨hv, h⟩

theorem scope_of_newFunction {j : FunctionId} (hj : j ≠ p.functions.length) :
    q.scope j = p.scope j := by
  rw [scope, root_of_newFunction hq hj, hq, scope]
  split_ifs with h
  · rw [h, function?, List.getElem?_eq_none (Nat.le_refl _)]
    rfl
  · rfl

theorem Named.newFunction (hp : p.Named) : q.Named := by
  constructor
  case holds =>
    intro v data hv
    obtain ⟨hv, hne⟩ := valueData?_of_newFunction hq hv
    rw [scope_of_newFunction hq hne]
    exact hp.holds hv
  case distinct =>
    intro v w dv dw hv hw hsame
    obtain ⟨hv, hv'⟩ := valueData?_of_newFunction hq hv
    obtain ⟨hw, hw'⟩ := valueData?_of_newFunction hq hw
    rw [root_of_newFunction hq hv', root_of_newFunction hq hw'] at hsame
    exact hp.distinct hv hw hsame

end NewFunction

/-- The names that an input can be given are fresh. -/
theorem InputName.fresh {id : FunctionId} {name : ValueName} (h : InputName p id name) :
    (p.scope id).Fresh name ∧ name.number? = none := by
  cases h with
  | positional => exact ⟨Scope.fresh_positional _, rfl⟩
  | @named text name hname =>
    simp only [Builder.newInputName, bind_eq_ok, require_eq_ok, pure_eq_ok, Except.ok.injEq]
      at hname
    obtain ⟨_, _, _, hfree, rfl⟩ := hname
    exact ⟨⟨by simpa [ValueName.identifier] using hfree, startsWithDigit_normalize text⟩, rfl⟩

theorem name_of_getElem?_numberedData {first i : Nat} {shapes : List Shape} {d : ValueData}
    (h : (numberedData first shapes)[i]? = some d) :
    i < shapes.length ∧ d.name = .numbered (first + i) := by
  simp only [numberedData, List.getElem?_map, List.getElem?_zipIdx, Option.map_map,
    Option.map_eq_some_iff] at h
  obtain ⟨shape, hshape, rfl⟩ := h
  exact ⟨(List.getElem?_eq_some_iff.mp hshape).1, by simp⟩

section Changes

variable {id : FunctionId} {f : Function} {change : FunctionId → Function → Function}
  {take : Scope → Scope} (data : List ValueData)
  (hf : p.function? id = some f) (hq : ∀ j, q.function? j = (p.function? j).map (change j))
  (hrole : ∀ j g, (change j g).role = g.role)
  (hvalues : ∀ j g, (change j g).values = if id = j then g.values ++ data else g.values)
  (hscope : ∀ j g, (change j g).scope = if p.root id = j then take g.scope else g.scope)

include hq hrole

theorem root_of_map (j : FunctionId) : q.root j = p.root j := by
  apply root_eq_of_role
  rw [hq, Option.map_map]
  congr 1
  funext g
  exact hrole j g

include hf

variable (take) in
include hscope in
/-- What happens to the scope of a function happens to all functions with the same root. -/
theorem scope_of_map (hforest : p.Forest) (j : FunctionId) :
    q.scope j = if p.root id = p.root j then take (p.scope id) else p.scope j := by
  obtain ⟨_, _, hr, _⟩ := hforest.exists_root (node?_of_function? hf)
  obtain ⟨r, hr, _⟩ := Option.map_eq_some_iff.mp hr
  rw [scope, root_of_map hq hrole, hq]
  split_ifs with hroot
  · rw [← hroot, hr, Option.map_some, Option.map_some, hscope, if_pos rfl, scope, hr]
    rfl
  · rw [scope]
    cases p.function? (p.root j) with
    | none => rfl
    | some g => simp [hscope, hroot]

include hvalues

omit hrole in
theorem valueData?_of_map (v : Value) : q.valueData? v =
    if v.function = id then (f.values ++ data)[v.index]? else p.valueData? v := by
  rw [valueData?, hq]
  split_ifs with h
  · simp [h, hf, hvalues]
  · rw [valueData?]
    cases p.function? v.function with
    | none => rfl
    | some g => simp [hvalues, Ne.symm h]

include hscope in
/-- A function takes values with names that the scope gives out for them. -/
theorem Named.ofMap (hp : p.Named) (hforest : p.Forest)
    (hmono : ∀ {s : Scope} {name : ValueName}, s.Holds name → (take s).Holds name)
    (hfresh : ∀ d ∈ data, (p.scope id).Fresh d.name)
    (hholds : ∀ d ∈ data, (take (p.scope id)).Holds d.name)
    (hdistinct : ∀ {i j : Nat} {d d' : ValueData}, data[i]? = some d → data[j]? = some d' →
      i ≠ j → d.name.render ≠ d'.name.render) : q.Named := by
  have hscopes := scope_of_map take hf hq hrole hscope hforest
  refine hp.newValues hf data (valueData?_of_map data hf hq hvalues) (root_of_map hq hrole) ?_
    hfresh ?_ hdistinct
  · intro j name h
    rw [hscopes]
    split_ifs with hroot
    · rw [scope_eq_of_root_eq hroot]
      exact hmono h
    · exact h
  · intro d hd
    rw [hscopes, if_pos rfl]
    exact hholds d hd

end Changes

theorem Step.named (h : Step p q) (hforest : p.Forest) (hp : p.Named) : q.Named := by
  cases h.effect with
  | unchanged hq => exact hp.congr hq
  | function hrole hq => exact hp.newFunction hq
  | @input id f data hf hopen hname hq =>
    obtain ⟨hfresh, hletter⟩ := hname.fresh
    refine hp.ofMap [data] hf hq (fun _ _ => rfl) (fun _ _ => rfl) (fun _ _ => rfl) hforest
      (fun h => h.takeInput data.name) ?_ ?_ ?_
    · simpa using hfresh
    · simpa using hfresh.takeInput hletter
    · intro i j d d' hi hj hne
      have hi := (List.getElem?_eq_some_iff.mp hi).1
      have hj := (List.getElem?_eq_some_iff.mp hj).1
      simp only [List.length_singleton] at hi hj
      omega
  | @statement id f s shapes hf hopen hs returned? hq =>
    refine hp.ofMap (numberedData (p.scope id).valueCount shapes) hf hq (fun _ _ => rfl)
      (fun _ _ => rfl) (fun _ _ => rfl) hforest (fun h => h.takeNumbers shapes.length) ?_ ?_ ?_
    · intro d hd
      obtain ⟨i, hi⟩ := List.mem_iff_getElem?.mp hd
      rw [(name_of_getElem?_numberedData hi).2]
      exact Nat.le_add_right _ _
    · intro d hd
      obtain ⟨i, hi⟩ := List.mem_iff_getElem?.mp hd
      obtain ⟨hlt, hname⟩ := name_of_getElem?_numberedData hi
      rw [hname]
      exact Nat.add_lt_add_left hlt _
    · intro i j d d' hi hj hne
      rw [(name_of_getElem?_numberedData hi).2, (name_of_getElem?_numberedData hj).2,
        ValueName.render, ValueName.render]
      intro h
      have := toString_injective ((String.append_right_inj "%").mp h)
      omega

/-- Values with the same root have different names in every program that calls lead to. -/
theorem ofCalls_named (name : String) (calls : List Call) : (Program.ofCalls name calls).Named :=
  (ofCalls_induction (motive := fun p => p.Forest ∧ p.Named)
    (fun name => ⟨forest_empty name, named_empty name⟩)
    (fun _ _ hp hstep => ⟨hstep.forest hp.1, hstep.named hp.1 hp.2⟩) name calls).2

end Program

end TensorProgram
