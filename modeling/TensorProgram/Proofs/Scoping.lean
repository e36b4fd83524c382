import TensorProgram.Proofs.Calls
import TensorProgram.Proofs.Effects

/-!
# Values are introduced before they are used

A function introduces values as its inputs and as the outputs of its statements.  In every
program that calls lead to, those are exactly the values that the function owns, and each
statement takes its operands from the inputs and from the outputs of earlier statements of
the same function: `ofCalls_wellScoped`.
-/

namespace TensorProgram

/-- Each statement takes values that are visible from the start or that an earlier statement
has put out. -/
def InOrder : (visible : List Value) → List Statement → Prop
  | _, [] => True
  | visible, s :: statements =>
    (∀ v ∈ s.inputs, v ∈ visible) ∧ InOrder (visible ++ s.outputs) statements

theorem InOrder.mono {statements : List Statement} {visible visible' : List Value}
    (h : InOrder visible statements) (hsub : ∀ v ∈ visible, v ∈ visible') :
    InOrder visible' statements := by
  induction statements generalizing visible visible' with
  | nil => trivial
  | cons s statements ih =>
    refine ⟨fun v hv => hsub v (h.1 v hv), ih h.2 fun v hv => ?_⟩
    rcases List.mem_append.mp hv with hv | hv
    · exact List.mem_append_left _ (hsub v hv)
    · exact List.mem_append_right _ hv

/-- A list of statements in order, one after the other. -/
theorem inOrder_append {statements statements' : List Statement} {visible : List Value} :
    InOrder visible (statements ++ statements') ↔ InOrder visible statements ∧
      InOrder (visible ++ statements.flatMap Statement.outputs) statements' := by
  induction statements generalizing visible with
  | nil => simp [InOrder]
  | cons s statements ih => simp [InOrder, ih, and_assoc]

/-- An operand is visible from the start or an output of an earlier statement. -/
theorem InOrder.mem_of_getElem? {statements : List Statement} {visible : List Value}
    (h : InOrder visible statements) {i : Nat} {s : Statement} (hs : statements[i]? = some s) :
    ∀ v ∈ s.inputs, v ∈ visible ++ (statements.take i).flatMap Statement.outputs := by
  obtain ⟨hi, hs⟩ := List.getElem?_eq_some_iff.mp hs
  rw [← List.take_append_drop i statements, List.drop_eq_getElem_cons hi, inOrder_append, hs] at h
  exact h.2.1

theorem Program.mem_consecutiveValues {id : FunctionId} {index count : Nat} {v : Value} :
    v ∈ consecutiveValues id index count ↔
      v.function = id ∧ index ≤ v.index ∧ v.index < index + count := by
  simp only [consecutiveValues, List.mem_map, List.mem_range]
  constructor
  · rintro ⟨position, hlt, rfl⟩
    exact ⟨rfl, Nat.le_add_right index position, Nat.add_lt_add_left hlt index⟩
  · rintro ⟨rfl, hle, hlt⟩
    exact ⟨v.index - index, by omega, by rw [Nat.add_sub_cancel' hle]⟩

namespace Function

open Program

/-- The values that a function introduces. -/
def introduced (f : Function) : List Value :=
  f.inputs ++ f.statements.flatMap Statement.outputs

/-- The function introduces the values that it owns and uses them afterwards. -/
structure WellScoped (f : Function) (id : FunctionId) : Prop where
  introduced_iff : ∀ v, v ∈ f.introduced ↔ v.function = id ∧ v.index < f.values.length
  inOrder : InOrder f.inputs f.statements

theorem wellScoped_ofRole (role : Role) (id : FunctionId) : (ofRole role).WellScoped id where
  introduced_iff v := by simp [ofRole, introduced]
  inOrder := trivial

namespace WellScoped

variable {f g : Function} {id : FunctionId}

/-- Well scoped is a matter of inputs, statements and the number of values. -/
theorem congr (h : f.WellScoped id) (hinputs : g.inputs = f.inputs) (hvalues : g.values = f.values)
    (hstatements : g.statements = f.statements) : g.WellScoped id where
  introduced_iff v := by
    rw [introduced, hinputs, hstatements, hvalues]
    exact h.introduced_iff v
  inOrder := by
    rw [hinputs, hstatements]
    exact h.inOrder

theorem input (h : f.WellScoped id) (data : ValueData)
    (hinputs : g.inputs = f.inputs ++ [⟨id, f.values.length⟩])
    (hvalues : g.values = f.values ++ [data]) (hstatements : g.statements = f.statements) :
    g.WellScoped id where
  introduced_iff v := by
    have hv := h.introduced_iff v
    simp only [introduced, List.mem_append] at hv
    simp only [introduced, hinputs, hstatements, hvalues, List.mem_append, List.mem_singleton,
      List.length_append, List.length_singleton]
    rw [or_right_comm, hv]
    constructor
    · rintro (⟨hid, hlt⟩ | rfl)
      · exact ⟨hid, by omega⟩
      · exact ⟨rfl, by simp⟩
    · rintro ⟨rfl, hlt⟩
      rcases Nat.lt_succ_iff_lt_or_eq.mp hlt with hlt | heq
      · exact .inl ⟨rfl, hlt⟩
      · exact .inr (by rw [← heq])
  inOrder := by
    rw [hinputs, hstatements]
    exact h.inOrder.mono fun v hv => List.mem_append_left _ hv

theorem statement (h : f.WellScoped id) (s : Statement) (data : List ValueData)
    (hinputs : g.inputs = f.inputs) (hvalues : g.values = f.values ++ data)
    (hstatements : g.statements = f.statements ++ [s])
    (hoperands : ∀ v ∈ s.inputs, v.function = id ∧ v.index < f.values.length)
    (houtputs : s.outputs = consecutiveValues id f.values.length data.length) :
    g.WellScoped id where
  introduced_iff v := by
    have hv := h.introduced_iff v
    simp only [introduced, List.mem_append] at hv
    simp only [introduced, hinputs, hstatements, hvalues, houtputs, List.mem_append,
      List.flatMap_append, List.flatMap_cons, List.flatMap_nil, List.append_nil, ← or_assoc, hv,
      List.length_append, mem_consecutiveValues]
    constructor
    · rintro (⟨hid, hlt⟩ | ⟨hid, _, hlt⟩)
      · exact ⟨hid, by omega⟩
      · exact ⟨hid, hlt⟩
    · rintro ⟨hid, hlt⟩
      rcases Nat.lt_or_ge v.index f.values.length with hold | hnew
      · exact .inl ⟨hid, hold⟩
      · exact .inr ⟨hid, hnew, hlt⟩
  inOrder := by
    rw [hinputs, hstatements, inOrder_append]
    exact ⟨h.inOrder, fun v hv => (h.introduced_iff v).mpr (hoperands v hv), trivial⟩

end WellScoped

end Function

namespace Program

/-- Every function is well scoped. -/
def WellScoped (p : Program) : Prop :=
  ∀ id f, p.function? id = some f → f.WellScoped id

theorem wellScoped_empty (name : String) : (Program.empty name).WellScoped := by
  intro id f hf
  cases hf

theorem Step.wellScoped {p q : Program} (h : Step p q) (hp : p.WellScoped) : q.WellScoped := by
  intro j g hg
  cases h.effect with
  | unchanged hq => exact hp j g (by rwa [hq] at hg)
  | @function role hrole hq =>
    exact forall_of_new hq (Function.wellScoped_ofRole role _) hp j g hg
  | @input id f data hf hopen hname hq =>
    refine forall_of_change hq hf ?_ (fun j g h hg => ?_) j g hg
    · exact (hp id f hf).input data (by simp) (by simp) rfl
    · exact (hp j g hg).congr (by simp [h]) (by simp [h]) rfl
  | @statement id f s shapes hf hopen hs returned? hq =>
    refine forall_of_change hq hf ?_ (fun j g h hg => ?_) j g hg
    · refine (hp id f hf).statement s (numberedData (p.scope id).valueCount shapes) rfl (by simp)
        (by simp) hs.operands ?_
      rw [hs.outputs]
      simp [numberedData]
    · exact (hp j g hg).congr rfl (by simp [h]) (by simp [h])

theorem Steps.wellScoped {p q : Program} (h : Steps p q) (hp : p.WellScoped) : q.WellScoped := by
  induction h with
  | refl => exact hp
  | tail _ hstep ih => exact hstep.wellScoped ih

/-- The program has the value. -/
def Known (p : Program) (v : Value) : Prop :=
  (p.valueData? v).isSome

variable {p : Program} {id : FunctionId} {f : Function}

theorem WellScoped.known_of_introduced (hp : p.WellScoped) (hf : p.function? id = some f)
    {v : Value} (hv : v ∈ f.introduced) : v.function = id ∧ p.Known v := by
  obtain ⟨rfl, hlt⟩ := ((hp id f hf).introduced_iff v).mp hv
  exact ⟨rfl, by simp [Known, valueData?, hf, hlt]⟩

/-- An operand is a value of the function. -/
theorem WellScoped.known_of_operand (hp : p.WellScoped) (hf : p.function? id = some f)
    {s : Statement} (hs : s ∈ f.statements) {v : Value} (hv : v ∈ s.inputs) :
    v.function = id ∧ p.Known v := by
  obtain ⟨i, hi⟩ := List.mem_iff_getElem?.mp hs
  refine hp.known_of_introduced hf ?_
  rcases List.mem_append.mp ((hp id f hf).inOrder.mem_of_getElem? hi v hv) with hinput | houtput
  · exact List.mem_append_left _ hinput
  · refine List.mem_append_right _ ?_
    obtain ⟨t, ht, hvt⟩ := List.mem_flatMap.mp houtput
    exact List.mem_flatMap.mpr ⟨t, List.mem_of_mem_take ht, hvt⟩

/-- Values come before their uses in every program that calls lead to. -/
theorem ofCalls_wellScoped (name : String) (calls : List Call) :
    (Program.ofCalls name calls).WellScoped :=
  ofCalls_induction wellScoped_empty (fun _ _ hp hstep => hstep.wellScoped hp) name calls

end Program

end TensorProgram
