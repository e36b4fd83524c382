import TensorProgram.Proofs.Growth
import TensorProgram.Proofs.Regions

/-!
# Text that was written stays

When a program grows, statements keep their text: their operands and outputs keep names and
shapes, and closures that they use have returned and do not change any more.
`Extends.statementLines_eq` says so for statements and `Extends.functionLines_eq` for whole
functions that have returned.
-/

namespace TensorProgram

namespace Program

variable {p q : Program}

/-! ## What a grown program keeps -/

theorem Extends.valueData? (h : p.Extends q) {v : Value} {data : ValueData}
    (hv : p.valueData? v = some data) : q.valueData? v = some data := by
  obtain ⟨f, hf, hdata⟩ := Option.bind_eq_some_iff.mp hv
  obtain ⟨g, hg, hfg⟩ := h v.function f hf
  obtain ⟨rest, hrest⟩ := hfg.values
  rw [Program.valueData?, hg, Option.bind_some, ← hrest,
    List.getElem?_append_left (List.getElem?_eq_some_iff.mp hdata).1]
  exact hdata

theorem Extends.length_le (h : p.Extends q) : p.functions.length ≤ q.functions.length := by
  by_contra hlt
  obtain ⟨f, hf⟩ := exists_function?_of_lt (Nat.lt_of_not_le hlt)
  obtain ⟨g, hg, _⟩ := h _ f hf
  exact Nat.lt_irrefl _ (lt_of_function? hg)

section Values

variable (h : p.Extends q) {values : List Value} (hvalues : ∀ v ∈ values, p.Known v)

include h

theorem Extends.valueData?_eq {v : Value} (hv : p.Known v) : q.valueData? v = p.valueData? v := by
  obtain ⟨data, hdata⟩ := Option.isSome_iff_exists.mp hv
  rw [hdata, h.valueData? hdata]

theorem Extends.valueText_eq {v : Value} (hv : p.Known v) : q.valueText v = p.valueText v := by
  rw [valueText, h.valueData?_eq hv, valueText]

theorem Extends.valueType_eq {v : Value} (hv : p.Known v) : q.valueType v = p.valueType v := by
  rw [valueType, shape?, h.valueData?_eq hv, valueType, shape?]

include hvalues

theorem Extends.map_valueText : values.map q.valueText = values.map p.valueText :=
  List.map_congr_left fun v hv => h.valueText_eq (hvalues v hv)

theorem Extends.map_valueType : values.map q.valueType = values.map p.valueType :=
  List.map_congr_left fun v hv => h.valueType_eq (hvalues v hv)

theorem Extends.blockLabel_eq (label : String) :
    q.blockLabel label values = p.blockLabel label values := by
  have htyped : values.map q.typedValue = values.map p.typedValue :=
    List.map_congr_left fun v hv => by
      rw [typedValue, h.valueText_eq (hvalues v hv), h.valueType_eq (hvalues v hv), typedValue]
  rw [blockLabel, htyped, blockLabel]

theorem Extends.map_inputText : values.map q.inputText = values.map p.inputText :=
  List.map_congr_left fun v hv => by
    rw [inputText, h.valueText_eq (hvalues v hv), shape?, h.valueData?_eq (hvalues v hv),
      inputText, shape?]

end Values

/-- The parts of a statement keep their names and types. -/
theorem Extends.statement_eq (h : p.Extends q) (hp : p.WellScoped) {id : FunctionId}
    {s : Statement} (hs : s ∈ p.body id) :
    q.statementHead s = p.statementHead s ∧ q.statementType s = p.statementType s := by
  obtain ⟨f, hf, hs⟩ := exists_function?_of_mem_body hs
  have hinputs : ∀ v ∈ s.inputs, p.Known v := fun v hv => (hp.known_of_operand hf hs hv).2
  have houtputs : ∀ v ∈ s.outputs, p.Known v := fun v hv =>
    (hp.known_of_introduced hf (List.mem_append_right _ (List.mem_flatMap.mpr ⟨s, hs, hv⟩))).2
  constructor
  · rw [statementHead, h.map_valueText hinputs, h.map_valueText houtputs, statementHead]
  · rw [statementType, h.map_valueType hinputs, h.map_valueType houtputs, statementType]

/-- The closure that a statement uses keeps its inputs and its statements. -/
theorem Extends.closure_eq (h : p.Extends q) (hp : p.Forest) {id : FunctionId} {s : Statement}
    (hs : s ∈ p.body id) {use : ClosureUse} (huse : s.closure? = some use) :
    ∃ c c', p.function? use.function = some c ∧ q.function? use.function = some c' ∧
      c'.inputs = c.inputs ∧ c'.statements = c.statements := by
  have hmem : use.function ∈ p.usesOf id :=
    List.mem_filterMap.mpr ⟨s, hs, by rw [Statement.closureId?, huse, Option.map_some]⟩
  obtain ⟨m, _, hm, _, hreturned, _⟩ := hp.node?_of_mem_usesOf hmem
  obtain ⟨c, hc, rfl⟩ := Option.map_eq_some_iff.mp hm
  obtain ⟨c', hc', hextends⟩ := h _ c hc
  obtain ⟨hinputs, _, hstatements, _⟩ := hextends.frozen hreturned
  exact ⟨c, c', hc, hc', hinputs, hstatements⟩

/-! ## Lines -/

section Lines

variable [NarrowConversions] (h : p.Extends q) (hscoped : p.WellScoped) (hp : p.Forest)

include h hscoped hp

/-- A statement has the same lines if the statements in its closure have. -/
theorem Extends.statementLinesWith_eq {nested nested' : Statement → List Line} (depth : Nat)
    {id : FunctionId} {s : Statement} (hs : s ∈ p.body id)
    (hnested : ∀ c, ∀ t ∈ p.body c, nested' t = nested t) :
    q.statementLinesWith nested' depth s = p.statementLinesWith nested depth s := by
  obtain ⟨hhead, htype⟩ := h.statement_eq hscoped hs
  unfold statementLinesWith
  cases huse : s.closure? with
  | none => simp only [hhead, htype]
  | some use =>
    obtain ⟨c, c', hc, hc', hinputs, hstatements⟩ := h.closure_eq hp hs huse
    have hlabel : q.blockLabel use.label c.inputs = p.blockLabel use.label c.inputs :=
      h.blockLabel_eq
        (fun v hv => (hscoped.known_of_introduced hc (List.mem_append_left _ hv)).2) _
    have hbody : c.statements.flatMap nested' = c.statements.flatMap nested :=
      List.flatMap_congr fun t ht => hnested use.function t (by simpa [body, hc] using ht)
    simp only [blockLines, hc, hc', hinputs, hstatements, hlabel, hbody, hhead, htype]

/-- The lines of a statement stay the same, with all closures in it. -/
theorem Extends.statementLinesUpTo_eq (nesting depth : Nat) {id : FunctionId} {s : Statement}
    (hs : s ∈ p.body id) :
    q.statementLinesUpTo nesting depth s = p.statementLinesUpTo nesting depth s := by
  induction nesting generalizing depth id s with
  | zero => exact h.statementLinesWith_eq hscoped hp depth hs fun _ _ _ => rfl
  | succ nesting ih =>
    exact h.statementLinesWith_eq hscoped hp depth hs fun c t ht => ih (depth + 1) ht

/-- The larger program renders with a larger bound, which makes no difference. -/
theorem Extends.statementLines_eq (depth : Nat) {id : FunctionId} {s : Statement}
    (hs : s ∈ p.body id) : q.statementLines depth s = p.statementLines depth s := by
  rw [statementLines, h.statementLinesUpTo_eq hscoped hp _ depth hs,
    hp.statementLinesUpTo_eq hs depth h.length_le]

/-- A function that has returned keeps its text. -/
theorem Extends.functionLines_eq {id : FunctionId} {f g : Function} (hf : p.function? id = some f)
    (hfg : f.Extends g) (hreturned : f.isReturned = true) :
    q.functionLines g = p.functionLines f := by
  obtain ⟨hinputs, _, hstatements, houtputs⟩ := hfg.frozen hreturned
  have hknown : ∀ v ∈ f.inputs, p.Known v := fun v hv =>
    (hscoped.known_of_introduced hf (List.mem_append_left _ hv)).2
  have hheader : q.functionHeader (g.name?.getD "") g = p.functionHeader (f.name?.getD "") f := by
    have hname : g.name? = f.name? := by rw [Function.name?, hfg.role, Function.name?]
    have houtputs : g.outputs = f.outputs := by rw [Function.outputs, houtputs, Function.outputs]
    delta functionHeader
    rw [hname, hinputs, h.map_inputText hknown, houtputs]
  have hlines : f.statements.flatMap (q.statementLines 2) =
      f.statements.flatMap (p.statementLines 2) :=
    List.flatMap_congr fun s hs => h.statementLines_eq hscoped hp 2
      (show s ∈ p.body id by simpa [body, hf] using hs)
  rw [functionLines, hheader, hstatements, hlines, functionLines]

end Lines

section Kept

variable [NarrowConversions]

/-- What a function keeps when a program grows. -/
structure Kept (p q : Program) (f g : Function) : Prop where
  /-- Values keep their names and shapes, and new ones come after them. -/
  values : f.values <+: g.values
  statements : f.statements <+: g.statements
  /-- Statements keep their text, with all closures in them. -/
  statementLines : ∀ s ∈ f.statements, ∀ depth, q.statementLines depth s = p.statementLines depth s
  /-- A top-level function that has returned keeps its text from the header to the end. -/
  functionLines : f.isClosure = false → f.isReturned = true →
    q.functionLines g = p.functionLines f

/-- Whatever is called later, functions keep what they have. -/
theorem kept_of_calls {name : String} {calls : List Call} (later : List Call) {id : FunctionId}
    {f : Function} (hf : (Program.ofCalls name calls).function? id = some f) :
    ∃ g, (Program.ofCalls name (calls ++ later)).function? id = some g ∧
      (Program.ofCalls name calls).Kept (Program.ofCalls name (calls ++ later)) f g := by
  have hforest := ofCalls_forest name calls
  have hscoped := ofCalls_wellScoped name calls
  have hq : (Program.ofCalls name calls).Extends (Program.ofCalls name (calls ++ later)) := by
    rw [ofCalls, ofCalls, List.foldl_append]
    exact (calls_steps _ later).extends
  obtain ⟨g, hg, hfg⟩ := hq id f hf
  refine ⟨g, hg, hfg.values, hfg.statements, fun s hs depth => ?_, fun _ hreturned => ?_⟩
  · exact hq.statementLines_eq hscoped hforest depth
      (show s ∈ (Program.ofCalls name calls).body id by simpa [body, hf] using hs)
  · exact hq.functionLines_eq hscoped hforest hf hfg hreturned

end Kept

/-- The sum has returned, and its second closure takes an input afterwards. -/
theorem kept_sum :
    sumProgram.function? 0 = some sumMain ∧ sumMain.isReturned = true ∧
      ∃ g, (Program.ofCalls "example" (sumCalls ++ [.input 2 (.scalar (.real .f32))])).function? 0 =
          some g ∧
        sumProgram.Kept
          (.ofCalls "example" (sumCalls ++ [.input 2 (.scalar (.real .f32))])) sumMain g :=
  ⟨rfl, rfl, kept_of_calls [.input 2 (.scalar (.real .f32))] rfl⟩

end Program

end TensorProgram
