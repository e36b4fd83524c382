import TensorProgram.NearestConversions
import TensorProgram.Proofs.Endings

/-!
# Shardings in program text

A top-level function shows the shardings of its inputs and outputs in its header, at the time
they are attached and ever after: `inputWithSharding_shown` and `returnSharded_shown`.

Shardings of closures are accepted in the same way and are not shown.  Without them the program
has the same text, `text_withoutClosureShardings`, and a reduction that loses one is
`annotatedReduction`.
-/

namespace TensorProgram

/-- The function as it would be if nothing in it had a sharding. -/
def Function.withoutShardings (f : Function) : Function :=
  { f with
    values := f.values.map fun data => { data with sharding? := none }
    returned? := f.returned?.map fun outputs =>
      outputs.map fun output => { output with sharding? := none } }

namespace Program

/-- The program as it would be if no closure had shardings. -/
def withoutClosureShardings (p : Program) : Program :=
  { p with
    functions := p.functions.map fun f => if f.isClosure then f.withoutShardings else f }

variable {p q : Program} {id : FunctionId} {f : Function}

/-! ## Shardings of closures -/

section Without

theorem function?_withoutClosureShardings (p : Program) (id : FunctionId) :
    p.withoutClosureShardings.function? id =
      (p.function? id).map fun f => if f.isClosure then f.withoutShardings else f :=
  List.getElem?_map

/-- The values of top-level functions keep their shardings. -/
theorem valueData?_withoutClosureShardings (hf : p.function? id = some f)
    (htop : f.isClosure = false) {v : Value} (hv : v.function = id) :
    p.withoutClosureShardings.valueData? v = p.valueData? v := by
  rw [valueData?, valueData?, function?_withoutClosureShardings, hv, hf, Option.map_some, htop]
  rfl

/-- All values keep everything else. -/
theorem map_valueData?_withoutClosureShardings {α : Type} (part : ValueData → α)
    (hpart : ∀ data : ValueData, part { data with sharding? := none } = part data) (p : Program)
    (v : Value) :
    (p.withoutClosureShardings.valueData? v).map part = (p.valueData? v).map part := by
  rw [valueData?, valueData?, function?_withoutClosureShardings]
  cases p.function? v.function with
  | none => rfl
  | some f =>
    rw [Option.map_some, Option.bind_some, Option.bind_some]
    split_ifs
    · simp [Function.withoutShardings, Function.comp_def, hpart]
    · rfl

theorem shape?_withoutClosureShardings (p : Program) (v : Value) :
    p.withoutClosureShardings.shape? v = p.shape? v :=
  map_valueData?_withoutClosureShardings ValueData.shape (fun _ => rfl) p v

theorem valueText_withoutClosureShardings (p : Program) :
    p.withoutClosureShardings.valueText = p.valueText := by
  funext v
  rw [valueText, map_valueData?_withoutClosureShardings (·.name.render) (fun _ => rfl), valueText]

theorem valueType_withoutClosureShardings (p : Program) :
    p.withoutClosureShardings.valueType = p.valueType := by
  funext v
  rw [valueType, shape?_withoutClosureShardings, valueType]

/-- A block shows names and types of the inputs of its closure, and nothing else of them. -/
theorem blockLabel_withoutClosureShardings (p : Program) :
    p.withoutClosureShardings.blockLabel = p.blockLabel := by
  have htyped : p.withoutClosureShardings.typedValue = p.typedValue := by
    funext v
    rw [typedValue, valueText_withoutClosureShardings, valueType_withoutClosureShardings,
      typedValue]
  funext label inputs
  rw [blockLabel, htyped, blockLabel]

variable [NarrowConversions]

theorem statementLinesWith_withoutClosureShardings (p : Program) (nested : Statement → List Line)
    (depth : Nat) (s : Statement) :
    p.withoutClosureShardings.statementLinesWith nested depth s =
      p.statementLinesWith nested depth s := by
  have hblock (use : ClosureUse) :
      p.withoutClosureShardings.blockLines nested depth use = p.blockLines nested depth use := by
    rw [blockLines, blockLines, function?_withoutClosureShardings,
      blockLabel_withoutClosureShardings]
    cases p.function? use.function with
    | none => rfl
    | some c =>
      rw [Option.map_some]
      split_ifs
      · rfl
      · rfl
  have hhead : p.withoutClosureShardings.statementHead s = p.statementHead s := by
    rw [statementHead, valueText_withoutClosureShardings, statementHead]
  have htype : p.withoutClosureShardings.statementType s = p.statementType s := by
    rw [statementType, valueType_withoutClosureShardings, statementType]
  unfold statementLinesWith
  cases s.closure? with
  | none => simp only [hhead, htype]
  | some use => simp only [hhead, htype, hblock]

theorem statementLines_withoutClosureShardings (p : Program) (depth : Nat) (s : Statement) :
    p.withoutClosureShardings.statementLines depth s = p.statementLines depth s := by
  have hnested (nesting : Nat) (depth : Nat) (s : Statement) :
      p.withoutClosureShardings.statementLinesUpTo nesting depth s =
        p.statementLinesUpTo nesting depth s := by
    induction nesting generalizing depth s with
    | zero => exact statementLinesWith_withoutClosureShardings p _ depth s
    | succ nesting ih =>
      rw [statementLinesUpTo, statementLinesWith_withoutClosureShardings, funext (ih (depth + 1)),
        statementLinesUpTo]
  have hlength : p.withoutClosureShardings.functions.length = p.functions.length :=
    List.length_map _
  rw [statementLines, hlength, hnested, statementLines]

omit [NarrowConversions] in
theorem topLevel_withoutClosureShardings (p : Program) :
    p.withoutClosureShardings.topLevel = p.topLevel := by
  have hclosure (f : Function) :
      (if f.isClosure then f.withoutShardings else f).isClosure = f.isClosure := by
    split_ifs
    · rfl
    · rfl
  simp only [topLevel, withoutClosureShardings, List.zipIdx_map, List.filter_map, List.map_map]
  have hkept : p.functions.zipIdx.filter
      ((fun entry : Function × Nat => !entry.1.isClosure) ∘
        Prod.map (fun f => if f.isClosure then f.withoutShardings else f) id) =
      p.functions.zipIdx.filter fun entry => !entry.1.isClosure :=
    List.filter_congr fun entry _ => by simp [hclosure]
  rw [hkept]
  refine List.map_congr_left fun entry hentry => ?_
  have htop : entry.1.isClosure = false := by simpa using (List.mem_filter.mp hentry).2
  exact congrArg Prod.swap (Prod.ext (by simp [htop]) rfl)

/-- A program shows the same text without the shardings of its closures. -/
theorem text_withoutClosureShardings (hscoped : p.WellScoped) :
    p.withoutClosureShardings.text = p.text := by
  have hfunction (entry : FunctionId × Function) (hentry : entry ∈ p.topLevel) :
      p.withoutClosureShardings.functionLines entry.2 = p.functionLines entry.2 := by
    obtain ⟨hf, htop⟩ := mem_topLevel.mp hentry
    have hinputs : entry.2.inputs.map p.withoutClosureShardings.inputText =
        entry.2.inputs.map p.inputText := by
      refine List.map_congr_left fun v hv => ?_
      have howner := (hscoped.known_of_introduced hf (List.mem_append_left _ hv)).1
      rw [inputText, valueText_withoutClosureShardings, shape?_withoutClosureShardings,
        valueData?_withoutClosureShardings hf htop howner, inputText]
    have hbody : entry.2.statements.flatMap (p.withoutClosureShardings.statementLines 2) =
        entry.2.statements.flatMap (p.statementLines 2) :=
      List.flatMap_congr fun s _ => statementLines_withoutClosureShardings p 2 s
    rw [functionLines, hbody, functionLines]
    delta functionHeader
    rw [hinputs]
  have hlines : p.withoutClosureShardings.lines = p.lines := by
    rw [lines, topLevel_withoutClosureShardings, List.flatMap_congr hfunction]
    rfl
  rw [text, hlines, text]

end Without

/-! ## Shardings of top-level functions -/

section TopLevel

variable [NarrowConversions] {r : Program} {g : Function} {shape : Shape} {s : Sharding}

/-- The header of the function has a text for every input, and that of the value ends in the type
and the sharding. -/
def ShowsInput (p : Program) (f : Function) (v : Value) (shape : Shape) (s : Sharding) : Prop :=
  ∃ (position : Nat) (texts : List String), f.inputs[position]? = some v ∧
    texts.length = f.inputs.length ∧
    texts[position]? = some (p.valueText v ++ ": " ++ (shape.wireType ++ " " ++
      braced ("sdy.sharding = " ++ s.attributeText shape.rank))) ∧
    ⟨1, "func.func @" ++ f.name?.getD "" ++ "(" ++ commaSeparated texts ++ ") -> " ++
      outputTypes f.outputs ++ " \x7b"⟩ ∈ p.lines

/-- The header of the function has a text for every output, and the one at the position is the
type and the sharding. -/
def ShowsOutput (p : Program) (f : Function) (position : Nat) (shape : Shape) (s : Sharding) :
    Prop :=
  ∃ texts : List String, texts.length = f.outputs.length ∧
    texts[position]? = some (shape.wireType ++ " " ++
      braced ("sdy.sharding = " ++ s.attributeText shape.rank)) ∧
    ⟨1, "func.func @" ++ f.name?.getD "" ++ "(" ++ commaSeparated (f.inputs.map p.inputText) ++
      ") -> " ++ ("(" ++ commaSeparated texts ++ ")") ++ " \x7b"⟩ ∈ p.lines

theorem header_mem_lines (hf : p.function? id = some f) (htop : f.isClosure = false) :
    ⟨1, p.functionHeader (f.name?.getD "") f⟩ ∈ p.lines := by
  have hmem : (id, f) ∈ p.topLevel := mem_topLevel.mpr ⟨hf, htop⟩
  refine List.mem_append_left _ (List.mem_append_right _ (List.mem_flatMap.mpr ⟨_, hmem, ?_⟩))
  exact List.mem_append_left _ List.mem_cons_self

theorem showsInput_of_valueData? (hf : p.function? id = some f) (htop : f.isClosure = false)
    {v : Value} (hv : v ∈ f.inputs) {name : ValueName}
    (hdata : p.valueData? v = some ⟨name, shape, some s⟩) : p.ShowsInput f v shape s := by
  obtain ⟨position, hposition⟩ := List.getElem?_of_mem hv
  have htext : p.inputText v = p.valueText v ++ ": " ++ (shape.wireType ++ " " ++
      braced ("sdy.sharding = " ++ s.attributeText shape.rank)) := by
    simp only [inputText, shape?, hdata, Option.map_some, Option.getD_some, Option.bind_some,
      shardedType, shardingText]
  refine ⟨position, f.inputs.map p.inputText, hposition, List.length_map _, ?_,
    header_mem_lines hf htop⟩
  rw [List.getElem?_map, hposition, Option.map_some, htext]

theorem showsOutput_of_output (hf : p.function? id = some f) (htop : f.isClosure = false)
    {position : Nat} {output : Output} (houtput : f.outputs[position]? = some output)
    (hs : output.sharding? = some s) : p.ShowsOutput f position output.shape s := by
  have hany : f.outputs.any (·.sharding?.isSome) = true :=
    List.any_eq_true.mpr ⟨output, List.mem_of_getElem? houtput, by rw [hs]; rfl⟩
  have hresults : outputTypes f.outputs = "(" ++
      commaSeparated (f.outputs.map fun output => shardedType output.shape output.sharding?) ++
        ")" := by
    rw [outputTypes, if_pos hany]
  refine ⟨f.outputs.map fun output => shardedType output.shape output.sharding?,
    List.length_map _, ?_, ?_⟩
  · simp only [List.getElem?_map, houtput, Option.map_some, hs, shardedType, shardingText]
  · rw [← hresults]
    exact header_mem_lines hf htop

omit [NarrowConversions] in
/-- An input with a sharding that was added is a new value with both. -/
theorem run_inputWithSharding_eq_ok {v : Value}
    (h : (Builder.inputWithSharding id shape s).run p = (.ok v, q)) :
    ∃ f name, p.function? id = some f ∧ v = ⟨id, f.values.length⟩ ∧
      q = p.withInput id ⟨name, shape, some s⟩ := by
  have hparts := h
  rw [Builder.inputWithSharding, Builder.run_bind_eq_ok] at hparts
  obtain ⟨f, _, hrun, hparts⟩ := hparts
  obtain ⟨hopen, rfl⟩ := Builder.run_check_eq_ok.mp hrun
  obtain ⟨hf, hopen⟩ := openFunction_eq_ok.mp hopen
  rw [Builder.run_bind_eq_ok] at hparts
  obtain ⟨_, _, hrun, _⟩ := hparts
  obtain ⟨hsharding, rfl⟩ := Builder.run_check_eq_ok.mp hrun
  have hsucceeds := (Builder.inputWithSharding_succeeds hf hopen hsharding).1
  rw [h, Prod.mk.injEq, Except.ok.injEq] at hsucceeds
  exact ⟨f, _, hf, hsucceeds.1, hsucceeds.2⟩

/-- An input keeps the sharding that it was added with, and a top-level function shows it. -/
theorem inputWithSharding_shown {v : Value}
    (hrun : (Builder.inputWithSharding id shape s).run p = (.ok v, q)) (hsteps : Steps q r) :
    ∃ g, r.function? id = some g ∧ (g.isClosure = false → r.ShowsInput g v shape s) := by
  obtain ⟨f, name, hf, rfl, rfl⟩ := run_inputWithSharding_eq_ok hrun
  have hnew := function?_withInput ⟨name, shape, some s⟩ hf id
  rw [hf, Option.map_some] at hnew
  have hdata : (p.withInput id ⟨name, shape, some s⟩).valueData? ⟨id, f.values.length⟩ =
      some ⟨name, shape, some s⟩ := by
    rw [valueData?, hnew]
    simp
  obtain ⟨g, hg, hextends⟩ := hsteps.extends id _ hnew
  have hinput : (⟨id, f.values.length⟩ : Value) ∈ g.inputs :=
    hextends.inputs.subset (by simp)
  exact ⟨g, hg, fun htop =>
    showsInput_of_valueData? hg htop hinput (hsteps.extends.valueData? hdata)⟩

/-- An output keeps the sharding that it was returned with, and a top-level function shows it. -/
theorem returnSharded_shown {values : List Value} {shardings : List (Option Sharding)}
    (hrun : (Builder.returnSharded id values shardings).run p = (.ok (), q)) (hsteps : Steps q r) :
    ∃ g, r.function? id = some g ∧ (g.isClosure = false → ∀ (position : Nat) v s,
      values[position]? = some v → shardings[position]? = some (some s) →
        ∃ shape, p.shape? v = some shape ∧ r.ShowsOutput g position shape s) := by
  obtain ⟨outputs, hreturn, rfl⟩ := Builder.run_returnSharded_eq_ok.mp hrun
  obtain ⟨f, _, hopen, _⟩ := Builder.checkReturn_eq_ok hreturn
  obtain ⟨hf, _⟩ := openFunction_eq_ok.mp hopen
  have hnew := function?_markReturned hf (Builder.returnKind p id) values outputs id
  rw [hf, Option.map_some] at hnew
  obtain ⟨g, hg, hextends⟩ := hsteps.extends id _ hnew
  have hreturned : g.outputs = outputs := by
    rw [Function.outputs, (hextends.frozen (by simp [Function.isReturned])).2.2.2]
    simp
  refine ⟨g, hg, fun htop position v s hv hs => ?_⟩
  obtain ⟨hshapes, hshardings⟩ := Builder.checkReturn_outputs hreturn
  rw [← hshardings, List.getElem?_map, Option.map_eq_some_iff] at hs
  obtain ⟨output, houtput, hs⟩ := hs
  have hshape := congrArg (·[position]?) hshapes
  simp only [List.getElem?_map, hv, houtput, Option.map_some, Option.some.injEq] at hshape
  exact ⟨output.shape, hshape, showsOutput_of_output hg htop (by rwa [hreturned]) hs⟩

end TopLevel

/-- In every program that calls lead to, a sharding that is attached to an input or an output of a
top-level function is shown with it from then on, and the shardings of closures make no difference
to the text. -/
theorem shown_of_calls [NarrowConversions] (name : String) (calls : List Call) :
    let p := Program.ofCalls name calls
    (∀ id shape s v q, (Builder.inputWithSharding id shape s).run p = (.ok v, q) → ∀ later,
      ∃ g, (List.foldl call q later).function? id = some g ∧
        (g.isClosure = false → (List.foldl call q later).ShowsInput g v shape s)) ∧
      (∀ id values shardings q, (Builder.returnSharded id values shardings).run p = (.ok (), q) →
        ∀ later, ∃ g, (List.foldl call q later).function? id = some g ∧
          (g.isClosure = false → ∀ (position : Nat) v s, values[position]? = some v →
            shardings[position]? = some (some s) → ∃ shape, p.shape? v = some shape ∧
              (List.foldl call q later).ShowsOutput g position shape s)) ∧
      p.withoutClosureShardings.text = p.text := by
  refine ⟨fun id shape s v q hrun later => ?_, fun id values shardings q hrun later => ?_, ?_⟩
  · exact inputWithSharding_shown hrun (calls_steps q later)
  · exact returnSharded_shown hrun (calls_steps q later)
  · exact text_withoutClosureShardings (ofCalls_wellScoped name calls)

/-- A reduction over a mesh of two devices.  The first scalar of its closure has a sharding. -/
def annotatedReduction : Program :=
  .ofCalls "p"
    [.addMesh ⟨"mesh", [⟨"x", 2⟩], none⟩,
      .function "main" [.of (.real .f32) [2], .scalar (.real .f32)],
      .closure 0,
      .inputWithSharding 1 (.scalar (.real .f32)) (.replicated ⟨"mesh", [⟨"x", 2⟩], none⟩),
      .input 1 (.scalar (.real .f32)),
      .append 1 (.binary (.binary .add) ⟨1, 0⟩ ⟨1, 1⟩),
      .returnValues 1 [⟨1, 2⟩],
      .append 0 (.reduce [⟨0, 0⟩] [⟨0, 1⟩] [0] 1),
      .returnValues 0 [⟨0, 2⟩]]

/-- The closure is rendered, its first input has a sharding, and its block does not show it. -/
theorem annotatedReduction_text :
    annotatedReduction.rendered = [1] ∧
      (annotatedReduction.valueData? ⟨1, 0⟩).bind ValueData.sharding? =
        some (.replicated ⟨"mesh", [⟨"x", 2⟩], none⟩) ∧
      annotatedReduction.text = "module @p attributes \x7bmhlo.num_partitions = 2 : i32, " ++
          "mhlo.num_replicas = 1 : i32\x7d \x7b\n" ++
        "  sdy.mesh @mesh = <[\"x\"=2]>\n" ++
        "  func.func @main(%arg0: tensor<2xf32>, %arg1: tensor<f32>) -> tensor<f32> \x7b\n" ++
        "    %1 = \"stablehlo.reduce\"(%arg0, %arg1) (\x7b\n" ++
        "    ^body(%arg2: tensor<f32>, %arg3: tensor<f32>):\n" ++
        "      %0 = \"stablehlo.add\"(%arg2, %arg3) : (tensor<f32>, tensor<f32>) -> " ++
          "tensor<f32>\n" ++
        "      \"stablehlo.return\"(%0) : (tensor<f32>) -> ()\n" ++
        "    \x7d) \x7b dimensions = array<i64: 0> \x7d : (tensor<2xf32>, tensor<f32>) -> " ++
          "tensor<f32>\n" ++
        "    \"func.return\"(%1) : (tensor<f32>) -> ()\n" ++
        "  \x7d\n" ++
        "\x7d\n" := by
  refine ⟨by decide, by decide, ?_⟩
  decide +kernel

end Program

end TensorProgram
