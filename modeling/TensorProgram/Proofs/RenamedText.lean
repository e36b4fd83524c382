import TensorProgram.Proofs.RenamedChecks

/-!
# Text under a renaming

Program text shows names of values and no positions of functions.  A tree of functions that is
in two programs under a renaming therefore has the same text in both: `Renamed.statementLines`
for a statement with the closures in it, and `Renamed.functionLines` for the top-level function.
-/

namespace TensorProgram

namespace Program

namespace Renamed

variable {p q : Program} {top id : FunctionId} {ρ : FunctionId → FunctionId} {f : Function}
  (h : p.Renamed top ρ q)

include h

/-! ## Values -/

theorem valueText {v : Value} (hv : p.Member top v.function) :
    q.valueText (v.rename ρ) = p.valueText v := by
  rw [Program.valueText, h.valueData? hv, Program.valueText]

theorem valueType {v : Value} (hv : p.Member top v.function) :
    q.valueType (v.rename ρ) = p.valueType v := by
  rw [Program.valueType, h.shape? hv, Program.valueType]

section Values

variable {values : List Value} (hvalues : ∀ v ∈ values, p.Member top v.function)

include hvalues

theorem map_valueText :
    (values.map (Value.rename ρ)).map q.valueText = values.map p.valueText := by
  rw [List.map_map]
  exact List.map_congr_left fun v hv => h.valueText (hvalues v hv)

theorem map_valueType :
    (values.map (Value.rename ρ)).map q.valueType = values.map p.valueType := by
  rw [List.map_map]
  exact List.map_congr_left fun v hv => h.valueType (hvalues v hv)

theorem map_inputText :
    (values.map (Value.rename ρ)).map q.inputText = values.map p.inputText := by
  rw [List.map_map]
  refine List.map_congr_left fun v hv => ?_
  rw [Function.comp_apply, inputText, h.valueText (hvalues v hv), h.shape? (hvalues v hv),
    h.valueData? (hvalues v hv), inputText]

theorem blockLabel (label : String) :
    q.blockLabel label (values.map (Value.rename ρ)) = p.blockLabel label values := by
  have htyped : (values.map (Value.rename ρ)).map q.typedValue = values.map p.typedValue := by
    rw [List.map_map]
    refine List.map_congr_left fun v hv => ?_
    rw [Function.comp_apply, typedValue, h.valueText (hvalues v hv), h.valueType (hvalues v hv),
      typedValue]
  rw [Program.blockLabel, htyped, List.isEmpty_map, Program.blockLabel]

end Values

/-! ## Statements -/

theorem body (hid : p.Member top id) : q.body (ρ id) = (p.body id).map (Statement.rename ρ) := by
  obtain ⟨⟨f, hf⟩, hroot⟩ := hid
  rw [body_eq (h.function hf hroot), body_eq hf]
  rfl

section Statement

variable (hid : p.Member top id) {s : Statement} (hs : s ∈ p.body id)

include hid hs

theorem member_operand : ∀ v ∈ s.inputs, p.Member top v.function := by
  intro v hv
  obtain ⟨f, hf, hs⟩ := exists_function?_of_mem_body hs
  rwa [(h.wellScoped.known_of_operand hf hs hv).1]

theorem member_output : ∀ v ∈ s.outputs, p.Member top v.function := by
  intro v hv
  obtain ⟨f, hf, hs⟩ := exists_function?_of_mem_body hs
  have hmem : v ∈ f.introduced := List.mem_append_right _ (List.mem_flatMap.mpr ⟨s, hs, hv⟩)
  rwa [(h.wellScoped.known_of_introduced hf hmem).1]

theorem statementHead : q.statementHead (s.rename ρ) = p.statementHead s := by
  rw [Program.statementHead, Statement.rename, h.map_valueText (h.member_operand hid hs),
    h.map_valueText (h.member_output hid hs), List.isEmpty_map, Program.statementHead]

theorem statementType : q.statementType (s.rename ρ) = p.statementType s := by
  rw [Program.statementType, Statement.rename, h.map_valueType (h.member_operand hid hs),
    h.map_valueType (h.member_output hid hs), Program.statementType]

variable [NarrowConversions]

/-- A statement has the same lines if the statements in its closure have. -/
theorem statementLinesWith {nested nested' : Statement → List Line} (depth : Nat)
    (hnested : ∀ c, p.Member top c → ∀ t ∈ p.body c, nested' (t.rename ρ) = nested t) :
    q.statementLinesWith nested' depth (s.rename ρ) = p.statementLinesWith nested depth s := by
  have hhead := h.statementHead hid hs
  have htype := h.statementType hid hs
  have hattributes : (s.rename ρ).attributes = s.attributes := rfl
  have hclosure : (s.rename ρ).closure? = s.closure?.map (ClosureUse.rename ρ) := rfl
  unfold Program.statementLinesWith
  cases huse : s.closure? with
  | none => simp only [hclosure, huse, Option.map_none, hhead, htype, hattributes]
  | some use =>
    have hmember := h.forest.member_use hs hid.2 huse
    obtain ⟨⟨c, hc⟩, hroot⟩ := hmember
    have hblock : q.blockLines nested' depth (use.rename ρ) = p.blockLines nested depth use := by
      have hbody : (c.statements.map (Statement.rename ρ)).flatMap nested' =
          c.statements.flatMap nested := by
        rw [List.flatMap_map]
        exact List.flatMap_congr fun t ht => hnested use.function ⟨⟨c, hc⟩, hroot⟩ t
          (by rwa [body_eq hc])
      have hq : q.function? (use.rename ρ).function = some (c.rename ρ) := h.function hc hroot
      simp only [blockLines, hq, hc]
      rw [Function.rename, h.blockLabel (h.member_input hc hroot), hbody]
      rfl
    simp only [hclosure, huse, Option.map_some, hblock, hhead, htype, hattributes]

end Statement

variable [NarrowConversions]

/-- The lines of a statement show no positions of functions, however deep closures go. -/
theorem statementLinesUpTo (nesting depth : Nat) (hid : p.Member top id) {s : Statement}
    (hs : s ∈ p.body id) :
    q.statementLinesUpTo nesting depth (s.rename ρ) = p.statementLinesUpTo nesting depth s := by
  induction nesting generalizing depth id s with
  | zero => exact h.statementLinesWith hid hs depth fun _ _ _ _ => rfl
  | succ nesting ih =>
    exact h.statementLinesWith hid hs depth fun c hc t ht => ih (depth + 1) hc ht

/-- Both programs allow for closures deep enough. -/
theorem statementLines (hq : q.Forest) (depth : Nat) (hid : p.Member top id) {s : Statement}
    (hs : s ∈ p.body id) : q.statementLines depth (s.rename ρ) = p.statementLines depth s := by
  have hs' : s.rename ρ ∈ q.body (ρ id) := by
    rw [h.body hid]
    exact List.mem_map_of_mem hs
  rw [← hq.statementLinesUpTo_eq hs' depth (Nat.le_max_right p.functions.length _),
    ← h.forest.statementLinesUpTo_eq hs depth (Nat.le_max_left _ q.functions.length),
    h.statementLinesUpTo _ depth hid hs]

/-- The top-level function has the same text in both programs. -/
theorem functionLines (hq : q.Forest) (hf : p.function? top = some f) :
    q.functionLines (f.rename ρ) = p.functionLines f := by
  have htop := h.member_top
  have hheader : q.functionHeader ((f.rename ρ).name?.getD "") (f.rename ρ) =
      p.functionHeader (f.name?.getD "") f := by
    have hinputs : (f.rename ρ).inputs = f.inputs.map (Value.rename ρ) := rfl
    have houtputs : (f.rename ρ).outputs = f.outputs := rfl
    delta functionHeader
    rw [Function.name?_rename, hinputs, h.map_inputText (h.member_input hf htop.2), houtputs]
  have hlines : (f.statements.map (Statement.rename ρ)).flatMap (q.statementLines 2) =
      f.statements.flatMap (p.statementLines 2) := by
    rw [List.flatMap_map]
    exact List.flatMap_congr fun s hs => h.statementLines hq 2 htop (by rwa [body_eq hf])
  rw [Program.functionLines, hheader, Function.rename, hlines, Program.functionLines]

end Renamed

end Program

end TensorProgram
