import TensorProgram.Program.Text
import TensorProgram.Proofs.FunctionNames
import TensorProgram.Proofs.TensorTypes

/-!
# Texts on one line

What stands on the lines of a statement is put together from names of values, spellings of
operations, tensor types, labels of blocks and attributes.  None of them but attributes can have a
line break: a name that was given is normalized, and a label is one of those that operations give
to their computations.  `Function.Unbroken` says so of what a function holds, and
`ofCalls_unbroken` of all programs that calls lead to.
-/

namespace TensorProgram

/-- The text has no line break. -/
def OneLine (text : String) : Prop :=
  '\n' ∉ text.toList

instance (text : String) : Decidable (OneLine text) :=
  inferInstanceAs (Decidable ('\n' ∉ text.toList))

namespace OneLine

theorem append_iff {x y : String} : OneLine (x ++ y) ↔ OneLine x ∧ OneLine y := by
  unfold OneLine
  rw [String.toList_append, List.mem_append, not_or]

theorem append {x y : String} (hx : OneLine x) (hy : OneLine y) : OneLine (x ++ y) :=
  append_iff.mpr ⟨hx, hy⟩

theorem toString_nat (n : Nat) : OneLine (toString n) := fun h =>
  absurd (isDigit_of_mem_toString h) (by decide)

theorem commaSeparated {texts : List String} (h : ∀ text ∈ texts, OneLine text) :
    OneLine (Program.commaSeparated texts) :=
  notMem_intercalate (by decide) (by decide) h

theorem normalize (text : String) : OneLine (Identifier.normalize text) := by
  intro h
  rw [Identifier.normalize, String.toList_ofList] at h
  exact absurd (Identifier.isWordChar_of_mem_normalizeChars h) (by decide)

end OneLine

/-! ## Spellings -/

namespace Identifier

theorem toLower_ne_newline {c : Char} (h : c ≠ '\n') : c.toLower ≠ '\n' := by
  intro hlower
  unfold Char.toLower at hlower
  split_ifs at hlower with hupper
  · have hle : c.toNat ≤ 90 := UInt32.le_iff_toNat_le.mp hupper.2
    have hcode : (c.toNat + 32) % 4294967296 = 10 := by
      simpa using congrArg (fun d : Char => d.val.toNat) hlower
    omega
  · exact h hlower

theorem newline_notMem_snakeCaseChars (previous : Option Char) {cs : List Char} (h : '\n' ∉ cs) :
    '\n' ∉ snakeCaseChars previous cs := by
  induction cs generalizing previous with
  | nil => exact List.not_mem_nil
  | cons c cs ih =>
    obtain ⟨hc, hcs⟩ := List.ne_and_not_mem_of_not_mem_cons h
    have hlower := (toLower_ne_newline hc.symm).symm
    rw [snakeCaseChars, List.mem_append, not_or]
    refine ⟨?_, ih (some c) hcs⟩
    split_ifs
    · simp [hlower]
    · simp [hlower]
    · simp [hc]

end Identifier

theorem OpKind.oneLine_wireName (op : OpKind) : OneLine op.wireName := by
  have hname : OneLine op.name := by
    cases op with
    | unary op => cases op <;> decide +kernel
    | binary op => cases op <;> decide +kernel
    | _ => decide +kernel
  have hsnake : OneLine ("stablehlo." ++ Identifier.snakeCase op.name) := by
    refine .append (by decide) ?_
    rw [OneLine, Identifier.snakeCase, String.toList_ofList]
    exact Identifier.newline_notMem_snakeCaseChars none hname
  cases op with
  | functionReturn | argMinMax => decide
  | _ => exact hsnake

namespace Shape

theorem oneLine_wireType (s : Shape) : OneLine s.wireType := by
  have htoken : ∀ token ∈ tokens, OneLine token := by decide +kernel
  have hextents : '\n' ∉ extents s.dimensions := by
    intro h
    obtain ⟨extent, _, h⟩ := List.mem_flatMap.mp h
    rcases List.mem_append.mp h with h | h
    · exact OneLine.toString_nat extent h
    · exact absurd h (by decide)
  rw [OneLine, toList_wireType, List.mem_append, List.mem_append, List.mem_append]
  rintro (h | h | h | h)
  · exact absurd h (by decide)
  · exact hextents h
  · exact htoken _ s.elementToken_mem h
  · exact absurd h (by decide)

end Shape

/-! ## Names and labels -/

namespace Operation

/-- Labels do not depend on what an operation is given. -/
theorem oneLine_label {ω κ : Type} {o : Operation ω κ} {label : String} {c : κ}
    (h : o.computation? = some (label, c)) : OneLine label := by
  cases o <;> simp only [computation?, reduceCtorEq, Option.some.injEq, Prod.mk.injEq] at h
  all_goals
    obtain ⟨rfl, rfl⟩ := h
    decide

end Operation

namespace ValueName

theorem oneLine_argument (position : Nat) : OneLine (argument position).render :=
  .append (by decide) (.append (by decide) (.toString_nat position))

theorem oneLine_numbered (number : Nat) : OneLine (numbered number).render :=
  .append (by decide) (.toString_nat number)

end ValueName

/-- Names of values and labels of blocks have no line breaks. -/
structure Function.Unbroken (f : Function) : Prop where
  names : ∀ data ∈ f.values, OneLine data.name.render
  labels : ∀ s ∈ f.statements, ∀ use, s.closure? = some use → OneLine use.label

theorem Function.Unbroken.grow {f g : Function} (h : f.Unbroken) {data : List ValueData}
    {statements : List Statement} (hvalues : g.values = f.values ++ data)
    (hstatements : g.statements = f.statements ++ statements)
    (hdata : ∀ d ∈ data, OneLine d.name.render)
    (hlabels : ∀ s ∈ statements, ∀ use, s.closure? = some use → OneLine use.label) :
    g.Unbroken where
  names := by
    rw [hvalues]
    exact List.forall_mem_append.mpr ⟨h.names, hdata⟩
  labels := by
    rw [hstatements]
    exact List.forall_mem_append.mpr ⟨h.labels, hlabels⟩

/-- The rest of a function does not matter. -/
theorem Function.Unbroken.congr {f g : Function} (h : f.Unbroken) (hvalues : g.values = f.values)
    (hstatements : g.statements = f.statements) : g.Unbroken :=
  ⟨hvalues ▸ h.names, hstatements ▸ h.labels⟩

namespace Program

/-- No function holds a name or a label with a line break. -/
def Unbroken (p : Program) : Prop :=
  ∀ id f, p.function? id = some f → f.Unbroken

variable {p q : Program}

theorem unbroken_empty (name : String) : (Program.empty name).Unbroken :=
  fun _ _ hf => nomatch hf

theorem Unbroken.newFunction (hp : p.Unbroken) (role : Role) :
    (p.addFunction role).2.Unbroken :=
  forall_of_new (function?_addFunction p role) ⟨(fun _ h => nomatch h), (fun _ h => nomatch h)⟩ hp

theorem InputName.oneLine {id : FunctionId} {name : ValueName} (h : InputName p id name) :
    OneLine name.render := by
  cases h with
  | positional => exact ValueName.oneLine_argument _
  | @named text name hname =>
    simp only [Builder.newInputName, bind_eq_ok, require_eq_ok, pure_eq_ok, Except.ok.injEq]
      at hname
    obtain ⟨_, _, _, _, rfl⟩ := hname
    exact .append (by decide) (.normalize text)

theorem Step.unbroken (h : Step p q) (hp : p.Unbroken) : q.Unbroken := by
  cases h with
  | function hname => exact hp.newFunction _
  | closure hf hopen => exact hp.newFunction _
  | counts hmeshes => exact hp
  | mesh hmesh => exact hp
  | @input id f data hf hopen hname hsharding =>
    refine forall_of_change (function?_withInput data hf) hf ?_ fun j g hj hg => ?_
    · exact (hp id f hf).grow (if_pos rfl) (List.append_nil _).symm
        (by simpa using hname.oneLine) (fun _ h => nomatch h)
    · exact (hp j g hg).congr (if_neg hj) rfl
  | @operation id f o shaped outputs hf hopen hresolve =>
    refine forall_of_change (function?_withOperation hf o shaped outputs) hf ?_
      fun j g hj hg => ?_
    · refine (hp id f hf).grow (if_pos rfl) (if_pos rfl) ?_ ?_
      · intro d hd
        obtain ⟨i, hi⟩ := List.mem_iff_getElem?.mp hd
        rw [(name_of_getElem?_numberedData hi).2]
        exact ValueName.oneLine_numbered _
      · intro s hs use huse
        obtain rfl := List.mem_singleton.mp hs
        obtain ⟨⟨label, c⟩, hc, rfl⟩ := Option.map_eq_some_iff.mp huse
        exact Operation.oneLine_label hc
    · exact (hp j g hg).congr (if_neg hj) (if_neg hj)
  | @«return» id f values shardings outputs hf hopen hreturn =>
    refine forall_of_change (function?_markReturned hf (Builder.returnKind p id) values outputs) hf
      ?_ fun j g hj hg => ?_
    · refine (hp id f hf).grow (List.append_nil _).symm (if_pos rfl) (fun _ h => nomatch h) ?_
      intro s hs use huse
      obtain rfl := List.mem_singleton.mp hs
      cases huse
    · exact (hp j g hg).congr rfl (if_neg hj)

theorem ofCalls_unbroken (name : String) (calls : List Call) :
    (Program.ofCalls name calls).Unbroken :=
  ofCalls_induction unbroken_empty (fun _ _ hp hstep => hstep.unbroken hp) name calls

/-! ## Parts of a statement -/

theorem oneLine_valueText (hp : p.Unbroken) (v : Value) : OneLine (p.valueText v) := by
  have hunknown : OneLine "%<unknown>" := by decide
  unfold valueText valueData?
  cases hf : p.function? v.function with
  | none => exact hunknown
  | some f =>
    rw [Option.bind_some]
    cases hdata : f.values[v.index]? with
    | none => exact hunknown
    | some data => exact (hp _ f hf).names data (List.mem_of_getElem? hdata)

theorem oneLine_valueType (p : Program) (v : Value) : OneLine (p.valueType v) :=
  Shape.oneLine_wireType _

theorem oneLine_resultTypes {types : List String} (h : ∀ type ∈ types, OneLine type) :
    OneLine (resultTypes types) := by
  unfold resultTypes
  split
  · exact h _ List.mem_cons_self
  · exact .append (.append (by decide) (.commaSeparated h)) (by decide)

theorem oneLine_statementHead (hp : p.Unbroken) (s : Statement) : OneLine (p.statementHead s) := by
  have hvalues (values : List Value) : OneLine (commaSeparated (values.map p.valueText)) :=
    .commaSeparated (List.forall_mem_map.mpr fun v _ => oneLine_valueText hp v)
  have houtputs : OneLine (if s.outputs.isEmpty then ""
      else commaSeparated (s.outputs.map p.valueText) ++ " = ") := by
    split_ifs
    · decide
    · exact .append (hvalues _) (by decide)
  exact .append (.append (.append (.append (.append houtputs (by decide)) s.op.oneLine_wireName)
    (by decide)) (hvalues _)) (by decide)

theorem oneLine_statementType (p : Program) (s : Statement) : OneLine (p.statementType s) := by
  have htypes (values : List Value) : ∀ type ∈ values.map p.valueType, OneLine type :=
    List.forall_mem_map.mpr fun v _ => oneLine_valueType p v
  exact .append (.append (.append (by decide) (.commaSeparated (htypes _))) (by decide))
    (oneLine_resultTypes (htypes _))

theorem oneLine_blockLabel (hp : p.Unbroken) {label : String} (hlabel : OneLine label)
    (inputs : List Value) : OneLine (p.blockLabel label inputs) := by
  have htyped : ∀ text ∈ inputs.map p.typedValue, OneLine text :=
    List.forall_mem_map.mpr fun v _ =>
      .append (.append (oneLine_valueText hp v) (by decide)) (oneLine_valueType p v)
  have hstart : OneLine ("^" ++ label) := .append (by decide) hlabel
  unfold blockLabel
  split_ifs
  · exact .append hstart (by decide)
  · exact .append (.append (.append hstart (by decide)) (.commaSeparated htyped)) (by decide)

end Program

end TensorProgram
