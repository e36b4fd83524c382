import Mathlib.Data.List.Perm.Basic
import Mathlib.Data.String.Basic
import TensorProgram.NearestConversions
import TensorProgram.Proofs.Channels
import TensorProgram.Proofs.Recorded

/-!
# Attributes of custom calls

The attributes of a statement are a table, sorted by name and with no name twice,
`AttributeTable.sorted_ofList`.  It holds the last value that was given for each name,
`AttributeTable.find?_ofList`, and values with different names may be given in any order,
`AttributeTable.ofList_perm`.

A custom call is given attributes, and its target and its side effect are attributes too that come
after them.  So the target is always the one of the call.  A side effect that is asked for is
recorded, but one that is not asked for adds no attribute, and then a value given for its name
stays: `Builder.customCall_recorded`, and `Builder.sideEffect_given` for a call that gives one.
-/

namespace TensorProgram

namespace AttributeTable

variable {name key : String} {value : Attribute} {table : AttributeTable}
  {attributes attributes' : List (String × Attribute)}

/-! ## Values by name -/

theorem find?_insert_of_ne (h : key ≠ name) (value : Attribute) (table : AttributeTable) :
    (table.insert name value).find? key = table.find? key := by
  have hbeq : (key == name) = false := beq_false_of_ne h
  induction table with
  | nil => simp only [insert, find?, List.lookup_cons, hbeq]
  | cons entry table ih =>
    obtain ⟨other, old⟩ := entry
    unfold insert
    split_ifs with hlt heq
    · simp [find?, List.lookup_cons, hbeq]
    · subst heq
      simp [find?, List.lookup_cons, hbeq]
    · simp only [find?, List.lookup_cons] at ih ⊢
      rw [ih]

/-- The last value that is given for a name. -/
def lastGiven? (attributes : List (String × Attribute)) (name : String) : Option Attribute :=
  attributes.reverse.lookup name

theorem lastGiven?_concat (attributes : List (String × Attribute)) (key name : String)
    (value : Attribute) : lastGiven? (attributes ++ [(key, value)]) name =
      if name = key then some value else lastGiven? attributes name := by
  rw [lastGiven?, List.reverse_append, List.reverse_singleton, List.singleton_append,
    List.lookup_cons]
  split_ifs with h
  · rw [beq_iff_eq.mpr h]
  · rw [beq_false_of_ne h, lastGiven?]

/-- A table holds the last value that is given for each name. -/
theorem find?_ofList (attributes : List (String × Attribute)) (name : String) :
    (ofList attributes).find? name = lastGiven? attributes name := by
  induction attributes using List.reverseRecOn with
  | nil => rfl
  | append_singleton attributes entry ih =>
    obtain ⟨key, value⟩ := entry
    rw [lastGiven?_concat, ofList, List.foldl_append]
    split_ifs with h
    · subst h
      exact find?_insert name value _
    · exact (find?_insert_of_ne h value _).trans ih

theorem mem_of_find? (h : table.find? name = some value) : (name, value) ∈ table := by
  obtain ⟨before, after, rfl, _⟩ := List.lookup_eq_some_iff.mp h
  exact List.mem_append_right _ List.mem_cons_self

/-! ## Order -/

/-- The names stand in order, each of them once. -/
def Sorted (table : AttributeTable) : Prop :=
  (table.map Prod.fst).Pairwise (· < ·)

theorem mem_insert_fst (h : key ∈ (table.insert name value).map Prod.fst) :
    key = name ∨ key ∈ table.map Prod.fst := by
  induction table with
  | nil => simpa [insert] using h
  | cons entry table ih =>
    obtain ⟨other, old⟩ := entry
    unfold insert at h
    split_ifs at h with hlt heq
    · simpa using h
    · simpa [heq] using h
    · rcases List.mem_cons.mp h with rfl | h
      · exact .inr List.mem_cons_self
      · rcases ih h with rfl | h
        · exact .inl rfl
        · exact .inr (List.mem_cons_of_mem _ h)

theorem sorted_insert (h : table.Sorted) : (table.insert name value).Sorted := by
  induction table with
  | nil => exact List.pairwise_singleton _ _
  | cons entry table ih =>
    obtain ⟨other, old⟩ := entry
    obtain ⟨hfirst, hrest⟩ := List.pairwise_cons.mp h
    unfold insert
    split_ifs with hlt heq
    · refine List.pairwise_cons.mpr ⟨fun key hkey => ?_, h⟩
      rcases List.mem_cons.mp hkey with rfl | hkey
      · exact hlt
      · exact hlt.trans (hfirst key hkey)
    · subst heq
      exact h
    · refine List.pairwise_cons.mpr ⟨fun key hkey => ?_, ih hrest⟩
      rcases mem_insert_fst hkey with rfl | hkey
      · exact lt_of_le_of_ne (not_lt.mp hlt) (Ne.symm heq)
      · exact hfirst key hkey

theorem sorted_ofList (attributes : List (String × Attribute)) : (ofList attributes).Sorted := by
  induction attributes using List.reverseRecOn with
  | nil => exact List.Pairwise.nil
  | append_singleton attributes entry ih =>
    rw [ofList, List.foldl_append]
    exact sorted_insert ih

/-- Values with different names can be put into a table in either order. -/
theorem insert_comm (h : name ≠ key) (value value' : Attribute) (table : AttributeTable) :
    (table.insert name value).insert key value' = (table.insert key value').insert name value := by
  induction table with
  | nil => grind [insert]
  | cons entry table ih =>
    -- which of the three names is first decides where the new ones go
    obtain ⟨other, old⟩ := entry
    grind [insert]

/-- The order in which values with different names are given makes no difference. -/
theorem ofList_perm (h : attributes.Perm attributes') (hnames : (attributes.map Prod.fst).Nodup) :
    ofList attributes = ofList attributes' := by
  refine h.foldl_eq' (fun x hx y hy table => ?_) []
  by_cases hname : x.1 = y.1
  · rw [List.inj_on_of_nodup_map hnames hx hy hname]
  · exact insert_comm hname x.2 y.2 table

/-- Values that are given after those of one table. -/
theorem ofList_append_congr (h : ofList attributes = ofList attributes')
    (more : List (String × Attribute)) :
    ofList (attributes ++ more) = ofList (attributes' ++ more) := by
  simp only [ofList, List.foldl_append] at h ⊢
  rw [h]

end AttributeTable

/-! ## Recorded calls -/

/-- The attributes of a statement that calls a target: the target, the side effect if it was asked
for, and under every other name the last value that was given. -/
structure Statement.RecordsCall [NarrowConversions] (s : Statement) (target : String)
    (hasSideEffect : Bool) (attributes : List (String × Attribute)) : Prop where
  op : s.op = .customCall
  sorted : s.attributes.Sorted
  callTarget : s.attributes.find? "call_target_name" = some (.string target)
  targetText : "call_target_name = " ++ Quoted.quote target ∈ s.attributes.map Program.attributeText
  effect : hasSideEffect = true → s.attributes.find? "has_side_effect" = some (.boolean true)
  given : ∀ name, name ≠ "call_target_name" → (hasSideEffect = true → name ≠ "has_side_effect") →
    s.attributes.find? name = AttributeTable.lastGiven? attributes name

section Recorded

variable [NarrowConversions] {s : Statement} {target : String} {hasSideEffect : Bool}
  {attributes : List (String × Attribute)}

theorem Statement.recordsCall_of_attributes (hop : s.op = .customCall)
    (h : s.attributes = .ofList (attributes ++ ("call_target_name", .string target) ::
      if hasSideEffect then [("has_side_effect", .boolean true)] else [])) :
    s.RecordsCall target hasSideEffect attributes := by
  have hfind (name : String) : s.attributes.find? name =
      if hasSideEffect = true ∧ name = "has_side_effect" then some (.boolean true)
      else if name = "call_target_name" then some (.string target)
      else AttributeTable.lastGiven? attributes name := by
    rw [h, AttributeTable.find?_ofList, ← List.singleton_append, ← List.append_assoc]
    cases hasSideEffect with
    | true => simp only [if_true, true_and, AttributeTable.lastGiven?_concat]
    | false => simp [AttributeTable.lastGiven?_concat]
  have htarget : s.attributes.find? "call_target_name" = some (.string target) := by
    simp [hfind]
  refine ⟨hop, h ▸ AttributeTable.sorted_ofList _, htarget, ?_, ?_, ?_⟩
  · exact List.mem_map_of_mem (AttributeTable.mem_of_find? htarget)
  · intro heffect
    simp [hfind, heffect]
  · intro name hname heffect
    have hnot : ¬(hasSideEffect = true ∧ name = "has_side_effect") := fun h => heffect h.1 h.2
    rw [hfind, if_neg hnot, if_neg hname]

/-- The side effect is recorded when it is asked for, and also when it is given. -/
theorem Statement.RecordsCall.effect_iff (h : s.RecordsCall target hasSideEffect attributes) :
    s.attributes.find? "has_side_effect" = some (.boolean true) ↔
      hasSideEffect = true ∨
        AttributeTable.lastGiven? attributes "has_side_effect" = some (.boolean true) := by
  cases heffect : hasSideEffect with
  | true => simp [h.effect heffect]
  | false => simp [h.given "has_side_effect" (by decide) (by simp [heffect])]

end Recorded

namespace Builder

open Program

variable {p q : Program} {id : FunctionId} {values inputs : List Value} {target : String}
  {outputs : List Shape} {hasSideEffect : Bool} {attributes attributes' : List (String × Attribute)}

/-- A call adds a statement that records it. -/
theorem run_customCall_recorded [NarrowConversions]
    (h : (append id (.customCall target inputs outputs hasSideEffect attributes)).run p =
      (.ok values, q)) :
    ∃ s, q.body id = p.body id ++ [s] ∧ s.RecordsCall target hasSideEffect attributes := by
  obtain ⟨shaped, shapes, s, htraverse, _, hbody, _, _, hrecords⟩ := run_append_records rfl h
  simp only [Operation.traverse, bind_eq_ok, pure_eq_ok, Except.ok.injEq] at htraverse
  obtain ⟨operands, _, rfl⟩ := htraverse
  exact ⟨s, hbody, Statement.recordsCall_of_attributes hrecords.op hrecords.attributes⟩

theorem addStatement_of_ofList_eq (op : OpKind) (closure? : Option ClosureUse)
    (h : AttributeTable.ofList attributes = AttributeTable.ofList attributes') :
    p.addStatement id op inputs attributes closure? outputs =
      p.addStatement id op inputs attributes' closure? outputs := by
  rw [addStatement, addStatement, h]

/-- The order of attributes with different names makes no difference to a call. -/
theorem run_customCall_perm (hperm : attributes.Perm attributes')
    (hnames : (attributes.map Prod.fst).Nodup)
    (h : (append id (.customCall target inputs outputs hasSideEffect attributes)).run p =
      (.ok values, q)) :
    (append id (.customCall target inputs outputs hasSideEffect attributes')).run p =
      (.ok values, q) := by
  obtain ⟨f, shaped, shapes, hf, hopen, hresolve, rfl, rfl⟩ := run_append_eq_ok.mp h
  obtain ⟨hfunction, htraverse, hinfer⟩ := resolve_eq_ok.mp hresolve
  simp only [Operation.traverse, bind_eq_ok, pure_eq_ok, Except.ok.injEq] at htraverse
  obtain ⟨operands, hoperands, rfl⟩ := htraverse
  refine run_append_eq_ok.mpr
    ⟨f, .customCall target operands outputs hasSideEffect attributes', shapes, hf, hopen,
      resolve_eq_ok.mpr ⟨hfunction, ?_, hinfer⟩, rfl, ?_⟩
  · simp only [Operation.traverse, bind_eq_ok, pure_eq_ok, Except.ok.injEq]
    exact ⟨operands, hoperands, rfl⟩
  · refine congrArg Prod.snd (addStatement_of_ofList_eq _ _ ?_)
    simp only [Operation.explicit, Operation.attributes, List.append_assoc]
    exact AttributeTable.ofList_append_congr (AttributeTable.ofList_perm hperm hnames) _

/-- A call that succeeds records its target, whatever attributes it is given.  It records that it
has a side effect when this is asked for, and otherwise what is given for that name, as for every
other one.  Given attributes with different names may stand in any order. -/
theorem customCall_recorded [NarrowConversions]
    (h : (append id (.customCall target inputs outputs hasSideEffect attributes)).run p =
      (.ok values, q)) :
    (∃ s, q.body id = p.body id ++ [s] ∧ s.RecordsCall target hasSideEffect attributes ∧
      (s.attributes.find? "has_side_effect" = some (.boolean true) ↔
        hasSideEffect = true ∨
          AttributeTable.lastGiven? attributes "has_side_effect" = some (.boolean true))) ∧
      ∀ attributes', attributes.Perm attributes' → (attributes.map Prod.fst).Nodup →
        (append id (.customCall target inputs outputs hasSideEffect attributes')).run p =
          (.ok values, q) := by
  obtain ⟨s, hbody, hs⟩ := run_customCall_recorded h
  exact ⟨⟨s, hbody, hs, hs.effect_iff⟩, fun _ hperm hnames => run_customCall_perm hperm hnames h⟩

/-- A call with two attributes, and a target that is not its own among them. -/
theorem customCall_recorded_target :
    let p := Program.ofCalls "p" [.function "main" [.of (.real .f32) [2]]]
    let given : List (String × Attribute) :=
      [("rank", .integer 1), ("call_target_name", .string "other"), ("axis", .integer 0)]
    let moved : List (String × Attribute) :=
      [("call_target_name", .string "other"), ("axis", .integer 0), ("rank", .integer 1)]
    let run (attributes : List (String × Attribute)) :=
      (append 0 (.customCall "target" [⟨0, 0⟩] [.of (.real .f32) [2]] true attributes)).run p
    (run given).1 = .ok [⟨0, 1⟩] ∧
      (∃ s, (run given).2.body 0 = [s] ∧ s.RecordsCall "target" true given) ∧
      given.Perm moved ∧ (given.map Prod.fst).Nodup ∧ run moved = run given := by
  intro p given moved run
  have hvalues : (run given).1 = .ok [⟨0, 1⟩] := by decide
  have hrun : run given = (.ok [⟨0, 1⟩], (run given).2) := Prod.ext hvalues rfl
  have hperm : given.Perm moved := by decide
  have hnames : (given.map Prod.fst).Nodup := by decide
  obtain ⟨⟨s, hbody, hs, _⟩, hmoved⟩ := customCall_recorded hrun
  have hfirst : p.body 0 = [] := by decide
  rw [hfirst] at hbody
  exact ⟨hvalues, ⟨s, hbody, hs⟩, hperm, hnames, (hmoved moved hperm hnames).trans hrun.symm⟩

/-- A call without a side effect that is given one records it. -/
theorem sideEffect_given :
    let p := Program.ofCalls "p" [.function "main" []]
    let result :=
      (append 0 (.customCall "t" [] [] false [("has_side_effect", .boolean true)])).run p
    result.1 = .ok [] ∧
      (result.2.body 0).map (·.attributes.find? "has_side_effect") = [some (.boolean true)] := by
  decide

end Builder

end TensorProgram
