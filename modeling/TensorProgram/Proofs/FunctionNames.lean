import Mathlib.Data.List.Nodup
import TensorProgram.Proofs.Calls
import TensorProgram.Proofs.Rendered

/-!
# Names of functions

A new top-level function takes a normalized name that no function has.  Normalization gives
identifiers, `Identifier.isIdentifier_normalize`, and roles never change, so the names of
top-level functions are different identifiers: `ofCalls_functionNames`.
-/

namespace TensorProgram

/-! ## Normalized text -/

namespace Identifier

theorem mem_guardDigit {cs : List Char} {c : Char} (h : c ∈ guardDigit cs) :
    c = '_' ∨ c ∈ cs := by
  cases cs with
  | nil => cases h
  | cons d rest =>
    simp only [guardDigit] at h
    split_ifs at h
    · exact List.mem_cons.mp h
    · exact .inr h

theorem isWordChar_of_mem_normalizeChars {cs : List Char} {c : Char}
    (h : c ∈ normalizeChars cs) : isWordChar c = true := by
  rcases mem_guardDigit h with rfl | hc
  · decide
  · obtain ⟨d, _, rfl⟩ := List.mem_map.mp hc
    split_ifs with hd
    · exact hd
    · decide

/-- Nothing is left to put in front of guarded characters. -/
theorem guardDigit_guardDigit (cs : List Char) : guardDigit (guardDigit cs) = guardDigit cs := by
  cases cs with
  | nil => rfl
  | cons c rest =>
    cases hc : c.isDigit with
    | true => simp [guardDigit, hc]
    | false => simp [guardDigit, hc]

theorem normalizeChars_normalizeChars (cs : List Char) :
    normalizeChars (normalizeChars cs) = normalizeChars cs := by
  have hmap : (normalizeChars cs).map (fun c => if isWordChar c then c else '_') =
      normalizeChars cs := by
    have hid : ∀ c ∈ normalizeChars cs, (if isWordChar c then c else '_') = c :=
      fun c hc => if_pos (isWordChar_of_mem_normalizeChars hc)
    rw [List.map_congr_left hid, List.map_id']
  rw [normalizeChars, hmap, normalizeChars, guardDigit_guardDigit]

theorem normalize_normalize (text : String) : normalize (normalize text) = normalize text := by
  simp only [normalize, String.toList_ofList, normalizeChars_normalizeChars]

/-- Normalization gives identifiers, except for the empty text. -/
theorem isIdentifier_normalize {text : String} (h : normalize text ≠ "") :
    isIdentifier (normalize text) = true := by
  simp [isIdentifier, h, normalize_normalize]

/-- An identifier has word characters only. -/
theorem isWordChar_of_mem {text : String} (h : isIdentifier text = true) {c : Char}
    (hc : c ∈ text.toList) : isWordChar c = true := by
  have hnormal : normalize text = text := by simpa using (Bool.and_eq_true_iff.mp h).2
  rw [← hnormal, normalize, String.toList_ofList] at hc
  exact isWordChar_of_mem_normalizeChars hc

end Identifier

namespace Program

/-! ## Names of top-level functions -/

/-- The names of the functions that have one, in order. -/
def functionNames (p : Program) : List String :=
  p.functions.filterMap Function.name?

variable {p q : Program}

/-- Exactly the top-level functions have names. -/
theorem map_name?_topLevel (p : Program) :
    (p.topLevel.map fun entry => entry.2.name?) = p.functionNames.map some := by
  have hfunctions : p.topLevel.map Prod.snd = p.functions.filter fun f => !f.isClosure := by
    have hzip := List.filter_map (f := Prod.fst) (p := fun f : Function => !f.isClosure)
      (l := p.functions.zipIdx)
    rw [List.zipIdx_map_fst] at hzip
    rw [hzip, topLevel, List.map_map]
    rfl
  have hnames (fs : List Function) :
      (fs.filter fun f => !f.isClosure).map Function.name? =
        (fs.filterMap Function.name?).map some := by
    induction fs with
    | nil => rfl
    | cons f fs ih =>
      cases hrole : f.role with
      | topLevel name =>
        have hname : f.name? = some name := by simp [Function.name?, hrole]
        simp [isClosure_of_topLevel hrole, hname, ih]
      | closure parent root =>
        have hname : f.name? = none := by simp [Function.name?, hrole]
        simp [isClosure_of_closure hrole, hname, ih]
  rw [functionNames, ← hnames, ← hfunctions, List.map_map]
  rfl

theorem find?_eq_none_iff {name : String} : p.find? name = none ↔ name ∉ p.functionNames := by
  have hmem : some name ∈ p.topLevel.map (fun entry => entry.2.name?) ↔ name ∈ p.functionNames := by
    rw [map_name?_topLevel]
    simp
  rw [← hmem, find?, Option.map_eq_none_iff, List.find?_eq_none, List.mem_map, not_exists]
  refine forall_congr' fun entry => ?_
  rw [not_and, beq_iff_eq]

theorem functionNames_addFunction (p : Program) (role : Role) :
    (p.addFunction role).2.functionNames =
      p.functionNames ++ (Function.ofRole role).name?.toList := by
  unfold functionNames addFunction
  rw [List.filterMap_append]
  cases role with
  | topLevel name => rfl
  | closure parent root => rfl

/-- Names are a matter of roles. -/
theorem functionNames_of_map {change : FunctionId → Function → Function}
    (hq : ∀ j, q.function? j = (p.function? j).map (change j))
    (hrole : ∀ j f, (change j f).role = f.role) : q.functionNames = p.functionNames := by
  have hnames : q.functions.map Function.name? = p.functions.map Function.name? := by
    apply List.ext_getElem?
    intro j
    rw [List.getElem?_map, List.getElem?_map]
    change (q.function? j).map _ = (p.function? j).map _
    rw [hq, Option.map_map]
    congr 1
    funext f
    simp only [Function.comp_apply, Function.name?, hrole]
  have hfilter (r : Program) : r.functionNames = (r.functions.map Function.name?).filterMap id := by
    rw [List.filterMap_map]
    rfl
  rw [hfilter, hnames, hfilter]

/-- The names of functions are different identifiers. -/
structure FunctionNames (p : Program) : Prop where
  nodup : p.functionNames.Nodup
  isIdentifier : ∀ name ∈ p.functionNames, Identifier.isIdentifier name = true

theorem functionNames_empty (name : String) : (Program.empty name).FunctionNames where
  nodup := List.nodup_nil
  isIdentifier _ h := nomatch h

theorem FunctionNames.congr (hp : p.FunctionNames) (h : q.functionNames = p.functionNames) :
    q.FunctionNames where
  nodup := h ▸ hp.nodup
  isIdentifier := h ▸ hp.isIdentifier

/-- A new name is an identifier that no function has. -/
theorem newFunctionName_eq_ok {text name : String}
    (h : Builder.newFunctionName p text = .ok name) :
    Identifier.isIdentifier name = true ∧ name ∉ p.functionNames := by
  simp only [Builder.newFunctionName, bind_eq_ok, require_eq_ok, pure_eq_ok] at h
  obtain ⟨_, hne, _, hnone, hname⟩ := h
  obtain rfl : Identifier.normalize text = name := by simpa using hname
  exact ⟨Identifier.isIdentifier_normalize (by simpa using hne),
    find?_eq_none_iff.mp (by simpa using hnone)⟩

theorem Step.functionNames (h : Step p q) (hp : p.FunctionNames) : q.FunctionNames := by
  cases h with
  | @function text name hname =>
    obtain ⟨hidentifier, hnew⟩ := newFunctionName_eq_ok hname
    have hnames : (p.addFunction (.topLevel name)).2.functionNames = p.functionNames ++ [name] :=
      functionNames_addFunction p (.topLevel name)
    constructor
    · rw [hnames]
      exact List.Nodup.append hp.nodup (List.nodup_singleton name) (by simpa using hnew)
    · rw [hnames]
      intro other hother
      rcases List.mem_append.mp hother with hother | hother
      · exact hp.isIdentifier other hother
      · obtain rfl := List.mem_singleton.mp hother
        exact hidentifier
  | @closure id f hf hopen =>
    refine hp.congr ?_
    have hnames := functionNames_addFunction p (.closure id (p.root id))
    rwa [show (Function.ofRole (.closure id (p.root id))).name?.toList = [] from rfl,
      List.append_nil] at hnames
  | counts hmeshes => exact hp.congr rfl
  | mesh hmesh => exact hp.congr rfl
  | input hf hopen hname hsharding =>
    exact hp.congr (functionNames_of_map (function?_withInput _ hf) fun _ _ => rfl)
  | operation hf hopen hresolve =>
    exact hp.congr (functionNames_of_map (function?_withOperation hf _ _ _) fun _ _ => rfl)
  | @«return» id f values shardings outputs hf hopen hreturn =>
    exact hp.congr
      (functionNames_of_map (function?_markReturned hf (Builder.returnKind p id) values outputs)
        fun _ _ => rfl)

theorem ofCalls_functionNames (name : String) (calls : List Call) :
    (Program.ofCalls name calls).FunctionNames :=
  ofCalls_induction functionNames_empty (fun _ _ hp hstep => hstep.functionNames hp) name calls

end Program

end TensorProgram
