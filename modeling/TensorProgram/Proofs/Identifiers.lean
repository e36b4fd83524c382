import TensorProgram.Proofs.Declarations
import TensorProgram.Proofs.ShownShardings

/-!
# Identifiers

Normalization maps texts onto identifiers and leaves identifiers alone.  What an identifier is can
be said without it, `Identifier.IsSpelled`: letters, digits and underscores of ASCII, the first of
which is no digit.  Apart from the empty text these are the texts that normalization leaves alone,
`Identifier.normalize_eq_self_iff` and `Identifier.isIdentifier_iff`.

A program declares its functions and its meshes in lines that have the name behind an at sign.  The
names are identifiers, so they can be read back (`Program.Declares.declaredSymbol_eq`) and different
names are different symbols.  A mesh keeps the name that it was given.  A function may be given a
text that is no identifier, but not one whose normalized name an earlier function has:
`Program.normalize_ne_of_madeAs`.
-/

namespace TensorProgram

/-! ## Normalized texts -/

namespace Identifier

/-- A letter, a digit or an underscore of ASCII. -/
def IsAsciiWord (c : Char) : Prop :=
  ('A' ≤ c ∧ c ≤ 'Z') ∨ ('a' ≤ c ∧ c ≤ 'z') ∨ ('0' ≤ c ∧ c ≤ '9') ∨ c = '_'

/-- The text is a word of ASCII that does not start with a digit. -/
structure IsSpelled (text : String) : Prop where
  ne_empty : text ≠ ""
  word : ∀ c ∈ text.toList, IsAsciiWord c
  start : ∀ c rest, text.toList = c :: rest → ¬('0' ≤ c ∧ c ≤ '9')

variable {text : String}

theorem isDigit_iff {c : Char} : c.isDigit = true ↔ '0' ≤ c ∧ c ≤ '9' := by
  simp [Char.isDigit, Char.le_def]

theorem isAlpha_iff {c : Char} :
    c.isAlpha = true ↔ ('A' ≤ c ∧ c ≤ 'Z') ∨ ('a' ≤ c ∧ c ≤ 'z') := by
  show (decide ('A' ≤ c ∧ c ≤ 'Z') || (decide ('a' ≤ c) && decide (c ≤ 'z'))) = true ↔ _
  rw [Bool.or_eq_true, Bool.and_eq_true, decide_eq_true_iff, decide_eq_true_iff, decide_eq_true_iff]

theorem isWordChar_iff {c : Char} : isWordChar c = true ↔ IsAsciiWord c := by
  rw [isWordChar, Bool.or_eq_true, Char.isAlphanum, Bool.or_eq_true, isAlpha_iff, isDigit_iff,
    beq_iff_eq, IsAsciiWord, or_assoc, or_assoc]

theorem normalizeChars_eq_nil_iff {cs : List Char} : normalizeChars cs = [] ↔ cs = [] := by
  cases cs with
  | nil => simp [normalizeChars, guardDigit]
  | cons c cs =>
    unfold normalizeChars
    rw [List.map_cons, guardDigit]
    split_ifs <;> simp

theorem normalize_eq_empty_iff : normalize text = "" ↔ text = "" := by
  rw [← String.toList_inj, normalize, String.toList_ofList, ← String.toList_inj]
  exact normalizeChars_eq_nil_iff

/-- A text that starts with no digit has nothing put in front of it. -/
theorem guardDigit_of_start {cs : List Char}
    (h : ∀ c rest, cs = c :: rest → c.isDigit = false) : guardDigit cs = cs := by
  cases cs with
  | nil => rfl
  | cons c rest => rw [guardDigit, h c rest rfl, if_neg Bool.false_ne_true]

theorem isSpelled_normalize (h : text ≠ "") : IsSpelled (normalize text) where
  ne_empty := mt normalize_eq_empty_iff.mp h
  word c hc := by
    rw [normalize, String.toList_ofList] at hc
    exact isWordChar_iff.mp (isWordChar_of_mem_normalizeChars hc)
  start c rest hstart := by
    have hdigit := startsWithDigit_normalize text
    rw [startsWithDigit, hstart] at hdigit
    rw [← isDigit_iff]
    simpa using hdigit

theorem normalize_of_isSpelled (h : IsSpelled text) : normalize text = text := by
  have hmap : text.toList.map (fun c => if isWordChar c then c else '_') = text.toList := by
    have hword : ∀ c ∈ text.toList, (if isWordChar c then c else '_') = c :=
      fun c hc => if_pos (isWordChar_iff.mpr (h.word c hc))
    rw [List.map_congr_left hword, List.map_id']
  have hstart : ∀ c rest, text.toList = c :: rest → c.isDigit = false := by
    intro c rest hc
    exact Bool.eq_false_iff.mpr (mt isDigit_iff.mp (h.start c rest hc))
  rw [normalize, normalizeChars, hmap, guardDigit_of_start hstart, String.ofList_toList]

theorem isIdentifier_iff : isIdentifier text = true ↔ IsSpelled text := by
  simp only [isIdentifier, Bool.and_eq_true, bne_iff_ne, beq_iff_eq]
  constructor
  · rintro ⟨hne, hsame⟩
    rw [← hsame]
    exact isSpelled_normalize hne
  · intro h
    exact ⟨h.ne_empty, normalize_of_isSpelled h⟩

theorem normalize_eq_self_iff :
    normalize text = text ↔ text = "" ∨ isIdentifier text = true := by
  by_cases h : text = ""
  · subst h
    simp [normalize_eq_empty_iff]
  · simp [isIdentifier, h]

end Identifier

/-! ## Symbols -/

/-- The word behind the first at sign of a line. -/
def declaredSymbol (line : String) : String :=
  .ofList ((line.toList.dropWhile (· != '@')).tail.takeWhile Identifier.isWordChar)

/-- An identifier behind the first at sign is read back when no word character follows it. -/
theorem declaredSymbol_append {keyword name stop : String} {before rest : List Char} {c : Char}
    (hkeyword : keyword.toList = before ++ ['@']) (hbefore : '@' ∉ before)
    (hname : Identifier.isIdentifier name = true) (hstop : stop.toList = c :: rest)
    (hc : Identifier.isWordChar c = false) (after : String) :
    declaredSymbol (keyword ++ (name ++ (stop ++ after))) = name := by
  have hskip : ∀ d ∈ before, (d != '@') = true := by
    intro d hd
    rw [bne_iff_ne]
    rintro rfl
    exact hbefore hd
  have hword : ∀ d ∈ name.toList, Identifier.isWordChar d = true :=
    fun d hd => Identifier.isWordChar_of_mem hname hd
  have hline : (keyword ++ (name ++ (stop ++ after))).toList =
      before ++ '@' :: (name.toList ++ c :: (rest ++ after.toList)) := by
    simp [hkeyword, hstop]
  rw [declaredSymbol, hline, List.dropWhile_append_of_pos hskip,
    List.dropWhile_cons_of_neg (by decide), List.tail_cons, List.takeWhile_append_of_pos hword,
    List.takeWhile_cons_of_neg (by simp [hc]), List.append_nil, String.ofList_toList]

theorem Mesh.declaredSymbol_declaration {m : Mesh} (hm : m.Built) :
    declaredSymbol m.declaration = m.name := by
  have hkeyword : "sdy.mesh @".toList = "sdy.mesh ".toList ++ ['@'] := by decide
  have hstop : " = ".toList = [' ', '=', ' '] := by decide
  rw [declaration, String.append_assoc, String.append_assoc]
  exact declaredSymbol_append hkeyword (by decide) hm.namedByIdentifiers.name hstop (by decide) _

namespace Program

theorem declaredSymbol_functionHeader (p : Program) {name : String} (f : Function)
    (hname : Identifier.isIdentifier name = true) :
    declaredSymbol (p.functionHeader name f) = name := by
  have hkeyword : "func.func @".toList = "func.func ".toList ++ ['@'] := by decide
  have hstop : "(".toList = ['('] := by decide
  unfold functionHeader
  rw [String.append_assoc, String.append_assoc, String.append_assoc, String.append_assoc,
    String.append_assoc]
  exact declaredSymbol_append hkeyword (by decide) hname hstop (by decide) _

/-- The line declares a function or a mesh of the program under the name.  A mesh in a program is
one that was built, which a call does not ask about. -/
inductive Declares (p : Program) : (line name : String) → Prop
  | function {id : FunctionId} {f : Function} {name : String} (hf : p.function? id = some f)
      (hname : f.name? = some name) : Declares p (p.functionHeader name f) name
  | mesh {m : Mesh} (hm : m ∈ p.meshes) (hbuilt : m.Built) : Declares p m.declaration m.name

theorem Declares.mem_lines [NarrowConversions] {p : Program} {line name : String}
    (h : p.Declares line name) : ⟨1, line⟩ ∈ p.lines := by
  cases h with
  | @function id f _ hf hname =>
    have htop : f.isClosure = false := by
      cases hrole : f.role with
      | topLevel text => exact isClosure_of_topLevel hrole
      | closure parent root =>
        rw [Function.name?, hrole] at hname
        cases hname
    have hline := header_mem_lines hf htop
    rwa [hname] at hline
  | mesh hm _ =>
    refine List.mem_append_left _ (List.mem_append_left _ (List.mem_cons_of_mem _ ?_))
    exact List.mem_map_of_mem hm

/-- What is declared has an identifier as its name, which can be read off the line. -/
theorem Declares.declaredSymbol_eq {p : Program} (hp : p.FunctionNames) {line name : String}
    (h : p.Declares line name) :
    Identifier.isIdentifier name = true ∧ declaredSymbol line = name := by
  cases h with
  | @function id f _ hf hname =>
    have hidentifier := hp.isIdentifier name
      (List.mem_filterMap.mpr ⟨f, List.mem_of_getElem? hf, hname⟩)
    exact ⟨hidentifier, declaredSymbol_functionHeader p f hidentifier⟩
  | mesh _ hbuilt =>
    exact ⟨hbuilt.namedByIdentifiers.name, Mesh.declaredSymbol_declaration hbuilt⟩

/-! ## Functions and the texts that they were given -/

/-- A call made the function and gave it the text as its name. -/
def MadeAs (name : String) (calls : List Call) (text : String) (id : FunctionId) : Prop :=
  ∃ before inputs after, calls = before ++ .function text inputs :: after ∧
    ((Call.function text inputs).run.run (ofCalls name before)).1 = .ok (.function id)

variable {p q : Program} {name text : String} {calls : List Call} {id : FunctionId}

theorem newFunctionName_eq {given : String} (h : Builder.newFunctionName p text = .ok given) :
    given = Identifier.normalize text := by
  simp only [Builder.newFunctionName, bind_eq_ok, pure_eq_ok, Except.ok.injEq] at h
  obtain ⟨_, _, _, _, hname⟩ := h
  exact hname.symm

/-- A function that was made has the normalized text as its name, which was free. -/
theorem run_function_eq_ok {inputs : List Shape}
    (h : (Builder.function text inputs).run p = (.ok id, q)) :
    Identifier.isIdentifier (Identifier.normalize text) = true ∧
      Identifier.normalize text ∉ p.functionNames ∧
      ∃ f, q.function? id = some f ∧ f.role = .topLevel (Identifier.normalize text) := by
  rw [Builder.function, Builder.run_bind_eq_ok] at h
  obtain ⟨given, _, hcheck, h⟩ := h
  obtain ⟨hgiven, rfl⟩ := Builder.run_check_eq_ok.mp hcheck
  obtain ⟨hidentifier, hfree⟩ := newFunctionName_eq_ok hgiven
  obtain rfl := newFunctionName_eq hgiven
  rw [Builder.run_bind_eq_ok] at h
  obtain ⟨_, r, hchange, h⟩ := h
  obtain ⟨rfl, rfl⟩ := Prod.mk.inj (Builder.run_change_eq_ok.mp hchange)
  rw [Builder.run_bind_eq_ok] at h
  obtain ⟨_, r, hinputs, hpure⟩ := h
  obtain ⟨rfl, rfl⟩ := Builder.run_pure_eq_ok.mp hpure
  have hnew := function?_addFunction p (.topLevel (Identifier.normalize text)) p.functions.length
  rw [if_pos rfl] at hnew
  -- the inputs that the function takes right away leave its role alone
  obtain ⟨r', hsucceeds, hsteps⟩ := Builder.inputs_succeed inputs hnew rfl
  obtain rfl : r' = r := (Prod.mk.inj (hsucceeds.symm.trans hinputs)).2
  obtain ⟨f, hf, hextends⟩ := hsteps.extends _ _ hnew
  exact ⟨hidentifier, hfree, f, hf, hextends.role⟩

theorem run_call_function {inputs : List Shape}
    (h : ((Call.function text inputs).run.run p).1 = .ok (.function id)) :
    (Builder.function text inputs).run p = (.ok id, p.call (.function text inputs)) := by
  cases hrun : (Builder.function text inputs).run p with
  | mk result q =>
    cases result with
    | error e =>
      rw [Call.run, Builder.run_bind_error hrun] at h
      cases h
    | ok made =>
      have hcall : (Call.function text inputs).run.run p = (.ok (.function made), q) :=
        Builder.run_bind_ok hrun
      rw [hcall] at h
      cases h
      rw [call, hcall]

theorem MadeAs.exists_function (h : MadeAs name calls text id) :
    ∃ f, (ofCalls name calls).function? id = some f ∧
      f.role = .topLevel (Identifier.normalize text) := by
  obtain ⟨before, inputs, after, rfl, hrun⟩ := h
  obtain ⟨_, _, f, hf, hrole⟩ := run_function_eq_ok (run_call_function hrun)
  have hsteps := calls_steps ((ofCalls name before).call (.function text inputs)) after
  obtain ⟨g, hg, hextends⟩ := hsteps.extends id f hf
  refine ⟨g, ?_, hextends.role.trans hrole⟩
  rw [ofCalls, List.foldl_append]
  exact hg

/-- The function is declared under the normalized text. -/
theorem MadeAs.declares (h : MadeAs name calls text id) :
    ∃ line, (ofCalls name calls).Declares line (Identifier.normalize text) := by
  obtain ⟨f, hf, hrole⟩ := h.exists_function
  exact ⟨_, .function hf (by rw [Function.name?, hrole])⟩

/-- A text is refused when an earlier function has its normalized name. -/
theorem MadeAs.normalize_ne {later : String} {inputs : List Shape} {j : FunctionId}
    (h : MadeAs name calls text id)
    (hlater : ((Call.function later inputs).run.run (ofCalls name calls)).1 = .ok (.function j)) :
    Identifier.normalize text ≠ Identifier.normalize later := by
  intro hsame
  obtain ⟨f, hf, hrole⟩ := h.exists_function
  have hfree := (run_function_eq_ok (run_call_function hlater)).2.1
  rw [← hsame] at hfree
  exact hfree (List.mem_filterMap.mpr
    ⟨f, List.mem_of_getElem? hf, by rw [Function.name?, hrole]⟩)

section Order

variable {other : String} {before between after after' : List Call} {inputs inputs' : List Shape}
  {j : FunctionId}

/-- Of two calls with different texts the later one has found the first function. -/
theorem normalize_ne_of_between (hne : text ≠ other)
    (hrest : .function text inputs :: after = between ++ .function other inputs' :: after')
    (h : ((Call.function text inputs).run.run (ofCalls name before)).1 = .ok (.function id))
    (hother : ((Call.function other inputs').run.run (ofCalls name (before ++ between))).1 =
      .ok (.function j)) :
    Identifier.normalize text ≠ Identifier.normalize other := by
  cases between with
  | nil =>
    cases hrest
    exact absurd rfl hne
  | cons c between =>
    cases hrest
    exact MadeAs.normalize_ne ⟨before, inputs, between, rfl, h⟩ hother

/-- Functions of one program that were given different texts have different names. -/
theorem normalize_ne_of_madeAs (h : MadeAs name calls text id)
    (hother : MadeAs name calls other j) (hne : text ≠ other) :
    Identifier.normalize text ≠ Identifier.normalize other := by
  obtain ⟨before, inputs, after, hcalls, hrun⟩ := h
  obtain ⟨before', inputs', after', hcalls', hrun'⟩ := hother
  rw [hcalls] at hcalls'
  rcases List.append_eq_append_iff.mp hcalls' with ⟨between, rfl, hrest⟩ | ⟨between, rfl, hrest⟩
  · exact normalize_ne_of_between hne hrest hrun hrun'
  · exact (normalize_ne_of_between hne.symm hrest hrun' hrun).symm

end Order

end Program

namespace Identifier

open Program

/-- Normalization is a retraction onto identifiers and the empty text.  The normalized name of an
input is never written like the number of a value.  Functions and meshes are declared in the text of
their program with symbols that differ when their names differ, and functions that were given
different texts have different names. -/
theorem normalize_retraction [NarrowConversions] :
    (∀ text, (normalize text = "" ↔ text = "") ∧ (text ≠ "" → IsSpelled (normalize text)) ∧
      normalize (normalize text) = normalize text ∧
      (normalize text = text ↔ text = "" ∨ isIdentifier text = true) ∧
      (isIdentifier text = true ↔ IsSpelled text) ∧
      ∀ number, (ValueName.named (normalize text)).render ≠ (ValueName.numbered number).render) ∧
    ∀ name calls, let p := ofCalls name calls
      (∀ line x, p.Declares line x →
        ⟨1, line⟩ ∈ p.lines ∧ isIdentifier x = true ∧ declaredSymbol line = x) ∧
      (∀ line line' x y, p.Declares line x → p.Declares line' y → x ≠ y →
        declaredSymbol line ≠ declaredSymbol line') ∧
      ∀ a b i j, MadeAs name calls a i → MadeAs name calls b j → a ≠ b →
        ∃ line line', p.Declares line (normalize a) ∧ p.Declares line' (normalize b) ∧
          declaredSymbol line ≠ declaredSymbol line' := by
  refine ⟨fun text => ⟨normalize_eq_empty_iff, isSpelled_normalize, normalize_normalize text,
    normalize_eq_self_iff, isIdentifier_iff, fun number h => ?_⟩, fun name calls => ?_⟩
  · have hsame := (String.append_right_inj "%").mp h
    have hdigit := startsWithDigit_normalize text
    rw [hsame, startsWithDigit_toString] at hdigit
    cases hdigit
  · have hp := ofCalls_functionNames name calls
    have hdifferent {line line' x y : String} (h : (ofCalls name calls).Declares line x)
        (h' : (ofCalls name calls).Declares line' y) (hne : x ≠ y) :
        declaredSymbol line ≠ declaredSymbol line' := by
      rwa [(h.declaredSymbol_eq hp).2, (h'.declaredSymbol_eq hp).2]
    refine ⟨fun line x h => ⟨h.mem_lines, h.declaredSymbol_eq hp⟩,
      fun line line' x y => hdifferent, fun a b i j ha hb hne => ?_⟩
    obtain ⟨line, hline⟩ := ha.declares
    obtain ⟨line', hline'⟩ := hb.declares
    exact ⟨line, line', hline, hline', hdifferent hline hline' (normalize_ne_of_madeAs ha hb hne)⟩

/-- A mesh and two functions that were given texts which are no identifiers. -/
def layerCalls : List Call :=
  [.addMesh ⟨"data_parallel", [⟨"x", 2⟩], none⟩,
    .function "layer-1.bias" [],
    .function "0th" []]

/-- The texts become identifiers that differ from each other and from the name of the mesh. -/
theorem normalize_retraction_layers :
    let p := ofCalls "example" layerCalls
    MadeAs "example" layerCalls "layer-1.bias" 0 ∧ MadeAs "example" layerCalls "0th" 1 ∧
      IsSpelled (normalize "ünï") ∧ normalize (normalize "ünï") = "_n_" ∧
      ∃ line line' line'', p.Declares line "layer_1_bias" ∧ p.Declares line' "_0th" ∧
        p.Declares line'' "data_parallel" ∧ declaredSymbol line ≠ declaredSymbol line' ∧
        declaredSymbol line' ≠ declaredSymbol line'' := by
  intro p
  obtain ⟨htexts, hprograms⟩ := normalize_retraction
  obtain ⟨_, hsymbols, hfunctions⟩ := hprograms "example" layerCalls
  have hbias : MadeAs "example" layerCalls "layer-1.bias" 0 :=
    ⟨[.addMesh ⟨"data_parallel", [⟨"x", 2⟩], none⟩], [], [.function "0th" []], rfl, by decide⟩
  have hth : MadeAs "example" layerCalls "0th" 1 :=
    ⟨[.addMesh ⟨"data_parallel", [⟨"x", 2⟩], none⟩, .function "layer-1.bias" []], [], [], rfl,
      by decide⟩
  have hmesh : p.Declares _ "data_parallel" :=
    .mesh (m := ⟨"data_parallel", [⟨"x", 2⟩], none⟩) (by decide)
      (.ofAxes (show Mesh.ofAxes "data_parallel" ["x"] [2] = .ok _ by decide))
  obtain ⟨line, line', hline, hline', hne⟩ := hfunctions _ _ _ _ hbias hth (by decide)
  obtain ⟨_, hspelled, htwice, _⟩ := htexts "ünï"
  refine ⟨hbias, hth, hspelled (by decide), htwice.trans (by decide), line, line', _, hline, hline',
    hmesh, hne, ?_⟩
  exact hsymbols _ _ _ _ hline' hmesh (by decide)

end Identifier

end TensorProgram
