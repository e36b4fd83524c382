import TensorProgram.Program.Complete
import TensorProgram.Proofs.Endings
import TensorProgram.Proofs.FunctionNames

/-!
# Which programs are accepted

`Program.Complete` says what a program needs in order to have a text, and `Program.Rejection`
which error is given when something is missing.  For programs that calls lead to the two
decide between all results of `Program.build`: `build_of_calls`.

That a function without statements has not returned is a fact about programs that calls
lead to, `Ended.statements_ne_nil`.
-/

namespace TensorProgram

namespace Program

/-- A complete program: it has the main function, top-level functions have returned, and
every attribute of a statement has a text. -/
structure Complete (p : Program) : Prop where
  main : mainName ∈ p.functionNames
  returned : ∀ entry ∈ p.topLevel, entry.2.isReturned = true
  attributes : ∀ id, ∀ s ∈ p.body id, ∀ key typeName, (key, .unsupported typeName) ∉ s.attributes

/-- The first top-level function that has not returned. -/
def firstOpen? (p : Program) : Option (FunctionId × Function) :=
  p.topLevel.find? fun entry => !entry.2.isReturned

/-- Why a program is not complete, in the order in which that is looked at. -/
inductive Rejection (p : Program) : ProgramError → Prop
  | missingMain (hmain : mainName ∉ p.functionNames) : Rejection p (.missingMain p.name)
  | emptyBody {id : FunctionId} {f : Function} (hmain : mainName ∈ p.functionNames)
      (hfirst : p.firstOpen? = some (id, f)) (hbody : f.statements = []) :
    Rejection p (.emptyBody (f.describe id))
  | missingReturn {id : FunctionId} {f : Function} (hmain : mainName ∈ p.functionNames)
      (hfirst : p.firstOpen? = some (id, f)) (hbody : f.statements ≠ []) :
    Rejection p (.missingReturn (f.describe id))
  | unsupportedAttribute {id : FunctionId} {s : Statement} {key typeName : String}
      (hmain : mainName ∈ p.functionNames)
      (hreturned : ∀ entry ∈ p.topLevel, entry.2.isReturned = true)
      (hs : s ∈ p.body id) (hkey : (key, .unsupported typeName) ∈ s.attributes)
      (hfirst : p.unsupportedAttribute? = some (key, typeName)) :
    Rejection p (.unsupportedAttribute key typeName)

variable {p : Program} {id : FunctionId} {f : Function}

/-! ## Functions -/

theorem Ended.statements_ne_nil (hp : p.Ended) (hf : p.function? id = some f)
    (hreturned : f.isReturned = true) : f.statements ≠ [] := by
  obtain ⟨s, hs, _⟩ := (hp.isReturned_iff hf).mp hreturned
  exact List.ne_nil_of_mem hs

theorem checkBody_of_returned (hp : p.Ended) (hf : p.function? id = some f)
    (hreturned : f.isReturned = true) : checkBody (id, f) = .ok () := by
  have hstatements := hp.statements_ne_nil hf hreturned
  simp [checkBody, hstatements, hreturned]

theorem checkBody_of_open (hopen : f.isReturned = false) :
    checkBody (id, f) =
      .error (if f.statements = [] then .emptyBody (f.describe id)
        else .missingReturn (f.describe id)) := by
  by_cases hbody : f.statements = []
  · simp [checkBody, hbody]
    rfl
  · simp [checkBody, hbody, hopen]
    rfl

/-- The bodies are judged by the first top-level function that is still open. -/
theorem forM_checkBody (hp : p.Ended) :
    p.topLevel.forM checkBody = p.firstOpen?.elim (.ok ()) checkBody := by
  apply forM_eq_find?
  intro entry hentry
  obtain ⟨hf, _⟩ := mem_topLevel.mp hentry
  cases hreturned : entry.2.isReturned with
  | true =>
    have hok : checkBody entry = .ok () := checkBody_of_returned hp hf hreturned
    simp [hok]
  | false =>
    have herror : checkBody entry = .error _ := checkBody_of_open hreturned
    simp [herror]

theorem firstOpen?_eq_none_iff :
    p.firstOpen? = none ↔ ∀ entry ∈ p.topLevel, entry.2.isReturned = true := by
  simp [firstOpen?]

/-! ## Attributes -/

theorem mem_body_iff {s : Statement} :
    (∃ id, s ∈ p.body id) ↔ ∃ f ∈ p.functions, s ∈ f.statements := by
  constructor
  · intro h
    obtain ⟨id, hs⟩ := h
    obtain ⟨f, hf, hs⟩ := exists_function?_of_mem_body hs
    exact ⟨f, List.mem_of_getElem? hf, hs⟩
  · intro h
    obtain ⟨f, hf, hs⟩ := h
    obtain ⟨id, hf⟩ := List.mem_iff_getElem?.mp hf
    exact ⟨id, by rwa [body_eq hf]⟩

theorem unsupported?_eq_none_iff {table : AttributeTable} :
    table.unsupported? = none ↔ ∀ key typeName, (key, .unsupported typeName) ∉ table := by
  rw [AttributeTable.unsupported?, List.findSome?_eq_none_iff]
  constructor
  · intro h key typeName hmem
    cases h _ hmem
  · intro h entry hentry
    obtain ⟨key, value⟩ := entry
    cases value with
    | unsupported typeName => exact absurd hentry (h key typeName)
    | _ => rfl

theorem mem_of_unsupported? {table : AttributeTable} {key typeName : String}
    (h : table.unsupported? = some (key, typeName)) : (key, .unsupported typeName) ∈ table := by
  obtain ⟨entry, hentry, hvalue⟩ := List.exists_of_findSome?_eq_some h
  obtain ⟨key, value⟩ := entry
  cases value with
  | unsupported typeName =>
    obtain ⟨rfl, rfl⟩ : key = _ ∧ typeName = _ := by
      simpa [Attribute.unsupportedType?] using hvalue
    exact hentry
  | _ => cases hvalue

theorem unsupportedAttribute?_eq_none_iff : p.unsupportedAttribute? = none ↔
    ∀ id, ∀ s ∈ p.body id, ∀ key typeName, (key, .unsupported typeName) ∉ s.attributes := by
  simp only [unsupportedAttribute?, List.findSome?_eq_none_iff, unsupported?_eq_none_iff]
  constructor
  · intro h id s hs
    obtain ⟨f, hf, hs⟩ := mem_body_iff.mp ⟨id, hs⟩
    exact h f hf s hs
  · intro h f hf s hs
    obtain ⟨id, hs⟩ := mem_body_iff.mpr ⟨f, hf, hs⟩
    exact h id s hs

theorem exists_of_unsupportedAttribute? {key typeName : String}
    (h : p.unsupportedAttribute? = some (key, typeName)) :
    ∃ id, ∃ s ∈ p.body id, (key, .unsupported typeName) ∈ s.attributes := by
  obtain ⟨f, hf, hstatement⟩ := List.exists_of_findSome?_eq_some h
  obtain ⟨s, hs, hattribute⟩ := List.exists_of_findSome?_eq_some hstatement
  obtain ⟨id, hs⟩ := mem_body_iff.mpr ⟨f, hf, hs⟩
  exact ⟨id, s, hs, mem_of_unsupported? hattribute⟩

/-! ## Results of a build -/

theorem find?_main_isNone (h : mainName ∉ p.functionNames) :
    (p.find? mainName).isNone = true := by
  rw [Option.isNone_iff_eq_none, find?_eq_none_iff]
  exact h

theorem find?_main_isSome (h : mainName ∈ p.functionNames) :
    (p.find? mainName).isNone = false := by
  rw [Bool.eq_false_iff, Ne, Option.isNone_iff_eq_none, find?_eq_none_iff, not_not]
  exact h

/-- There is no third way. -/
theorem complete_or_rejected (p : Program) : p.Complete ∨ ∃ e, p.Rejection e := by
  by_cases hmain : mainName ∈ p.functionNames
  · cases hopen : p.firstOpen? with
    | none =>
      have hreturned := firstOpen?_eq_none_iff.mp hopen
      cases hattribute : p.unsupportedAttribute? with
      | none => exact .inl ⟨hmain, hreturned, unsupportedAttribute?_eq_none_iff.mp hattribute⟩
      | some entry =>
        obtain ⟨id, s, hs, hkey⟩ := exists_of_unsupportedAttribute? hattribute
        exact .inr ⟨_, .unsupportedAttribute hmain hreturned hs hkey hattribute⟩
    | some entry =>
      by_cases hbody : entry.2.statements = []
      · exact .inr ⟨_, .emptyBody hmain hopen hbody⟩
      · exact .inr ⟨_, .missingReturn hmain hopen hbody⟩
  · exact .inr ⟨_, .missingMain hmain⟩

section Build

variable [NarrowConversions]

theorem build_of_complete (hp : p.Ended) (h : p.Complete) : p.build = .ok p.text := by
  have hopen := firstOpen?_eq_none_iff.mpr h.returned
  have hattributes := unsupportedAttribute?_eq_none_iff.mpr h.attributes
  simp [build, checkComplete, find?_main_isSome h.main, forM_checkBody hp, hopen, hattributes]

/-- The first open function is the reason when there is one. -/
theorem build_of_firstOpen (hp : p.Ended) (hmain : mainName ∈ p.functionNames)
    (hfirst : p.firstOpen? = some (id, f)) : p.build =
      .error (if f.statements = [] then .emptyBody (f.describe id)
        else .missingReturn (f.describe id)) := by
  have hopen : f.isReturned = false := by simpa using List.find?_some hfirst
  simp [build, checkComplete, find?_main_isSome hmain, forM_checkBody hp, hfirst,
    checkBody_of_open hopen]

theorem Rejection.build (hp : p.Ended) {e : ProgramError} (h : p.Rejection e) :
    p.build = .error e := by
  cases h with
  | missingMain hmain =>
    simp [Program.build, checkComplete, find?_main_isNone hmain]
    rfl
  | emptyBody hmain hfirst hbody => rw [build_of_firstOpen hp hmain hfirst, if_pos hbody]
  | missingReturn hmain hfirst hbody => rw [build_of_firstOpen hp hmain hfirst, if_neg hbody]
  | unsupportedAttribute hmain hreturned hs hkey hfirst =>
    have hopen := firstOpen?_eq_none_iff.mpr hreturned
    simp [Program.build, checkComplete, find?_main_isSome hmain, forM_checkBody hp, hopen, hfirst]
    rfl

/-- A program that calls lead to has a text exactly when it is complete, and its one main
function is then found by its name.  Otherwise the reason is the first thing that is
missing. -/
theorem build_of_calls (name : String) (calls : List Call) :
    let p := Program.ofCalls name calls
    ((∃ text, p.build = .ok text) ↔ p.Complete) ∧
      (∀ text, p.build = .ok text → text = p.text ∧ p.functionNames.count mainName = 1 ∧
        p.functionNames.Nodup ∧
        ∀ name ∈ p.functionNames, Identifier.isIdentifier name = true) ∧
      ∀ e, p.build = .error e ↔ p.Rejection e := by
  intro p
  have hp : p.Ended := ofCalls_ended name calls
  have hnames : p.FunctionNames := ofCalls_functionNames name calls
  refine ⟨⟨?_, ?_⟩, ?_, fun e => ⟨?_, ?_⟩⟩
  · intro h
    obtain ⟨text, hbuild⟩ := h
    rcases complete_or_rejected p with hcomplete | ⟨e, hrejected⟩
    · exact hcomplete
    · rw [hrejected.build hp] at hbuild
      cases hbuild
  · intro hcomplete
    exact ⟨p.text, build_of_complete hp hcomplete⟩
  · intro text hbuild
    rcases complete_or_rejected p with hcomplete | ⟨e, hrejected⟩
    · rw [build_of_complete hp hcomplete, Except.ok.injEq] at hbuild
      exact ⟨hbuild.symm, List.count_eq_one_of_mem hnames.nodup hcomplete.main, hnames.nodup,
        hnames.isIdentifier⟩
    · rw [hrejected.build hp] at hbuild
      cases hbuild
  · intro hbuild
    rcases complete_or_rejected p with hcomplete | ⟨e', hrejected⟩
    · rw [build_of_complete hp hcomplete] at hbuild
      cases hbuild
    · rw [hrejected.build hp, Except.error.injEq] at hbuild
      exact hbuild ▸ hrejected
  · intro hrejected
    exact hrejected.build hp

end Build

end Program

end TensorProgram
