import TensorProgram.Program.Text
import TensorProgram.Proofs.Forest

/-!
# The walk over statements

Program text is written in a walk over statements that goes into the closure of a statement
before it comes to the next statement.  `Program.walkUpTo` lists the visits of this walk,
and `statementLinesUpTo_eq` says that the lines of a statement are the lines of its visits,
one visit after the other.

Closures come after their parents, hence a walk goes only so deep:
`walkUpTo_eq_of_le` says that a bound which is large enough makes no difference.
-/

namespace TensorProgram

/-- A statement without a closure is visited once, and one with a closure before and after
its closure. -/
inductive Visit
  | plain (depth : Nat) (s : Statement)
  | enter (depth : Nat) (s : Statement) (use : ClosureUse)
  | leave (depth : Nat) (s : Statement)

/-- The closure whose block starts at a visit. -/
def Visit.entered? : Visit → Option FunctionId
  | enter _ _ use => some use.function
  | _ => none

namespace Program

/-- The statements of a function. -/
def body (p : Program) (id : FunctionId) : List Statement :=
  ((p.function? id).map Function.statements).getD []

/-- The lines that are written at a visit. -/
def visitLines [NarrowConversions] (p : Program) : Visit → List Line
  | .plain depth s =>
    attributeLines depth (p.statementHead s) (s.attributes.map attributeText) (p.statementType s)
  | .enter depth s use =>
    ⟨depth, p.statementHead s ++ " (\x7b"⟩ :: p.blockLines (fun _ => []) depth use
  | .leave depth s =>
    attributeLines depth "\x7d)" (s.attributes.map attributeText) (p.statementType s)

/-- The visits of a statement, given those of each statement in its closure. -/
def walkWith (p : Program) (nested : Statement → List Visit) (depth : Nat) (s : Statement) :
    List Visit :=
  match s.closure? with
  | none => [.plain depth s]
  | some use =>
    .enter depth s use :: (p.body use.function).flatMap nested ++ [.leave depth s]

/-- The visits of a statement with closures nested up to a number of times. -/
def walkUpTo (p : Program) : (nesting : Nat) → (depth : Nat) → Statement → List Visit
  | 0, depth, s => p.walkWith (fun _ => []) depth s
  | nesting + 1, depth, s => p.walkWith (p.walkUpTo nesting (depth + 1)) depth s

def walk (p : Program) (depth : Nat) (s : Statement) : List Visit :=
  p.walkUpTo p.functions.length depth s

/-- The visits of a top-level function. -/
def functionWalk (p : Program) (f : Function) : List Visit :=
  f.statements.flatMap (p.walk 2)

variable {p : Program}

/-! ## Lines of a walk -/

theorem blockLines_eq (p : Program) (nested : Statement → List Line) (depth : Nat)
    (use : ClosureUse) :
    p.blockLines nested depth use =
      p.blockLines (fun _ => []) depth use ++ (p.body use.function).flatMap nested := by
  unfold blockLines body
  cases p.function? use.function with
  | none => rfl
  | some c => simp

section Lines

variable [NarrowConversions]

theorem statementLinesWith_eq (p : Program) (nested : Statement → List Visit) (depth : Nat)
    (s : Statement) :
    p.statementLinesWith (fun t => (nested t).flatMap p.visitLines) depth s =
      (p.walkWith nested depth s).flatMap p.visitLines := by
  unfold statementLinesWith walkWith
  cases s.closure? with
  | none => simp [visitLines]
  | some use =>
    simp only [blockLines_eq p fun t => (nested t).flatMap p.visitLines]
    simp [visitLines, List.flatMap_assoc]

/-- The lines of a statement are written visit by visit. -/
theorem statementLinesUpTo_eq (p : Program) (nesting depth : Nat) (s : Statement) :
    p.statementLinesUpTo nesting depth s =
      (p.walkUpTo nesting depth s).flatMap p.visitLines := by
  induction nesting generalizing depth s with
  | zero => exact statementLinesWith_eq p (fun _ => []) depth s
  | succ nesting ih =>
    have hnested : p.statementLinesUpTo nesting (depth + 1) =
        fun t => (p.walkUpTo nesting (depth + 1) t).flatMap p.visitLines := funext fun t => ih _ t
    rw [statementLinesUpTo, hnested, statementLinesWith_eq, walkUpTo]

/-- The lines of a function are its header, the lines of its visits, and the closing line. -/
theorem functionLines_eq (p : Program) (f : Function) :
    p.functionLines f = ⟨1, p.functionHeader (f.name?.getD "") f⟩ ::
      (p.functionWalk f).flatMap p.visitLines ++ [⟨1, "\x7d"⟩] := by
  have hlines : p.statementLines 2 = fun s => (p.walk 2 s).flatMap p.visitLines :=
    funext fun s => statementLinesUpTo_eq p _ 2 s
  rw [functionLines, hlines, functionWalk, List.flatMap_assoc]

/-- The lines of a program are those of the visits of its top-level functions, in between the lines
that every program and every function has. -/
theorem lines_eq (p : Program) :
    p.lines = ⟨0, p.header⟩ :: p.meshes.map (fun mesh => ⟨1, mesh.declaration⟩) ++
      p.topLevel.flatMap (fun (_, f) => ⟨1, p.functionHeader (f.name?.getD "") f⟩ ::
        (p.functionWalk f).flatMap p.visitLines ++ [⟨1, "\x7d"⟩]) ++ [⟨0, "\x7d"⟩] := by
  simp only [lines, functionLines_eq]

/-- The block of a closure starts when the closure is entered. -/
theorem visitLines_enter {depth : Nat} {s : Statement} {use : ClosureUse} {c : Function}
    (hc : p.function? use.function = some c) :
    p.visitLines (.enter depth s use) =
      [⟨depth, p.statementHead s ++ " (\x7b"⟩, ⟨depth, p.blockLabel use.label c.inputs⟩] := by
  rw [visitLines, blockLines, hc]
  simp

end Lines

/-! ## The bound -/

theorem exists_function?_of_mem_body {id : FunctionId} {s : Statement} (hs : s ∈ p.body id) :
    ∃ f, p.function? id = some f ∧ s ∈ f.statements := by
  unfold body at hs
  cases hf : p.function? id with
  | none => simp [hf] at hs
  | some f => exact ⟨f, rfl, by simpa [hf] using hs⟩

/-- The closure that a statement refers to comes after the function of the statement. -/
theorem Forest.lt_of_mem_body (hp : p.Forest) {id : Nat} {s : Statement}
    (hs : s ∈ p.body id) {use : ClosureUse} (huse : s.closure? = some use) :
    id < use.function ∧ p.functions.length > use.function := by
  obtain ⟨f, hf, hs⟩ := exists_function?_of_mem_body hs
  have hn : p.node? id = some f.node := node?_of_function? hf
  have hmem : use.function ∈ f.node.uses :=
    List.mem_filterMap.mpr ⟨s, hs, by rw [Statement.closureId?, huse, Option.map_some]⟩
  obtain ⟨m, root, hm, hrole, _⟩ := hp.used hn hmem
  exact ⟨hp.parent_lt hm hrole, lt_of_node? hm⟩

theorem walkUpTo_of_none {s : Statement} (h : s.closure? = none) (n depth : Nat) :
    p.walkUpTo n depth s = [.plain depth s] := by
  cases n <;> simp [walkUpTo, walkWith, h]

theorem walkUpTo_succ_of_some {s : Statement} {use : ClosureUse} (h : s.closure? = some use)
    (n depth : Nat) : p.walkUpTo (n + 1) depth s =
      .enter depth s use :: (p.body use.function).flatMap (p.walkUpTo n (depth + 1)) ++
        [.leave depth s] := by
  simp [walkUpTo, walkWith, h]

/-- Two bounds that are both large enough allow the same walk. -/
theorem walkUpTo_eq_of_le (hp : p.Forest) {n m : Nat} (depth : Nat) {id : Nat}
    {s : Statement} (hs : s ∈ p.body id) (hn : p.functions.length ≤ id + 1 + n)
    (hm : p.functions.length ≤ id + 1 + m) : p.walkUpTo n depth s = p.walkUpTo m depth s := by
  induction n generalizing m depth id s with
  | zero =>
    cases huse : s.closure? with
    | none => rw [walkUpTo_of_none huse, walkUpTo_of_none huse]
    | some use =>
      have := hp.lt_of_mem_body hs huse
      omega
  | succ n ih =>
    cases huse : s.closure? with
    | none => rw [walkUpTo_of_none huse, walkUpTo_of_none huse]
    | some use =>
      have hlt := hp.lt_of_mem_body hs huse
      obtain ⟨m, rfl⟩ : ∃ k, m = k + 1 := Nat.exists_eq_add_one.mpr (by omega)
      have hbody : (p.body use.function).flatMap (p.walkUpTo n (depth + 1)) =
          (p.body use.function).flatMap (p.walkUpTo m (depth + 1)) :=
        List.flatMap_congr fun t ht => ih (depth + 1) ht (by omega) (by omega)
      rw [walkUpTo_succ_of_some huse, walkUpTo_succ_of_some huse, hbody]

/-- The bound on rendering is large enough: a larger one makes no difference. -/
theorem Forest.statementLinesUpTo_eq [NarrowConversions] (hp : p.Forest) {id : Nat} {s : Statement}
    (hs : s ∈ p.body id) (depth : Nat) {n : Nat} (hn : p.functions.length ≤ n) :
    p.statementLinesUpTo n depth s = p.statementLines depth s := by
  have hwalk : p.walkUpTo n depth s = p.walkUpTo p.functions.length depth s :=
    walkUpTo_eq_of_le hp depth hs (by omega) (by omega)
  rw [statementLines, Program.statementLinesUpTo_eq, Program.statementLinesUpTo_eq, hwalk]

end Program

end TensorProgram
