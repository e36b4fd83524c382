import TensorProgram.Program.Call
import TensorProgram.Proofs.Search

/-!
# Calls leave no half-done work

Every call is all or nothing: `Call.run_allOrNothing`.  A call that fails leaves the
program alone, `call_of_error`, and a call that succeeds is made of steps, `call_steps`.

What holds of the empty program and is kept by every step therefore holds of every program
that calls lead to, `ofCalls_induction`.
-/

namespace TensorProgram

open Builder

namespace Call

theorem run_allOrNothing (c : Call) : c.run.AllOrNothing := by
  cases c with
  | function name inputs => exact (function_allOrNothing name inputs).bind_pure _
  | setReplicasAndPartitions replicas partitions =>
    exact (setReplicasAndPartitions_allOrNothing replicas partitions).bind_pure _
  | addMesh mesh => exact (addMesh_allOrNothing mesh).bind_pure _
  | closure id => exact (closure_allOrNothing id).bind_pure _
  | input id shape => exact (input_allOrNothing id shape).bind_pure _
  | namedInput id name shape => exact (namedInput_allOrNothing id name shape).bind_pure _
  | inputWithSharding id shape sharding =>
    exact (inputWithSharding_allOrNothing id shape sharding).bind_pure _
  | returnValues id values => exact (returnSharded_allOrNothing id values _).bind_pure _
  | returnSharded id values shardings =>
    exact (returnSharded_allOrNothing id values shardings).bind_pure _
  | append id o => exact (append_allOrNothing id o).bind_pure _
  | argExtremum id e operand axis positionType =>
    exact (argExtremum_allOrNothing id e operand axis positionType).bind_pure _

end Call

namespace Program

/-- A call that fails leaves every part of the program as it was. -/
theorem call_of_error {p : Program} {c : Call} {e : BuildError}
    (h : (c.run.run p).1 = .error e) : p.call c = p := by
  unfold call
  rcases c.run_allOrNothing p with ⟨e', hfailed⟩ | ⟨answer, q, hrun, _⟩
  · rw [hfailed]
  · rw [hrun] at h
    cases h

/-- A function that sums the elements of an array, and that has returned although a second
closure in it is still open. -/
def sumCalls : List Call :=
  [.function "main" [.of (.real .f32) [2]],
    .namedInput 0 "arg1" (.scalar (.real .f32)),
    .closure 0,
    .closure 0,
    .input 1 (.scalar (.real .f32)),
    .input 1 (.scalar (.real .f32)),
    .append 1 (.binary (.binary .add) ⟨1, 0⟩ ⟨1, 1⟩),
    .returnValues 1 [⟨1, 2⟩],
    .append 0 (.reduce [⟨0, 0⟩] [⟨0, 1⟩] [0] 1),
    .returnValues 0 [⟨0, 2⟩]]

def sumProgram : Program :=
  .ofCalls "example" sumCalls

/-- A constant is refused by a function that has returned. -/
theorem call_of_error_returned :
    let constant : Call := .append 0 (.constant ⟨.scalar .boolean, .boolean [true]⟩)
    (constant.run.run sumProgram).1 = .error (.program (.alreadyReturned "main")) ∧
      sumProgram.call constant = sumProgram :=
  ⟨by decide, call_of_error (e := .program (.alreadyReturned "main")) (by decide)⟩

theorem call_steps (p : Program) (c : Call) : Steps p (p.call c) := by
  unfold call
  rcases c.run_allOrNothing p with ⟨e, hfailed⟩ | ⟨answer, q, hrun, hsteps⟩
  · rw [hfailed]
  · rwa [hrun]

theorem calls_steps (p : Program) (calls : List Call) : Steps p (calls.foldl call p) := by
  induction calls generalizing p with
  | nil => exact .refl
  | cons c calls ih => exact (call_steps p c).trans (ih (p.call c))

/-- What holds of the program without functions and is kept by every step holds of every
program that calls lead to. -/
theorem ofCalls_induction {motive : Program → Prop} (empty : ∀ name, motive (.empty name))
    (step : ∀ p q, motive p → Step p q → motive q) (name : String) (calls : List Call) :
    motive (.ofCalls name calls) := by
  have hsteps : Steps (.empty name) (.ofCalls name calls) := calls_steps (.empty name) calls
  generalize Program.ofCalls name calls = q at hsteps ⊢
  induction hsteps with
  | refl => exact empty name
  | tail _ hstep ih => exact step _ _ ih hstep

end Program

end TensorProgram
