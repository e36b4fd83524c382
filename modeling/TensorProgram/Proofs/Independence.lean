import TensorProgram.Proofs.Regions
import TensorProgram.Proofs.RenamedText
import TensorProgram.Proofs.Rendered
import TensorProgram.Proofs.Scripts

/-!
# Top-level functions are independent

Several parties build one program.  Each party has a top-level function of its own and a script
that works on this function and on the closures in it.  `Session.run` makes the requests of all
scripts in the order of a schedule.

What a party gets does not depend on the others: with or without them the party makes the same
tree of functions, up to the positions of closures, and has the same replies, `Session.Agrees`.
One request keeps this up, whether the party makes it, `Agrees.make_own`, or another one,
`Agrees.make_other`.  By induction it holds after every schedule, `agrees_run`.  So two
schedules in which each party makes the same requests in the same order have the same outcomes
and lead to the same text, `run_congr`.
-/

namespace TensorProgram

open Program

/-! ## Schedules -/

/-- Requests in the order in which they are made, each with the top-level function of the party
that makes it. -/
abbrev Schedule := List (FunctionId × Request)

/-- The requests of one party. -/
def Schedule.only (w : Schedule) (top : FunctionId) : Schedule :=
  w.filter fun entry => entry.1 = top

/-- The third list contains the entries of the first two, each in their order. -/
inductive Interleaving {α : Type} : List α → List α → List α → Prop
  | nil : Interleaving [] [] []
  | left {x : α} {xs ys zs : List α} (h : Interleaving xs ys zs) :
    Interleaving (x :: xs) ys (x :: zs)
  | right {y : α} {xs ys zs : List α} (h : Interleaving xs ys zs) :
    Interleaving xs (y :: ys) (y :: zs)

namespace Schedule

theorem only_concat_own (w : Schedule) (entry : FunctionId × Request) :
    only (w ++ [entry]) entry.1 = w.only entry.1 ++ [entry] := by
  simp [only]

theorem only_concat_other (w : Schedule) {entry : FunctionId × Request} {top : FunctionId}
    (hne : top ≠ entry.1) : only (w ++ [entry]) top = w.only top := by
  simp [only, hne.symm]

end Schedule

namespace Interleaving

variable {α : Type} {xs ys zs : List α}

theorem append (xs ys : List α) : Interleaving xs ys (xs ++ ys) := by
  induction xs with
  | cons x xs ih => exact ih.left
  | nil =>
    induction ys with
    | nil => exact .nil
    | cons y ys ih => exact ih.right

theorem swap (h : Interleaving xs ys zs) : Interleaving ys xs zs := by
  induction h with
  | nil => exact .nil
  | left _ ih => exact ih.right
  | right _ ih => exact ih.left

theorem mem (h : Interleaving xs ys zs) {z : α} (hz : z ∈ zs) : z ∈ xs ∨ z ∈ ys := by
  induction h with
  | nil => cases hz
  | left _ ih =>
    rw [List.mem_cons] at hz ⊢
    exact hz.elim (fun hz => .inl (.inl hz)) fun hz => (ih hz).imp_left .inr
  | right _ ih =>
    rw [List.mem_cons] at hz ⊢
    exact hz.elim (fun hz => .inr (.inl hz)) fun hz => (ih hz).imp_right .inr

/-- A filter that keeps one side only finds it in its order. -/
theorem filter_left (h : Interleaving xs ys zs) {keep : α → Bool}
    (hys : ∀ y ∈ ys, keep y = false) : zs.filter keep = xs.filter keep := by
  induction h with
  | nil => rfl
  | left _ ih => rw [List.filter_cons, List.filter_cons, ih hys]
  | right _ ih =>
    obtain ⟨hy, hys⟩ := List.forall_mem_cons.mp hys
    rw [List.filter_cons, hy, if_neg Bool.false_ne_true, ih hys]

/-- Each of two parties makes the same requests in all interleavings. -/
theorem only_eq {i j top : FunctionId} (hne : i ≠ j) {S T : List Request} {w w' : Schedule}
    (h : Interleaving (S.map fun r => (i, r)) (T.map fun r => (j, r)) w)
    (h' : Interleaving (S.map fun r => (i, r)) (T.map fun r => (j, r)) w') :
    w.only top = w'.only top := by
  have hother {id : FunctionId} (hid : id ≠ top) (script : List Request) :
      ∀ entry ∈ script.map fun r => (id, r), decide (entry.1 = top) = false := by
    intro entry hentry
    obtain ⟨r, _, rfl⟩ := List.mem_map.mp hentry
    exact decide_eq_false hid
  by_cases hi : i = top
  · have hj := hother (hi ▸ hne.symm) T
    exact (h.filter_left hj).trans (h'.filter_left hj).symm
  · have hi := hother hi S
    exact (h.swap.filter_left hi).trans (h'.swap.filter_left hi).symm

end Interleaving

/-! ## Sessions -/

/-- A program, and what has become of the requests of each party. -/
structure Session where
  program : Program
  replies : FunctionId → List Reply

/-- Whether a request was made, and whether it succeeded or why not. -/
def Reply.outcome : Reply → Option (Except BuildError Unit) :=
  Option.map fun result => (result.map fun _ => ()).mapError BuildError.anonymous

namespace Session

def start (p : Program) : Session :=
  ⟨p, fun _ => []⟩

/-- The reply to a request, and the program afterwards. -/
def attempt (s : Session) (top : FunctionId) (r : Request) : Reply × Program :=
  match r.call (s.replies top) with
  | .error () => (none, s.program)
  | .ok c => (some (c.run.run s.program).1, s.program.call c)

/-- The session after one more request. -/
def make (s : Session) (entry : FunctionId × Request) : Session where
  program := (s.attempt entry.1 entry.2).2
  replies := Function.update s.replies entry.1
    (s.replies entry.1 ++ [(s.attempt entry.1 entry.2).1])

/-- The session after all requests of a schedule. -/
def run (p : Program) (w : Schedule) : Session :=
  w.foldl make (start p)

def outcomes (s : Session) (top : FunctionId) : List (Option (Except BuildError Unit)) :=
  (s.replies top).map Reply.outcome

theorem run_concat (p : Program) (w : Schedule) (entry : FunctionId × Request) :
    run p (w ++ [entry]) = (run p w).make entry := by
  rw [run, List.foldl_append, run]
  rfl

theorem attempt_steps (s : Session) (top : FunctionId) (r : Request) :
    Steps s.program (s.attempt top r).2 := by
  unfold attempt
  split
  · exact .refl
  · exact call_steps s.program _

theorem run_steps (p : Program) (w : Schedule) : Steps p (run p w).program := by
  induction w using List.reverseRecOn with
  | nil => exact .refl
  | append_singleton w entry ih =>
    rw [run_concat]
    exact ih.trans (attempt_steps (run p w) entry.1 entry.2)

/-! ## One request -/

/-- A party with and without others: the tree of its top-level function is the same up to the
positions of closures, and so are the replies to its requests. -/
structure Agrees (p : Program) (top : FunctionId) (ρ : FunctionId → FunctionId)
    (own full : Session) : Prop where
  renamed : own.program.Renamed top ρ full.program
  fixed : ∀ id, id < p.functions.length → ρ id = id
  grown : p.Extends own.program
  replies : List.Forall₂ (SameReply top ρ own.program) (own.replies top) (full.replies top)

variable {p : Program} {top : FunctionId} {ρ : FunctionId → FunctionId} {own full : Session}
  {r : Request}

/-- A request is made with the same reply under the renaming, if the renaming already has the
place of a new closure. -/
theorem attempt_renamed (h : own.program.Renamed top ρ full.program)
    (hρ : ρ own.program.functions.length = full.program.functions.length)
    (hreplies : List.Forall₂ (SameReply top ρ own.program) (own.replies top) (full.replies top))
    (hcollective : r.isCollective = false) (hr : r.Given (Fixed top ρ own.program)) :
    (own.attempt top r).2.Renamed top ρ (full.attempt top r).2 ∧
      SameReply top ρ (own.attempt top r).2 (own.attempt top r).1 (full.attempt top r).1 ∧
      full.program.Confined top (full.attempt top r).2 := by
  have hcall := Request.call_rename hreplies hr
  unfold attempt
  cases hown : r.call (own.replies top) with
  | error e =>
    rw [hcall, hown]
    exact ⟨h, .none, .refl top full.program⟩
  | ok c =>
    rw [hcall, hown]
    have hstep := Call.run_inStep h hρ (Request.call_within hreplies hcollective hr hown)
    simp only [Except.map, Program.call]
    cases hstep with
    | ok hrun hrun' hsame hrenamed _ hconfined =>
      rw [hrun, hrun']
      exact ⟨hrenamed, .some (.ok hsame), hconfined⟩
    | error hrun hrun' he =>
      rw [hrun, hrun', c.run_allOrNothing.eq_of_error hrun,
        (c.rename ρ).run_allOrNothing.eq_of_error hrun']
      exact ⟨h, .some (.error he), .refl top full.program⟩

/-- The party itself makes a request, which changes its own tree only. -/
theorem Agrees.make_own (h : Agrees p top ρ own full) (hcollective : r.isCollective = false)
    (hr : r.Given (p.Member top)) :
    ∃ σ, Agrees p top σ (own.make (top, r)) (full.make (top, r)) ∧
      full.program.Confined top (full.make (top, r)).program := by
  -- a new closure gets the next position in either program
  let σ := Function.update ρ own.program.functions.length full.program.functions.length
  have hρσ : ∀ id, id < own.program.functions.length → ρ id = σ id :=
    fun id hid => (Function.update_of_ne (Nat.ne_of_lt hid) _ ρ).symm
  have hlength : p.functions.length ≤ own.program.functions.length := h.grown.length_le
  have hfixed : ∀ id, id < p.functions.length → σ id = id := fun id hid =>
    (hρσ id (Nat.lt_of_lt_of_le hid hlength)).symm.trans (h.fixed id hid)
  have hreplies : List.Forall₂ (SameReply top σ own.program) (own.replies top) (full.replies top) :=
    h.replies.imp fun _ _ hreply => hreply.mono (.refl own.program) hρσ
  have hgiven : r.Given (Fixed top σ own.program) := hr.mono fun id hid =>
    ⟨hid.mono h.grown, hfixed id (lt_of_function? hid.1.choose_spec)⟩
  have hgrown := (attempt_steps own top r).extends
  obtain ⟨hrenamed, hreply, hconfined⟩ :=
    attempt_renamed (h.renamed.congr hρσ) (Function.update_self _ _ ρ) hreplies hcollective hgiven
  refine ⟨σ, ⟨hrenamed, hfixed, h.grown.trans hgrown, ?_⟩, hconfined⟩
  simp only [make, Function.update_self]
  exact List.rel_append (hreplies.imp fun _ _ hold => hold.mono hgrown fun _ _ => rfl)
    (.cons hreply .nil)

/-- Another party makes a request, which leaves the tree of the party alone. -/
theorem Agrees.make_other {other : FunctionId} (h : Agrees p top ρ own full) (hne : top ≠ other)
    (hconfined : full.program.Confined other (full.make (other, r)).program) :
    Agrees p top ρ own (full.make (other, r)) where
  renamed := h.renamed.confined hconfined hne
  fixed := h.fixed
  grown := h.grown
  replies := by
    simp only [make, Function.update_of_ne hne]
    exact h.replies

/-- The outcomes of a party are the same without the others. -/
theorem Agrees.outcomes_eq (h : Agrees p top ρ own full) :
    full.outcomes top = own.outcomes top := by
  have hsame : ∀ reply reply', SameReply top ρ own.program reply reply' →
      reply.outcome = reply'.outcome := by
    rintro _ _ (⟨⟨_, rfl⟩ | he⟩ | _)
    · rfl
    · simp only [Reply.outcome, Option.map_some, Except.map, Except.mapError, he]
    · rfl
  unfold outcomes
  symm
  rw [← List.forall₂_eq_eq_eq, List.forall₂_map_left_iff, List.forall₂_map_right_iff]
  exact h.replies.imp hsame

/-! ## All requests of a schedule -/

/-- What lies in a top-level function is in its tree. -/
theorem member_of_inside {p : Program} (hforest : p.Forest) {top id : FunctionId} {f : Function}
    (hf : p.function? top = some f) (htop : f.isClosure = false) (h : p.Inside top id) :
    p.Member top id := by
  refine ⟨?_, h.root_eq hforest hf htop⟩
  cases h with
  | self => exact ⟨f, hf⟩
  | closure _ hg _ => exact ⟨_, hg⟩

/-- Every request of the schedule is made by the party of a top-level function, all that is given
in it lies in that function, and none is for a collective. -/
def Fits (p : Program) (w : Schedule) : Prop :=
  ∀ entry ∈ w, entry.1 ∈ p.topLevel.map Prod.fst ∧ entry.2.isCollective = false ∧
    entry.2.Given (p.Member entry.1)

/-- A party alone gets the same as with the others. -/
theorem agrees_run (hforest : p.Forest) (hscoped : p.WellScoped) {w : Schedule} (hw : Fits p w) :
    p.KeepsFrame (run p w).program ∧ ∀ top ∈ p.topLevel.map Prod.fst,
      ∃ ρ, Agrees p top ρ (run p (w.only top)) (run p w) := by
  induction w using List.reverseRecOn with
  | nil =>
    refine ⟨.refl p, fun top htop => ⟨fun id => id, ?_, fun _ _ => rfl, .refl p, .nil⟩⟩
    obtain ⟨f, hf, hopen⟩ := mem_topLevel_fst.mp htop
    exact Renamed.self hforest hscoped hf hopen
  | append_singleton w entry ih =>
    obtain ⟨hbefore, hentry⟩ := List.forall_mem_append.mp hw
    obtain ⟨hframe, hagrees⟩ := ih hbefore
    obtain ⟨hparty, hcollective, hgiven⟩ := hentry entry List.mem_cons_self
    obtain ⟨ρ, hown⟩ := hagrees entry.1 hparty
    obtain ⟨σ, hown', hconfined⟩ := hown.make_own hcollective hgiven
    rw [run_concat]
    refine ⟨hframe.trans hconfined.frame, fun top htop => ?_⟩
    by_cases hne : top = entry.1
    · rw [hne, Schedule.only_concat_own w entry, run_concat]
      exact ⟨σ, hown'⟩
    · obtain ⟨ρ, hother⟩ := hagrees top htop
      rw [Schedule.only_concat_other w hne]
      exact ⟨ρ, hother.make_other hne hconfined⟩

/-! ## Scripts for one function -/

theorem fits_script (hforest : p.Forest) (htop : top ∈ p.topLevel.map Prod.fst)
    {script : List Request}
    (hscript : ∀ r ∈ script, r.isCollective = false ∧ r.Given (p.Inside top)) :
    Fits p (script.map fun r => (top, r)) := by
  intro entry hentry
  obtain ⟨r, hr, rfl⟩ := List.mem_map.mp hentry
  obtain ⟨f, hf, hopen⟩ := mem_topLevel_fst.mp htop
  obtain ⟨hcollective, hgiven⟩ := hscript r hr
  exact ⟨htop, hcollective, hgiven.mono fun _ h => member_of_inside hforest hf hopen h⟩

/-! ## The text of the program -/

/-- A program with the same frame has the same top-level functions. -/
theorem topLevel_eq_of_keepsFrame {p q : Program} (h : p.KeepsFrame q) :
    q.topLevel.map Prod.fst = p.topLevel.map Prod.fst := by
  have hmem (id : FunctionId) :
      id ∈ q.topLevel.map Prod.fst ↔ id ∈ p.topLevel.map Prod.fst := by
    rw [mem_topLevel_fst, mem_topLevel_fst]
    constructor
    · rintro ⟨g, hg, htop⟩
      obtain ⟨f, hf⟩ := h.topLevel hg htop
      exact ⟨f, hf, (h.grown.isClosure_eq hf hg).symm.trans htop⟩
    · rintro ⟨f, hf, htop⟩
      obtain ⟨g, hg, _⟩ := h.grown id f hf
      exact ⟨g, hg, (h.grown.isClosure_eq hf hg).trans htop⟩
  have hperm := (List.perm_ext_iff_of_nodup q.nodup_topLevel p.nodup_topLevel).mpr hmem
  exact hperm.eq_of_pairwise (fun _ _ _ _ hab hba => absurd hba (Nat.lt_asymm hab))
    q.sorted_topLevel p.sorted_topLevel

section Text

variable [NarrowConversions]

/-- The lines of a top-level function of a program. -/
def linesOf (p : Program) (top : FunctionId) : List Line :=
  (p.function? top).elim [] p.functionLines

/-- A party alone builds a function with the same text. -/
theorem Agrees.linesOf_eq (h : Agrees p top ρ own full) (hfull : full.program.Forest) :
    linesOf full.program top = linesOf own.program top := by
  obtain ⟨⟨f, hf⟩, hroot⟩ := h.renamed.member_top
  have hfunction := h.renamed.function hf hroot
  rw [h.renamed.top_eq] at hfunction
  rw [linesOf, hfunction, linesOf, hf]
  exact h.renamed.functionLines hfull hf

theorem lines_eq_linesOf (p : Program) :
    p.lines = ⟨0, p.header⟩ :: p.meshes.map (fun mesh => ⟨1, mesh.declaration⟩) ++
      (p.topLevel.map Prod.fst).flatMap (linesOf p) ++ [⟨0, "\x7d"⟩] := by
  have hfunctions : p.topLevel.flatMap (fun entry => p.functionLines entry.2) =
      (p.topLevel.map Prod.fst).flatMap (linesOf p) := by
    rw [List.flatMap_map]
    refine List.flatMap_congr fun entry hentry => ?_
    rw [linesOf, (mem_topLevel.mp hentry).1, Option.elim_some]
  rw [← hfunctions, lines]

/-- The text of a program is put together from what its parties build alone. -/
theorem lines_run (hforest : p.Forest) (hscoped : p.WellScoped) {w : Schedule} (hw : Fits p w) :
    (run p w).program.lines =
      ⟨0, p.header⟩ :: p.meshes.map (fun mesh => ⟨1, mesh.declaration⟩) ++
        (p.topLevel.map Prod.fst).flatMap (fun top => linesOf (run p (w.only top)).program top) ++
        [⟨0, "\x7d"⟩] := by
  obtain ⟨hframe, hagrees⟩ := agrees_run hforest hscoped hw
  have hheader : (run p w).program.header = p.header := by
    rw [header, hframe.name, hframe.distribution, header]
  have hmeshes : (run p w).program.meshes = p.meshes := by
    rw [meshes, hframe.distribution, meshes]
  have hfunctions : (p.topLevel.map Prod.fst).flatMap (linesOf (run p w).program) =
      (p.topLevel.map Prod.fst).flatMap fun top => linesOf (run p (w.only top)).program top := by
    refine List.flatMap_congr fun top htop => ?_
    obtain ⟨ρ, h⟩ := hagrees top htop
    exact h.linesOf_eq ((run_steps p w).forest hforest)
  rw [lines_eq_linesOf, hheader, hmeshes, topLevel_eq_of_keepsFrame hframe, hfunctions]

/-- Only the order matters in which each party makes its own requests. -/
theorem run_congr (hforest : p.Forest) (hscoped : p.WellScoped) {w w' : Schedule} (hw : Fits p w)
    (hw' : Fits p w') (hsame : ∀ top ∈ p.topLevel.map Prod.fst, w.only top = w'.only top) :
    (∀ top ∈ p.topLevel.map Prod.fst, (run p w).outcomes top = (run p w').outcomes top) ∧
      (run p w).program.text = (run p w').program.text := by
  constructor
  · intro top htop
    obtain ⟨ρ, h⟩ := (agrees_run hforest hscoped hw).2 top htop
    obtain ⟨σ, h'⟩ := (agrees_run hforest hscoped hw').2 top htop
    rw [h.outcomes_eq, h'.outcomes_eq, hsame top htop]
  · have hlines : (p.topLevel.map Prod.fst).flatMap
        (fun top => linesOf (run p (w.only top)).program top) =
          (p.topLevel.map Prod.fst).flatMap
            fun top => linesOf (run p (w'.only top)).program top :=
      List.flatMap_congr fun top htop => by rw [hsame top htop]
    rw [text, lines_run hforest hscoped hw, hlines, ← lines_run hforest hscoped hw', text]

/-! ## Two scripts -/

/-- A script for one top-level function and a script for another can be run in any order that
keeps the order in each of them. -/
theorem outcomes_of_interleaving {name : String} {calls : List Call} {i j : FunctionId}
    (hi : i ∈ (ofCalls name calls).topLevel.map Prod.fst)
    (hj : j ∈ (ofCalls name calls).topLevel.map Prod.fst) (hne : i ≠ j) {S T : List Request}
    (hS : ∀ r ∈ S, r.isCollective = false ∧ r.Given ((ofCalls name calls).Inside i))
    (hT : ∀ r ∈ T, r.isCollective = false ∧ r.Given ((ofCalls name calls).Inside j)) {w : Schedule}
    (hw : Interleaving (S.map fun r => (i, r)) (T.map fun r => (j, r)) w) :
    let inTurn := run (ofCalls name calls) (S.map (fun r => (i, r)) ++ T.map fun r => (j, r))
    let mixed := run (ofCalls name calls) w
    mixed.outcomes i = inTurn.outcomes i ∧ mixed.outcomes j = inTurn.outcomes j ∧
      mixed.program.text = inTurn.program.text := by
  intro inTurn mixed
  have hforest := ofCalls_forest name calls
  have hscoped := ofCalls_wellScoped name calls
  have hinTurn := Interleaving.append (S.map fun r => (i, r)) (T.map fun r => (j, r))
  have hall {w : Schedule} (hw : Interleaving (S.map fun r => (i, r)) (T.map fun r => (j, r)) w) :
      Fits (ofCalls name calls) w := fun entry hentry =>
    (hw.mem hentry).elim (fits_script hforest hi hS entry) (fits_script hforest hj hT entry)
  obtain ⟨houtcomes, htext⟩ :=
    run_congr hforest hscoped (hall hw) (hall hinTurn) fun _ _ => hw.only_eq hne hinTurn
  exact ⟨houtcomes i hi, houtcomes j hj, htext⟩

end Text

def twoFunctions : Program :=
  .ofCalls "example" [.function "left" [.of (.real .f32) [2]],
    .function "right" [.of (.real .f32) [2]]]

/-- A function of `twoFunctions` is made to sum the elements of its input. -/
def sumScript (top : FunctionId) : List Request :=
  [.namedInput (.given top) "initial" (.scalar (.real .f32)),
    .closure (.given top),
    .input (.answered 1) (.scalar (.real .f32)),
    .input (.answered 1) (.scalar (.real .f32)),
    .append (.answered 1) (.binary (.binary .add) (.answered 2 0) (.answered 3 0)),
    .returnValues (.answered 1) [.answered 4 0],
    .append (.given top) (.reduce [.given ⟨top, 0⟩] [.answered 0 0] [0] (.answered 1)),
    .returnValues (.given top) [.answered 6 0]]

/-- All requests for the second function are made after the first request for the first
function, so that the closure of the first function comes last. -/
def mixedSums : Schedule :=
  ((sumScript 0).take 1).map (fun r => (0, r)) ++
    ((sumScript 1).map (fun r => (1, r)) ++ ((sumScript 0).drop 1).map fun r => (0, r))

theorem given_sumScript {P : FunctionId → Prop} {top : FunctionId} (h : P top) :
    ∀ r ∈ sumScript top, r.isCollective = false ∧ r.Given P := by
  have hadd : (OpKind.binary .add).hasCapability .collective = false := by decide
  have hreduce : OpKind.reduce.hasCapability .collective = false := by decide
  simp [sumScript, Request.isCollective, Request.Given, FunctionHandle.Given, ValueHandle.Given,
    Operation.isCollective, Operation.kind, Operation.operands, Operation.computation?, hadd,
    hreduce, h]

/-- The closure in the first function gets another position, and nothing else changes. -/
theorem outcomes_of_interleaving_sums :
    let inTurn := run twoFunctions
      ((sumScript 0).map (fun r => (0, r)) ++ (sumScript 1).map fun r => (1, r))
    let mixed := run twoFunctions mixedSums
    (inTurn.replies 0)[1]? = some (some (.ok (.function 2))) ∧
      (mixed.replies 0)[1]? = some (some (.ok (.function 3))) ∧
      mixed.outcomes 0 = inTurn.outcomes 0 ∧ mixed.outcomes 1 = inTurn.outcomes 1 ∧
      mixed.program.text = inTurn.program.text := by
  refine ⟨by decide, by decide, ?_⟩
  exact outcomes_of_interleaving (by decide) (by decide) (by decide) (given_sumScript .self)
    (given_sumScript .self) (.left (Interleaving.append _ _).swap)

end Session

end TensorProgram
