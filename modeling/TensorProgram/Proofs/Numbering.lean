import TensorProgram.Proofs.Frozen
import TensorProgram.Proofs.Outcomes

/-!
# Numbers of values

The outputs of statements are numbered by a counter that a top-level function shares with the
closures in it.  Every number below the counter is taken, by one value (`Numbered.taken`), the
numbers of a statement are consecutive and come after all numbers in the closure that it uses
(`Program.FollowsClosure`), and along the statements of a body numbers increase
(`Program.Increasing`).

What a program has numbered keeps its numbers when the program grows, so a step has to account
for the statement that it adds only: `Step.numbered`.  A closure that is in use has returned, as
have all closures used in it, which puts their numbers below the counter at the time of the use.
`numbering_of_calls` states the result for all programs that calls lead to.
-/

namespace TensorProgram

namespace Program

/-! ## Numbers -/

/-- The number of a value that is named by one. -/
def number? (p : Program) (v : Value) : Option Nat :=
  (p.valueData? v).bind (·.name.number?)

/-- Uses lead from one function to the other. -/
abbrev UsedWithin (p : Program) : FunctionId → FunctionId → Prop :=
  Relation.ReflTransGen fun c d => d ∈ p.usesOf c

/-- The outputs of the statements have numbers that increase. -/
def Increasing (p : Program) (statements : List Statement) : Prop :=
  ∃ numbers : List Nat, (statements.flatMap Statement.outputs).map p.number? =
    numbers.map some ∧ numbers.Pairwise (· < ·)

/-- The outputs have consecutive numbers, and all numbers in the closure of the statement are
smaller, at any depth of closures. -/
def FollowsClosure (p : Program) (s : Statement) : Prop :=
  ∃ first, s.outputs.map p.number? = (List.range' first s.outputs.length).map some ∧
    ∀ c d v n, s.closureId? = some c → p.UsedWithin c d → v.function = d →
      p.number? v = some n → n < first

/-- Numbers are given out in order, without gaps. -/
structure Numbered (p : Program) : Prop where
  taken : ∀ {r g n}, p.function? r = some g → n < g.scope.valueCount →
    ∃ v, p.root v.function = r ∧ p.number? v = some n
  increasing : ∀ id, p.Increasing (p.body id)
  followsClosure : ∀ {id s}, s ∈ p.body id → p.FollowsClosure s

variable {p q : Program} {id : FunctionId} {f : Function}

theorem known_of_number? {v : Value} {n : Nat} (h : p.number? v = some n) : p.Known v := by
  obtain ⟨data, hdata, _⟩ := Option.bind_eq_some_iff.mp h
  rw [Known, hdata]
  rfl

theorem exists_function?_of_known {v : Value} (h : p.Known v) :
    ∃ f, p.function? v.function = some f := by
  obtain ⟨data, hdata⟩ := Option.isSome_iff_exists.mp h
  obtain ⟨f, hf, _⟩ := Option.bind_eq_some_iff.mp hdata
  exact ⟨f, hf⟩

/-- In program text a value that has a number is written as that number, and no other value
is. -/
theorem Named.valueText_eq_number (hp : p.Named) {v : Value} (hv : p.Known v) (n : Nat) :
    p.valueText v = "%" ++ toString n ↔ p.number? v = some n := by
  obtain ⟨data, hdata⟩ := Option.isSome_iff_exists.mp hv
  have hholds := hp.holds hdata
  have hnumber : p.number? v = data.name.number? := by rw [number?, hdata, Option.bind_some]
  rw [valueText_eq hdata, hnumber, ValueName.render_eq, String.append_right_inj]
  unfold Scope.Holds at hholds
  cases hname : data.name.number? with
  | none =>
    rw [hname] at hholds
    refine ⟨fun htext => ?_, fun h => nomatch h⟩
    have hdigit := hholds.2
    rw [htext, startsWithDigit_toString] at hdigit
    cases hdigit
  | some m =>
    rw [ValueName.identifier_of_number hname, Option.some.injEq]
    exact ⟨toString_injective, congrArg toString⟩

/-- The numbers of a tree are below the counter of its root. -/
theorem Named.number_lt (hp : p.Named) {v : Value} {n : Nat} (h : p.number? v = some n) :
    n < (p.scope v.function).valueCount := by
  obtain ⟨data, hdata, hnumber⟩ := Option.bind_eq_some_iff.mp h
  have hholds := hp.holds hdata
  unfold Scope.Holds at hholds
  simpa only [hnumber] using hholds

/-- A number belongs to one value of a tree. -/
theorem Named.eq_of_number? (hp : p.Named) {v w : Value} {n : Nat} (hv : p.number? v = some n)
    (hw : p.number? w = some n) (hroot : p.root v.function = p.root w.function) : v = w := by
  obtain ⟨dv, hdv, hnv⟩ := Option.bind_eq_some_iff.mp hv
  obtain ⟨dw, hdw, hnw⟩ := Option.bind_eq_some_iff.mp hw
  by_contra hne
  refine hp.distinct hdv hdw hroot hne ?_
  rw [ValueName.render_eq, ValueName.render_eq, ValueName.identifier_of_number hnv,
    ValueName.identifier_of_number hnw]

/-! ## What a grown program keeps -/

section Growth

variable (h : p.Extends q)

include h

theorem Extends.number?_eq {v : Value} (hv : p.Known v) : q.number? v = p.number? v := by
  rw [number?, h.valueData?_eq hv, number?]

/-- A number that is taken stays taken. -/
theorem Extends.taken {r n : Nat} (hp : ∃ v, p.root v.function = r ∧ p.number? v = some n) :
    ∃ v, q.root v.function = r ∧ q.number? v = some n := by
  obtain ⟨v, hroot, hn⟩ := hp
  have hv := known_of_number? hn
  obtain ⟨f, hf⟩ := exists_function?_of_known hv
  exact ⟨v, (h.root_eq hf).trans hroot, (h.number?_eq hv).trans hn⟩

theorem Extends.map_number? {values : List Value} (hvalues : ∀ v ∈ values, p.Known v) :
    values.map q.number? = values.map p.number? :=
  List.map_congr_left fun v hv => h.number?_eq (hvalues v hv)

/-- A function that has returned keeps its statements and values. -/
theorem Extends.frozen (hf : p.function? id = some f) (hreturned : f.isReturned = true) :
    q.body id = p.body id ∧ ∀ v, v.function = id → q.number? v = p.number? v := by
  obtain ⟨g, hg, hfg⟩ := h id f hf
  obtain ⟨_, hvalues, hstatements, _⟩ := hfg.frozen hreturned
  constructor
  · simp [body, hf, hg, hstatements]
  · rintro v rfl
    simp [number?, Program.valueData?, hf, hg, hvalues]

end Growth

theorem WellScoped.known_of_output (hp : p.WellScoped) {s : Statement} (hs : s ∈ p.body id) :
    ∀ v ∈ s.outputs, p.Known v := by
  intro v hv
  obtain ⟨f, hf, hs⟩ := exists_function?_of_mem_body hs
  exact (hp.known_of_introduced hf
    (List.mem_append_right _ (List.mem_flatMap.mpr ⟨s, hs, hv⟩))).2

/-- What is used in a closure that has returned has returned, and lies in the same tree. -/
theorem Forest.of_usedWithin (hp : p.Forest) {c d : FunctionId} {g : Function}
    (hg : p.function? c = some g) (hreturned : g.isReturned = true) (h : p.UsedWithin c d) :
    (∃ k, p.function? d = some k ∧ k.isReturned = true) ∧ p.root d = p.root c := by
  induction h with
  | refl => exact ⟨⟨g, hg, hreturned⟩, rfl⟩
  | tail _ huse ih =>
    obtain ⟨m, root, hm, hrole, hm', _⟩ := hp.node?_of_mem_usesOf huse
    obtain ⟨k, hk, rfl⟩ := Option.map_eq_some_iff.mp hm
    exact ⟨⟨k, hk, hm'⟩, by rw [root_of_closure hm hrole, hp.root_eq hm hrole, ih.2]⟩

/-- Later uses do not reach a closure that has returned. -/
theorem Extends.usedWithin (h : p.Extends q) (hp : p.Forest) {c d : FunctionId} {g : Function}
    (hg : p.function? c = some g) (hreturned : g.isReturned = true) (hd : q.UsedWithin c d) :
    p.UsedWithin c d := by
  induction hd with
  | refl => exact .refl
  | tail _ huse ih =>
    obtain ⟨⟨k, hk, hk'⟩, _⟩ := hp.of_usedWithin hg hreturned ih
    rw [usesOf, (h.frozen hk hk').1] at huse
    exact ih.tail huse

/-- A statement keeps its numbers, and its closure takes no new ones. -/
theorem Extends.followsClosure (h : p.Extends q) (hforest : p.Forest) (hscoped : p.WellScoped)
    {s : Statement} (hs : s ∈ p.body id) (hp : p.FollowsClosure s) : q.FollowsClosure s := by
  obtain ⟨first, houtputs, hclosure⟩ := hp
  refine ⟨first, (h.map_number? (hscoped.known_of_output hs)).trans houtputs, ?_⟩
  intro c d v n hc hd hv hn
  have huse : c ∈ p.usesOf id := List.mem_filterMap.mpr ⟨s, hs, hc⟩
  obtain ⟨m, _, hm, _, hm', _⟩ := hforest.node?_of_mem_usesOf huse
  obtain ⟨g, hg, rfl⟩ := Option.map_eq_some_iff.mp hm
  have hd := h.usedWithin hforest hg hm' hd
  obtain ⟨⟨k, hk, hk'⟩, _⟩ := hforest.of_usedWithin hg hm' hd
  rw [(h.frozen hk hk').2 v hv] at hn
  exact hclosure c d v n hc hd hv hn

theorem Extends.increasing (h : p.Extends q) (hscoped : p.WellScoped)
    (hp : p.Increasing (p.body id)) : q.Increasing (p.body id) := by
  obtain ⟨numbers, houtputs, hnumbers⟩ := hp
  refine ⟨numbers, (h.map_number? fun v hv => ?_).trans houtputs, hnumbers⟩
  obtain ⟨s, hs, hv⟩ := List.mem_flatMap.mp hv
  exact hscoped.known_of_output hs v hv

/-- A program that has grown without a statement. -/
theorem Numbered.grow (hp : p.Numbered) (h : p.Extends q) (hforest : p.Forest)
    (hscoped : p.WellScoped) (hbody : ∀ j, q.body j = p.body j)
    (hcount : ∀ r g, q.function? r = some g → g.scope.valueCount = 0 ∨
      ∃ f, p.function? r = some f ∧ g.scope.valueCount = f.scope.valueCount) : q.Numbered where
  taken {r g n} hg hn := by
    rcases hcount r g hg with hzero | ⟨f, hf, heq⟩
    · omega
    · exact h.taken (hp.taken hf (heq ▸ hn))
  increasing j := by
    rw [hbody]
    exact h.increasing hscoped (hp.increasing j)
  followsClosure {j s} hs := by
    rw [hbody] at hs
    exact h.followsClosure hforest hscoped hs (hp.followsClosure hs)

/-! ## A new statement -/

section NewStatement

variable {s : Statement} {shapes : List Shape}
  (hvalues : (q.function? id).map Function.values =
    some (f.values ++ numberedData (p.scope id).valueCount shapes))

include hvalues

theorem number?_new {i : Nat} (hi : i < shapes.length) :
    q.number? ⟨id, f.values.length + i⟩ = some ((p.scope id).valueCount + i) := by
  obtain ⟨g, hg, hgvalues⟩ := Option.map_eq_some_iff.mp hvalues
  have hdata : (numberedData (p.scope id).valueCount shapes)[i]? =
      some ⟨.numbered ((p.scope id).valueCount + i), shapes[i], none⟩ := by
    simp [numberedData, hi]
  rw [number?, valueData?, hg, Option.bind_some, hgvalues,
    List.getElem?_append_right (Nat.le_add_right _ _), Nat.add_sub_cancel_left, hdata]
  rfl

/-- The outputs of the statement take the next numbers. -/
theorem map_number?_new (hs : p.NewStatement id f s shapes) :
    s.outputs.map q.number? = (List.range' (p.scope id).valueCount shapes.length).map some := by
  rw [hs.outputs, consecutiveValues, List.map_map, List.range'_eq_map_range, List.map_map]
  exact List.map_congr_left fun i hi => number?_new hvalues (List.mem_range.mp hi)

/-- What is numbered in the tree so far comes before the outputs of the statement. -/
theorem followsClosure_new (h : p.Extends q) (hforest : p.Forest) (hnamed : p.Named)
    (hs : p.NewStatement id f s shapes) : q.FollowsClosure s := by
  have hlength : s.outputs.length = shapes.length := by
    rw [hs.outputs, consecutiveValues, List.length_map, List.length_range]
  refine ⟨(p.scope id).valueCount, by rw [hlength, map_number?_new hvalues hs], ?_⟩
  intro c d v n hc hd hv hn
  obtain ⟨use, huse, rfl⟩ := Option.map_eq_some_iff.mp hc
  obtain ⟨g, hg, hparent, hreturned, _⟩ := hs.closure use huse
  -- the closure was finished before the statement, and so was all that is used in it
  have hd := h.usedWithin hforest hg hreturned hd
  obtain ⟨⟨k, hk, hk'⟩, hroot⟩ := hforest.of_usedWithin hg hreturned hd
  rw [(h.frozen hk hk').2 v hv] at hn
  have hlt := hnamed.number_lt hn
  obtain ⟨root, hrole⟩ := role_eq_of_parent? hparent
  have hgroot : p.root use.function = p.root id := by
    have hn := node?_of_function? hg
    rw [root_of_closure hn hrole, hforest.root_eq hn hrole]
  rwa [hv, scope_eq_of_root_eq (hroot.trans hgroot)] at hlt

/-- The numbers of the new outputs continue those of the body. -/
theorem increasing_new (h : p.Extends q) (hscoped : p.WellScoped) (hnamed : p.Named)
    (hf : p.function? id = some f) (hs : p.NewStatement id f s shapes)
    (hp : p.Increasing (p.body id)) : q.Increasing (p.body id ++ [s]) := by
  obtain ⟨numbers, houtputs, hnumbers⟩ := hp
  have hknown : ∀ v ∈ (p.body id).flatMap Statement.outputs, p.Known v := by
    intro v hv
    obtain ⟨t, ht, hv⟩ := List.mem_flatMap.mp hv
    exact hscoped.known_of_output ht v hv
  refine ⟨numbers ++ List.range' (p.scope id).valueCount shapes.length, ?_, ?_⟩
  · rw [List.flatMap_append, List.flatMap_singleton, List.map_append, List.map_append,
      h.map_number? hknown, houtputs, map_number?_new hvalues hs]
  · rw [List.pairwise_append]
    refine ⟨hnumbers, List.pairwise_lt_range', fun m hm n hn => ?_⟩
    obtain ⟨v, hv, hm⟩ : ∃ v ∈ (p.body id).flatMap Statement.outputs, p.number? v = some m :=
      List.mem_map.mp (houtputs ▸ List.mem_map_of_mem hm)
    have hvid : v.function = id := by
      refine (hscoped.known_of_introduced hf (List.mem_append_right _ ?_)).1
      rwa [← body_eq hf]
    have hlt := hvid ▸ hnamed.number_lt hm
    exact Nat.lt_of_lt_of_le hlt (List.mem_range'_1.mp hn).1

/-- A number below the new counter is an old one or the number of a new output. -/
theorem taken_new (h : p.Extends q) (hf : p.function? id = some f) (hp : p.Numbered) {r n : Nat}
    {g : Function} (hg : p.function? r = some g)
    (hn : n < (if p.root id = r then g.scope.takeNumbers shapes.length else g.scope).valueCount) :
    ∃ v, q.root v.function = r ∧ q.number? v = some n := by
  rcases Nat.lt_or_ge n g.scope.valueCount with hold | hnew
  · exact h.taken (hp.taken hg hold)
  · split_ifs at hn with hr
    · have hcount : (p.scope id).valueCount = g.scope.valueCount := by simp [scope, hr, hg]
      obtain ⟨i, rfl⟩ := Nat.exists_eq_add_of_le hnew
      have hi : i < shapes.length := Nat.lt_of_add_lt_add_left hn
      refine ⟨⟨id, f.values.length + i⟩, (h.root_eq hf).trans hr, ?_⟩
      rw [number?_new hvalues hi, hcount]
    · omega

end NewStatement

/-! ## All programs -/

theorem numbered_empty (name : String) : (Program.empty name).Numbered where
  taken hg := by cases hg
  increasing _ := ⟨[], rfl, .nil⟩
  followsClosure hs := by cases hs

theorem Step.numbered (h : Step p q) (hforest : p.Forest) (hnamed : p.Named)
    (hscoped : p.WellScoped) (hp : p.Numbered) : q.Numbered := by
  have hextends := h.extends
  cases h.effect with
  | unchanged hq =>
    refine hp.grow hextends hforest hscoped (fun j => by rw [body, hq, body]) fun r g hg => ?_
    exact .inr ⟨g, by rwa [← hq], rfl⟩
  | function hrole hq =>
    refine hp.grow hextends hforest hscoped (fun j => ?_) fun r g hg => ?_
    · rw [body, hq]
      split_ifs with hj
      · rw [hj, body, function?, List.getElem?_eq_none (Nat.le_refl _)]
        rfl
      · rfl
    · exact forall_of_new hq (.inl rfl) (fun r g hg => .inr ⟨g, hg, rfl⟩) r g hg
  | @input id f data hf hopen hname hq =>
    refine hp.grow hextends hforest hscoped (fun j => ?_) fun r g hg => ?_
    · rw [body, hq, Option.map_map]
      rfl
    · rw [hq] at hg
      obtain ⟨g, hg', rfl⟩ := Option.map_eq_some_iff.mp hg
      refine .inr ⟨g, hg', ?_⟩
      have htake (scope : Scope) (name : ValueName) :
          (scope.takeInput name).valueCount = scope.valueCount := by
        cases name <;> rfl
      show (if p.root id = r then g.scope.takeInput data.name else g.scope).valueCount = _
      split_ifs
      · exact htake g.scope data.name
      · rfl
  | @statement id f s shapes hf hopen hs returned? hq =>
    have hvalues : (q.function? id).map Function.values =
        some (f.values ++ numberedData (p.scope id).valueCount shapes) := by
      simp [hq, hf]
    have hbody (j : FunctionId) : q.body j = if id = j then p.body j ++ [s] else p.body j := by
      rw [body, hq, Option.map_map]
      by_cases hj : id = j
      · subst hj
        simp [body, hf]
      · simp [hj, body, Function.comp_def]
    constructor
    case taken =>
      intro r g n hg hn
      rw [hq] at hg
      obtain ⟨g, hg', rfl⟩ := Option.map_eq_some_iff.mp hg
      exact taken_new hvalues hextends hf hp hg' hn
    case increasing =>
      intro j
      rw [hbody]
      split_ifs with hj
      · subst hj
        exact increasing_new hvalues hextends hscoped hnamed hf hs (hp.increasing id)
      · exact hextends.increasing hscoped (hp.increasing j)
    case followsClosure =>
      intro j t ht
      rw [hbody] at ht
      split_ifs at ht with hj
      · rcases List.mem_append.mp ht with ht | ht
        · exact hextends.followsClosure hforest hscoped ht (hp.followsClosure ht)
        · obtain rfl := List.mem_singleton.mp ht
          exact followsClosure_new hvalues hextends hforest hnamed hs
      · exact hextends.followsClosure hforest hscoped ht (hp.followsClosure ht)

theorem ofCalls_numbered (name : String) (calls : List Call) :
    (Program.ofCalls name calls).Numbered :=
  (ofCalls_induction (motive := fun p => p.Forest ∧ p.Named ∧ p.WellScoped ∧ p.Numbered)
    (fun name => ⟨forest_empty name, named_empty name, wellScoped_empty name, numbered_empty name⟩)
    (fun _ _ ⟨hforest, hnamed, hscoped, hp⟩ hstep => ⟨hstep.forest hforest,
      hstep.named hforest hnamed, hstep.wellScoped hscoped,
      hstep.numbered hforest hnamed hscoped hp⟩) name calls).2.2.2

/-- Every function lies in its root. -/
theorem Forest.inside_root (hp : p.Forest) (hf : p.function? id = some f) :
    p.Inside (p.root id) id := by
  induction id using Nat.strongRecOn generalizing f with
  | ind id ih =>
    have hn : p.node? id = some f.node := node?_of_function? hf
    cases hrole : f.role with
    | topLevel name =>
      rw [root_of_topLevel hn hrole]
      exact .self
    | closure parent root =>
      have hlt := hp.parent_lt hn hrole
      obtain ⟨g, hg⟩ := exists_function?_of_lt (Nat.lt_trans hlt (lt_of_function? hf))
      rw [root_of_closure hn hrole, hp.root_eq hn hrole]
      exact .closure (ih parent hlt hg) hf (by simp [Function.parent?, hrole])

/-- The numbers of values in program text.  A top-level function and the closures in it have the
numbers below its counter, one value for each.  Along the statements of a body they increase;
those of one statement are consecutive and come after the numbers in the closure that the
statement uses, at any depth. -/
theorem numbering_of_calls (name : String) (calls : List Call) :
    let p := Program.ofCalls name calls
    (∀ v n, p.Known v → (p.valueText v = "%" ++ toString n ↔ p.number? v = some n)) ∧
      (∀ top f, (top, f) ∈ p.topLevel →
        (∀ v n, p.Inside top v.function → p.number? v = some n → n < f.scope.valueCount) ∧
        ∀ n, n < f.scope.valueCount →
          ∃! v, p.Inside top v.function ∧ p.number? v = some n) ∧
      (∀ id, p.Increasing (p.body id)) ∧
      ∀ id s, s ∈ p.body id → p.FollowsClosure s := by
  intro p
  have hforest : p.Forest := ofCalls_forest name calls
  have hnamed : p.Named := ofCalls_named name calls
  have hp : p.Numbered := ofCalls_numbered name calls
  refine ⟨fun v n hv => hnamed.valueText_eq_number hv n, ?_, hp.increasing,
    fun id s => hp.followsClosure⟩
  intro top f htop
  obtain ⟨hf, hopen⟩ := mem_topLevel.mp htop
  have hroot {id : FunctionId} (h : p.Inside top id) : p.root id = top := h.root_eq hforest hf hopen
  constructor
  · intro v n hv hn
    have hlt := hnamed.number_lt hn
    simpa [scope, hroot hv, hf] using hlt
  · intro n hn
    obtain ⟨v, hv, hvn⟩ := hp.taken hf hn
    obtain ⟨g, hg⟩ := exists_function?_of_known (known_of_number? hvn)
    refine ⟨v, ⟨hv ▸ hforest.inside_root hg, hvn⟩, ?_⟩
    rintro w ⟨hw, hwn⟩
    exact hnamed.eq_of_number? hwn hvn ((hroot hw).trans hv.symm)

end Program

end TensorProgram
