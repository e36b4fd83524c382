import TensorProgram.Proofs.RenamedRuns
import TensorProgram.Proofs.ShardingTexts

/-!
# Meshes and shardings

A program is not spread at all, by counts, or over meshes, and it does not change its mind:
`Program.Spreads` says what may become of a distribution.  Meshes that a program has taken in
have names of their own and the same number of devices (`Meshed`), and they stay.

A sharding is checked when it is attached to a value or an output.  Since meshes stay, it would
pass the same check at any later time: `Program.Sharded`.  `distribution_of_calls` puts this
together.
-/

namespace TensorProgram

/-- There are meshes, with names of their own and the same number of devices. -/
structure Meshed (ms : List Mesh) : Prop where
  nonempty : ms ≠ []
  names : (ms.map Mesh.name).Nodup
  devices : ∀ m ∈ ms, ∀ m' ∈ ms, m.deviceCount = m'.deviceCount

theorem meshed_singleton (mesh : Mesh) : Meshed [mesh] where
  nonempty := List.cons_ne_nil _ _
  names := List.nodup_singleton _
  devices m hm m' hm' := by rw [List.mem_singleton.mp hm, List.mem_singleton.mp hm']

theorem Meshed.append {ms : List Mesh} (h : Meshed ms) {mesh : Mesh}
    (hname : ∀ m ∈ ms, m.name ≠ mesh.name) (hdevices : ∃ m ∈ ms, m.deviceCount = mesh.deviceCount) :
    Meshed (ms ++ [mesh]) where
  nonempty := by simp
  names := by
    rw [List.map_append, List.map_singleton, ← List.concat_eq_append]
    refine List.Nodup.concat (fun hmem => ?_) h.names
    obtain ⟨m, hm, hsame⟩ := List.mem_map.mp hmem
    exact hname m hm hsame
  devices := by
    obtain ⟨first, hfirst, hcount⟩ := hdevices
    have hnew (m : Mesh) (hm : m ∈ ms ++ [mesh]) : m.deviceCount = mesh.deviceCount := by
      rcases List.mem_append.mp hm with hm | hm
      · exact (h.devices m hm first hfirst).trans hcount
      · rw [List.mem_singleton.mp hm]
    exact fun m hm m' hm' => (hnew m hm).trans (hnew m' hm').symm

/-- What may become of a distribution: it can be set once, counts can be replaced by other counts,
and meshes can be added. -/
inductive Spreads : Option Distribution → Option Distribution → Prop
  | unset (d : Option Distribution) : Spreads none d
  | counts (replicas partitions replicas' partitions' : Nat) :
    Spreads (some (.replicated replicas partitions)) (some (.replicated replicas' partitions'))
  | meshes (ms more : List Mesh) : Spreads (some (.meshes ms)) (some (.meshes (ms ++ more)))

namespace Spreads

theorem refl (d : Option Distribution) : Spreads d d := by
  rcases d with _ | ⟨replicas, partitions⟩ | ms
  · exact .unset none
  · exact .counts replicas partitions replicas partitions
  · have h := Spreads.meshes ms []
    rwa [List.append_nil] at h

theorem trans {d e f : Option Distribution} (hde : Spreads d e) (hef : Spreads e f) :
    Spreads d f := by
  cases hde with
  | unset => exact .unset f
  | counts => cases hef with
    | counts => exact .counts _ _ _ _
  | meshes ms more => cases hef with
    | meshes _ more' =>
      rw [List.append_assoc]
      exact .meshes ms (more ++ more')

end Spreads

/-! ## Annotations -/

/-- A shape in a function that a sharding is attached to: that of a value or of an output. -/
inductive Function.Annotation (f : Function) : Shape → Sharding → Prop
  | value {data : ValueData} {s : Sharding} (hdata : data ∈ f.values)
      (hs : data.sharding? = some s) : Annotation f data.shape s
  | output {output : Output} {s : Sharding} (houtput : output ∈ f.outputs)
      (hs : output.sharding? = some s) : Annotation f output.shape s

namespace Program

variable {p q : Program} {id : FunctionId} {f : Function} {shape : Shape} {s : Sharding}

theorem checkSharding_eq_ok : p.checkSharding s shape = .ok () ↔
    p.mesh? s.mesh.name = some s.mesh ∧ s.rank ≤ shape.rank ∧ s.validate = .ok () := by
  simp only [checkSharding, bind_eq_ok, require_eq_ok, mapError_eq_ok, beq_iff_eq,
    decide_eq_true_eq, exists_const]

/-- A sharding over a mesh that the program knows stays one. -/
theorem checkSharding_of_spreads (h : Spreads p.distribution? q.distribution?)
    (hs : p.checkSharding s shape = .ok ()) : q.checkSharding s shape = .ok () := by
  obtain ⟨hmesh, hrank, hvalid⟩ := checkSharding_eq_ok.mp hs
  refine checkSharding_eq_ok.mpr ⟨?_, hrank, hvalid⟩
  unfold mesh? meshes at hmesh ⊢
  generalize p.distribution? = d at h hmesh
  generalize q.distribution? = e at h ⊢
  cases h with
  | unset => cases hmesh
  | counts => cases hmesh
  | meshes ms more => rw [List.find?_append, hmesh, Option.some_or]

/-- Every sharding in the program passes the check that it had to pass. -/
def Sharded (p : Program) : Prop :=
  ∀ id f, p.function? id = some f → ∀ shape s, f.Annotation shape s →
    p.checkSharding s shape = .ok ()

/-! ## Steps -/

/-- A mesh is taken in when there are no counts, it has a new name, and it has as many devices as
the first mesh. -/
theorem of_checkNewMesh {mesh : Mesh} (h : Builder.checkNewMesh mesh p = .ok ()) :
    (∀ replicas partitions, p.distribution? ≠ some (.replicated replicas partitions)) ∧
      (∀ m ∈ p.meshes, m.name ≠ mesh.name) ∧
        ∀ first, p.meshes.head? = some first → first.deviceCount = mesh.deviceCount := by
  rw [Builder.checkNewMesh] at h
  rcases hd : p.distribution? with _ | ⟨replicas, partitions⟩ | ms <;> rw [hd] at h
  case some.replicated => cases h
  all_goals
    obtain ⟨_, hname, hcount⟩ := bind_eq_ok.mp h
    have hname := Option.isNone_iff_eq_none.mp (require_eq_ok.mp hname)
    refine ⟨by simp, fun m hm => by simpa using List.find?_eq_none.mp hname m hm, ?_⟩
    intro first hfirst
    rw [hfirst] at hcount
    simpa using require_eq_ok.mp hcount

/-- A step changes the distribution only in the ways that `Spreads` lists. -/
theorem Step.spreads (h : Step p q) : Spreads p.distribution? q.distribution? := by
  cases h with
  | function hname => exact .refl _
  | closure hf hopen => exact .refl _
  | @counts replicas partitions hmeshes =>
    cases hd : p.distribution? with
    | none => exact .unset _
    | some d => cases d with
      | replicated => exact .counts _ _ _ _
      | meshes ms => exact absurd hd (hmeshes ms)
  | @mesh mesh hmesh =>
    unfold meshes
    cases hd : p.distribution? with
    | none => exact .unset _
    | some d => cases d with
      | replicated => exact absurd hd ((of_checkNewMesh hmesh).1 _ _)
      | meshes ms => exact .meshes ms [mesh]
  | input hf hopen hname hsharding => exact .refl _
  | operation hf hopen hresolve =>
    rw [distribution_withOperation]
    exact .refl _
  | «return» hf hopen hreturn =>
    rw [distribution_withReturn]
    exact .refl _

theorem spreads_of_calls (p : Program) (calls : List Call) :
    Spreads p.distribution? (calls.foldl call p).distribution? := by
  have hsteps := calls_steps p calls
  generalize calls.foldl call p = q at hsteps ⊢
  induction hsteps with
  | refl => exact .refl _
  | tail _ hstep ih => exact ih.trans hstep.spreads

theorem Step.meshed (h : Step p q) (hp : ∀ ms, p.distribution? = some (.meshes ms) → Meshed ms) :
    ∀ ms, q.distribution? = some (.meshes ms) → Meshed ms := by
  cases h with
  | function hname => exact hp
  | closure hf hopen => exact hp
  | counts hmeshes => exact fun ms hms => by cases hms
  | @mesh mesh hmesh =>
    intro ms hms
    obtain rfl : p.meshes ++ [mesh] = ms := by simpa using hms
    obtain ⟨_, hnames, hdevices⟩ := of_checkNewMesh hmesh
    cases hold : p.meshes with
    | nil => exact meshed_singleton mesh
    | cons first rest =>
      have hd : p.distribution? = some (.meshes (first :: rest)) := by
        unfold meshes at hold
        split at hold
        · rename_i ms hd
          rw [hd, hold]
        · cases hold
      rw [hold] at hnames hdevices
      exact (hp _ hd).append hnames ⟨first, List.mem_cons_self, hdevices first rfl⟩
  | input hf hopen hname hsharding => exact hp
  | operation hf hopen hresolve =>
    rw [distribution_withOperation]
    exact hp
  | «return» hf hopen hreturn =>
    rw [distribution_withReturn]
    exact hp

theorem sharding?_of_mem_numberedData {first : Nat} {shapes : List Shape} {data : ValueData}
    (h : data ∈ numberedData first shapes) : data.sharding? = none := by
  obtain ⟨entry, _, rfl⟩ := List.mem_map.mp h
  rfl

/-- The shardings of a return have been checked against the shapes that it returns. -/
theorem checkSharding_of_checkReturn {values : List Value} {shardings : List (Option Sharding)}
    {outputs : List Output} (h : Builder.checkReturn id values shardings p = .ok outputs)
    {output : Output} (houtput : output ∈ outputs) (hs : output.sharding? = some s) :
    p.checkSharding s output.shape = .ok () := by
  simp only [Builder.checkReturn, bind_eq_ok] at h
  obtain ⟨_, _, _, _, _, _, houtputs⟩ := h
  refine forall_of_mapM (P := fun o => o.sharding? = some s → p.checkSharding s o.shape = .ok ())
    houtputs (fun pair _ o ho hs => ?_) output houtput hs
  rcases pair with ⟨shape, _ | sharding⟩
  · obtain rfl : (⟨shape, none⟩ : Output) = o := by simpa using ho
    cases hs
  · obtain ⟨_, hcheck, ho⟩ := bind_eq_ok.mp ho
    obtain rfl : (⟨shape, some sharding⟩ : Output) = o := by simpa using ho
    obtain rfl : sharding = s := by simpa using hs
    exact hcheck

/-- A value of a function that may have been given new ones. -/
theorem mem_of_mem_grown {grown : Prop} [Decidable grown] {values new : List ValueData}
    {data : ValueData} (h : data ∈ if grown then values ++ new else values) :
    data ∈ values ∨ data ∈ new := by
  split_ifs at h
  · exact List.mem_append.mp h
  · exact .inl h

/-- A sharding was there before the step or has just been checked. -/
theorem Step.annotation (h : Step p q) {j : FunctionId} {g : Function}
    (hg : q.function? j = some g) (ha : g.Annotation shape s) :
    (∃ f, p.function? j = some f ∧ f.Annotation shape s) ∨ p.checkSharding s shape = .ok () := by
  cases h with
  | @function text name hname =>
    revert ha
    refine forall_of_new (function?_addFunction p (.topLevel name)) ?_ (fun j g hg ha => ?_) j g hg
    · exact fun ha => by cases ha <;> contradiction
    · exact .inl ⟨g, hg, ha⟩
  | @closure id f hf hopen =>
    revert ha
    refine forall_of_new (function?_addFunction p (.closure id (p.root id))) ?_
      (fun j g hg ha => ?_) j g hg
    · exact fun ha => by cases ha <;> contradiction
    · exact .inl ⟨g, hg, ha⟩
  | counts hmeshes => exact .inl ⟨g, hg, ha⟩
  | mesh hmesh => exact .inl ⟨g, hg, ha⟩
  | @input id f data hf hopen hname hsharding =>
    rw [function?_withInput _ hf] at hg
    obtain ⟨f', hf', rfl⟩ := Option.map_eq_some_iff.mp hg
    cases ha with
    | value hdata hs =>
      rcases mem_of_mem_grown hdata with hold | hnew
      · exact .inl ⟨f', hf', .value hold hs⟩
      · obtain rfl := List.mem_singleton.mp hnew
        exact .inr (hsharding s hs)
    | output houtput hs => exact .inl ⟨f', hf', .output houtput hs⟩
  | @operation id f o shaped outputs hf hopen hresolve =>
    rw [function?_withOperation hf] at hg
    obtain ⟨f', hf', rfl⟩ := Option.map_eq_some_iff.mp hg
    cases ha with
    | value hdata hs =>
      rcases mem_of_mem_grown hdata with hold | hnew
      · exact .inl ⟨f', hf', .value hold hs⟩
      · rw [sharding?_of_mem_numberedData hnew] at hs
        cases hs
    | output houtput hs => exact .inl ⟨f', hf', .output houtput hs⟩
  | @«return» id f values shardings outputs hf hopen hreturn =>
    rw [withReturn, function?_markReturned hf] at hg
    obtain ⟨f', hf', rfl⟩ := Option.map_eq_some_iff.mp hg
    cases ha with
    | value hdata hs => exact .inl ⟨f', hf', .value hdata hs⟩
    | output houtput hs =>
      by_cases hid : id = j
      · simp only [Function.outputs, hid, if_true, Option.getD_some] at houtput
        exact .inr (checkSharding_of_checkReturn hreturn houtput hs)
      · simp only [Function.outputs, hid, if_false] at houtput
        exact .inl ⟨f', hf', .output houtput hs⟩

theorem Step.sharded (h : Step p q) (hp : p.Sharded) : q.Sharded := by
  intro j g hg shape s ha
  refine checkSharding_of_spreads h.spreads ?_
  rcases h.annotation hg ha with ⟨f, hf, hold⟩ | hnew
  · exact hp j f hf shape s hold
  · exact hnew

theorem ofCalls_meshed (name : String) (calls : List Call) :
    ∀ ms, (Program.ofCalls name calls).distribution? = some (.meshes ms) → Meshed ms :=
  ofCalls_induction (motive := fun p => ∀ ms, p.distribution? = some (.meshes ms) → Meshed ms)
    (fun _ _ h => nomatch h) (fun _ _ hp hstep => hstep.meshed hp) name calls

theorem ofCalls_sharded (name : String) (calls : List Call) :
    (Program.ofCalls name calls).Sharded :=
  ofCalls_induction (fun _ _ _ hf => nomatch hf) (fun _ _ hp hstep => hstep.sharded hp) name calls

/-! ## What is written -/

/-- The counts that are written are those of every mesh. -/
theorem header_of_mesh (hmeshed : ∀ ms, p.distribution? = some (.meshes ms) → Meshed ms)
    {mesh : Mesh} (hmesh : mesh ∈ p.meshes) :
    p.header = "module @" ++ p.name ++ (" attributes " ++ braced ("mhlo.num_partitions = " ++
      toString mesh.deviceCount ++ " : i32, mhlo.num_replicas = " ++ toString 1 ++ " : i32")) ++
        " \x7b" := by
  unfold meshes at hmesh
  split at hmesh
  · rename_i ms hd
    cases ms with
    | nil => cases hmesh
    | cons first rest =>
      have hcount := (hmeshed _ hd).devices first List.mem_cons_self mesh hmesh
      rw [header, hd, Option.elim_some, distributionText, ← hcount]
      rfl
  · cases hmesh

end Program

/-- One rendering for every axis of a tensor: those that are listed, and replicated ones. -/
theorem Sharding.attributeText_eq (s : Sharding) {rank : Nat} (h : s.rank ≤ rank) :
    ∃ axes : List AxisSharding, axes.length = rank ∧ s.axes <+: axes ∧
      (∀ axis ∈ axes.drop s.rank, axis = .replicated) ∧
      s.attributeText rank = "#sdy.sharding<@" ++ s.mesh.name ++ ", [" ++
        ", ".intercalate (axes.map AxisSharding.render) ++ "]>" := by
  refine ⟨s.axes ++ List.replicate (rank - s.axes.length) .replicated, ?_, ?_, ?_, ?_⟩
  · rw [List.length_append, List.length_replicate]
    exact Nat.add_sub_cancel' h
  · exact List.prefix_append _ _
  · intro axis haxis
    rw [Sharding.rank, List.drop_left] at haxis
    exact List.eq_of_mem_replicate haxis
  · unfold attributeText
    dsimp only

namespace Program

/-- The sharding is over a mesh of the program and fits the shape, and its text has one entry for
every axis of the shape.  No other list of entries has this text. -/
structure Placed (p : Program) (shape : Shape) (s : Sharding) : Prop where
  registered : s.mesh ∈ p.meshes
  found : p.mesh? s.mesh.name = some s.mesh
  valid : s.validate = .ok ()
  rank : s.rank ≤ shape.rank
  text : ∃ axes : List AxisSharding, axes.length = shape.rank ∧ s.axes <+: axes ∧
    (∀ axis ∈ axes.drop s.rank, axis = .replicated) ∧
    s.attributeText shape.rank = "#sdy.sharding<@" ++ s.mesh.name ++ ", [" ++
      ", ".intercalate (axes.map AxisSharding.render) ++ "]>" ∧
    ∀ others : List AxisSharding, .sharded [] ∉ others →
      ", ".intercalate (others.map AxisSharding.render) =
        ", ".intercalate (axes.map AxisSharding.render) → others = axes

theorem placed_of_checkSharding {p : Program} {shape : Shape} {s : Sharding}
    (h : p.checkSharding s shape = .ok ()) : p.Placed shape s := by
  obtain ⟨hfound, hrank, hvalid⟩ := checkSharding_eq_ok.mp h
  obtain ⟨axes, hlength, hprefix, hreplicated, htext⟩ := s.attributeText_eq hrank
  have hspread : .sharded [] ∉ axes := by
    obtain ⟨more, rfl⟩ := hprefix
    rw [Sharding.rank, List.drop_left] at hreplicated
    rw [List.mem_append]
    rintro (hlisted | hmore)
    · exact (Sharding.validate_eq_ok.mp hvalid).1 hlisted
    · cases hreplicated _ hmore
  exact ⟨List.mem_of_find?_eq_some hfound, hfound, hvalid, hrank, axes, hlength, hprefix,
    hreplicated, htext, fun others hothers hsame =>
      AxisSharding.intercalate_render_injective hothers hspread hsame⟩

/-- In every program that calls lead to, the distribution is unset, counts, or meshes that agree,
and later calls do not take it back.  The counts that are written are those of every mesh that is
declared, and every sharding in the program is over such a mesh. -/
theorem distribution_of_calls [NarrowConversions] (name : String) (calls : List Call) :
    let p := Program.ofCalls name calls
    (p.distribution? = none ∨
      (∃ replicas partitions, p.distribution? = some (.replicated replicas partitions)) ∨
        ∃ ms, p.distribution? = some (.meshes ms) ∧ Meshed ms) ∧
      (∀ later, Spreads p.distribution? (Program.ofCalls name (calls ++ later)).distribution?) ∧
      (∀ mesh ∈ p.meshes, ⟨1, mesh.declaration⟩ ∈ p.lines ∧
        p.lines.head? = some ⟨0, "module @" ++ p.name ++ (" attributes " ++
          braced ("mhlo.num_partitions = " ++ toString mesh.deviceCount ++
            " : i32, mhlo.num_replicas = " ++ toString 1 ++ " : i32")) ++ " \x7b"⟩) ∧
      ∀ id f, p.function? id = some f → ∀ shape s, f.Annotation shape s → p.Placed shape s := by
  intro p
  have hmeshed : ∀ ms, p.distribution? = some (.meshes ms) → Meshed ms := ofCalls_meshed name calls
  refine ⟨?_, fun later => ?_, fun mesh hmesh => ⟨?_, ?_⟩, fun id f hf shape s ha => ?_⟩
  · rcases hd : p.distribution? with _ | ⟨replicas, partitions⟩ | ms
    · exact .inl rfl
    · exact .inr (.inl ⟨replicas, partitions, rfl⟩)
    · exact .inr (.inr ⟨ms, rfl, hmeshed ms hd⟩)
  · rw [ofCalls, List.foldl_append]
    exact spreads_of_calls p later
  · refine List.mem_append_left _ (List.mem_append_left _ (List.mem_cons_of_mem _ ?_))
    exact List.mem_map_of_mem hmesh
  · rw [← header_of_mesh hmeshed hmesh]
    rfl
  · exact placed_of_checkSharding (ofCalls_sharded name calls id f hf shape s ha)

end Program

end TensorProgram
