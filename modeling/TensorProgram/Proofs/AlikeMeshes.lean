import TensorProgram.Mesh.Groups
import TensorProgram.Proofs.Declarations
import TensorProgram.Proofs.Distribution

/-!
# Alike meshes in a program

Alike meshes have one declaration, group their devices alike and accept the same shardings:
`Mesh.Alike.replicaGroups_eq`, `Mesh.Alike.validate_eq`.  They may still be two meshes.  This
happens in one way only: one has the logical indices for ids because none were given, and the other
was given them, `Mesh.Alike.eq_iff` and `Mesh.Alike.identity_of_ne`.

A program looks a mesh up by its name and compares it with the one it knows, so that a sharding
over an alike mesh is accepted unless this is the case: `Program.checkSharding_of_alike`.
`Program.given_identity_rejected` is such a case.
-/

namespace TensorProgram

namespace Mesh.Alike

variable {m n : Mesh}

/-- Alike meshes are one if both were given ids or neither was. -/
theorem eq_iff (h : m.Alike n) : m = n ↔ m.assignment?.isSome = n.assignment?.isSome := by
  constructor
  · rintro rfl
    rfl
  · intro hgiven
    obtain ⟨name, axes, ids?⟩ := m
    obtain ⟨name', axes', ids?'⟩ := n
    obtain ⟨rfl, rfl, hids⟩ := h
    cases ids? with
    | none =>
      cases ids?' with
      | none => rfl
      | some ids' => cases hgiven
    | some ids =>
      cases ids?' with
      | none => cases hgiven
      | some ids' =>
        obtain rfl : ids = ids' := hids
        rfl

/-- Of two meshes that are alike, one was given the ids that the other one has by default. -/
theorem identity_of_ne (h : m.Alike n) (hm : m.WellFormed) (hn : n.WellFormed) (hne : m ≠ n) :
    m.hasIdentityAssignment = true ∧ n.hasIdentityAssignment = true := by
  have heq := h.hasIdentityAssignment_eq hm hn
  rw [Ne, h.eq_iff] at hne
  cases hids : m.assignment? with
  | none =>
    have hidentity : m.hasIdentityAssignment = true := by rw [hasIdentityAssignment, hids]
    exact ⟨hidentity, heq ▸ hidentity⟩
  | some ids =>
    have hnone : n.assignment? = none := by simpa [hids] using hne
    have hidentity : n.hasIdentityAssignment = true := by rw [hasIdentityAssignment, hnone]
    exact ⟨heq.symm ▸ hidentity, hidentity⟩

theorem addListedAxis_eq (h : m.Alike n) : addListedAxis m = addListedAxis n := by
  funext listed axisName
  rw [addListedAxis, addListedAxis, axisIndex?, axisIndex?, h.axes, h.name]

/-- Alike meshes group their devices alike. -/
theorem replicaGroups_eq (h : m.Alike n) (axisNames : List String) :
    m.replicaGroups axisNames = n.replicaGroups axisNames := by
  rw [replicaGroups, replicaGroups, h.addListedAxis_eq, h.axes, h.deviceIds, h.deviceCount_eq]

theorem addReference_eq (h : m.Alike n) :
    Sharding.Usage.addReference m = Sharding.Usage.addReference n := by
  funext u r
  rw [Sharding.Usage.addReference, Sharding.Usage.addReference, axisSize?, axisSize?, h.axes,
    h.name]

/-- Axes are spread over a mesh as they are over an alike one. -/
theorem validate_eq (h : m.Alike n) (axes : List AxisSharding) :
    (Sharding.mk m axes).validate = (Sharding.mk n axes).validate := by
  have hstep : Sharding.Usage.addAxis m = Sharding.Usage.addAxis n := by
    funext u axis
    obtain ⟨spread, dimension⟩ := axis
    cases spread with
    | replicated => rfl
    | undecided => rfl
    | sharded references =>
      cases references with
      | nil => rfl
      | cons r references =>
        rw [Sharding.Usage.addAxis, Sharding.Usage.addAxis, h.addReference_eq] <;> simp
  rw [Sharding.validate, Sharding.validate, hstep]

end Mesh.Alike

namespace Program

variable {p : Program} {m n : Mesh} {axes : List AxisSharding} {shape : Shape}

/-- A mesh of the program is found by its name. -/
theorem mesh?_of_mem (hp : ∀ ms, p.distribution? = some (.meshes ms) → Meshed ms)
    (hm : m ∈ p.meshes) : p.mesh? m.name = some m := by
  have hnames : (p.meshes.map Mesh.name).Nodup := by
    unfold meshes
    split
    · rename_i ms hd
      exact (hp ms hd).names
    · exact List.nodup_nil
  have hfound : (p.meshes.find? (·.name == m.name)).isSome := by
    rw [List.find?_isSome]
    exact ⟨m, hm, beq_self_eq_true m.name⟩
  obtain ⟨found, hfound⟩ := Option.isSome_iff_exists.mp hfound
  have hname : found.name = m.name := by simpa using List.find?_some hfound
  rw [mesh?, hfound, List.inj_on_of_nodup_map hnames (List.mem_of_find?_eq_some hfound) hm hname]

/-- A sharding over a mesh with the name of another one. -/
theorem checkSharding_of_mesh?_ne {s : Sharding} (hfound : p.mesh? s.mesh.name = some m)
    (hne : m ≠ s.mesh) :
    p.checkSharding s shape = .error (.program (.unknownMesh s.mesh.name)) := by
  have hunknown : (p.mesh? s.mesh.name == some s.mesh) = false := by simpa [hfound] using hne
  rw [checkSharding, hunknown]
  rfl

/-- Alike meshes cannot be told apart by their declarations, the replica groups they give or the
shardings they accept.  A sharding over a mesh that is alike to one of the program is attached as it
would be over that one, unless one of the two was given the logical indices as ids and the other has
them by default: it is then over a mesh that the program does not know. -/
theorem checkSharding_of_alike (name : String) (calls : List Call) (hm : m.Built) (hn : n.Built)
    (h : m.Alike n) (hmem : m ∈ (Program.ofCalls name calls).meshes)
    (hvalid : (Sharding.mk n axes).validate = .ok ()) (hrank : axes.length ≤ shape.rank) :
    let p := Program.ofCalls name calls
    m.declaration = n.declaration ∧
      (∀ axisNames, m.replicaGroups axisNames = n.replicaGroups axisNames) ∧
      p.checkSharding ⟨m, axes⟩ shape = .ok () ∧
      (m.assignment?.isSome = n.assignment?.isSome →
        p.checkSharding ⟨n, axes⟩ shape = .ok ()) ∧
      (m.assignment?.isSome ≠ n.assignment?.isSome →
        m.hasIdentityAssignment = true ∧ n.hasIdentityAssignment = true ∧
          p.checkSharding ⟨n, axes⟩ shape = .error (.program (.unknownMesh n.name))) := by
  intro p
  have hfound : p.mesh? m.name = some m := mesh?_of_mem (ofCalls_meshed name calls) hmem
  have haccepted : p.checkSharding ⟨m, axes⟩ shape = .ok () :=
    checkSharding_eq_ok.mpr ⟨hfound, hrank, (h.validate_eq axes).trans hvalid⟩
  refine ⟨h.declaration_eq hm.wellFormed hn.wellFormed, h.replicaGroups_eq, haccepted, ?_, ?_⟩
  · intro hgiven
    rwa [← h.eq_iff.mpr hgiven]
  · intro hgiven
    have hne : m ≠ n := h.eq_iff.not.mpr hgiven
    obtain ⟨hidentity, hidentity'⟩ := h.identity_of_ne hm.wellFormed hn.wellFormed hne
    exact ⟨hidentity, hidentity', checkSharding_of_mesh?_ne (s := ⟨n, axes⟩) (h.name ▸ hfound) hne⟩

/-- Two devices that have their logical indices as ids by default. -/
def defaultPair : Mesh :=
  ⟨"mesh", [⟨"x", 2⟩], none⟩

/-- The same devices when the ids are given. -/
def givenPair : Mesh :=
  ⟨"mesh", [⟨"x", 2⟩], some [0, 1]⟩

theorem built_pairs : defaultPair.Built ∧ givenPair.Built := by
  have hofAxes : Mesh.ofAxes "mesh" ["x"] [2] = .ok defaultPair := by decide
  have hids : defaultPair.withDeviceIds [0, 1] = .ok givenPair := by decide
  exact ⟨.ofAxes hofAxes, (Mesh.Built.ofAxes hofAxes).withDeviceIds hids⟩

/-- The program knows the mesh with given ids, and the sharding is over the other one. -/
theorem checkSharding_of_alike_given :
    let p := Program.ofCalls "p" [.addMesh givenPair]
    let axes : List AxisSharding := [.sharded [.whole "x"]]
    let shape : Shape := .of (.real .f32) [2]
    givenPair ∈ p.meshes ∧ givenPair.Alike defaultPair ∧
      (Sharding.mk defaultPair axes).validate = .ok () ∧ axes.length ≤ shape.rank ∧
      p.checkSharding ⟨givenPair, axes⟩ shape = .ok () ∧
      p.checkSharding ⟨defaultPair, axes⟩ shape = .error (.program (.unknownMesh "mesh")) := by
  intro p axes shape
  have halike : givenPair.Alike defaultPair := ⟨rfl, rfl, by decide⟩
  have hmem : givenPair ∈ p.meshes := by decide
  have hvalid : (Sharding.mk defaultPair axes).validate = .ok () := by decide
  have hrank : axes.length ≤ shape.rank := by decide
  obtain ⟨_, _, haccepted, _, hrejected⟩ := checkSharding_of_alike "p" [.addMesh givenPair]
    built_pairs.2 built_pairs.1 halike hmem hvalid hrank
  exact ⟨hmem, halike, hvalid, hrank, haccepted, (hrejected (by decide)).2.2⟩

/-- The program knows the mesh without given ids.  Over the alike mesh with given ids a sharding is
valid and rejected all the same. -/
theorem given_identity_rejected :
    let p := Program.ofCalls "p" [.addMesh defaultPair]
    let axes : List AxisSharding := [.sharded [.whole "x"]]
    let shape : Shape := .of (.real .f32) [2]
    (defaultPair.Built ∧ givenPair.Built) ∧ defaultPair ∈ p.meshes ∧
      (defaultPair.name = givenPair.name ∧ defaultPair.axes = givenPair.axes ∧
        defaultPair.deviceIds = givenPair.deviceIds) ∧
      (Sharding.mk givenPair axes).validate = .ok () ∧ axes.length ≤ shape.rank ∧
      p.checkSharding ⟨defaultPair, axes⟩ shape = .ok () ∧
      p.checkSharding ⟨givenPair, axes⟩ shape ≠ .ok () :=
  ⟨built_pairs, by decide⟩

end Program

end TensorProgram
