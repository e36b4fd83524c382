import TensorProgram.Inference.Collective
import TensorProgram.Proofs.Checks

/-!
# Replica groups that collectives accept

`replicaGroupSize_eq_ok` takes the check of the groups apart: there is a group, all groups have
one positive length, and the devices of all groups together are different and not negative.
-/

namespace TensorProgram.Inference

variable {groups : List (List Int)} {seen found : List Int} {device : Int} {size : Nat}

theorem addDevice_eq_ok :
    addDevice seen device = .ok found ↔
      ∃ b, (b = device ∧ 0 ≤ device) ∧ b ∉ seen ∧ found = b :: seen := by
  simp only [addDevice, bind_eq_ok, require_eq_ok, pure_eq_ok, Except.ok.injEq]
  constructor
  · rintro ⟨_, hsign, _, hnew, rfl⟩
    exact ⟨device, ⟨rfl, by simpa using hsign⟩, by simpa using hnew, rfl⟩
  · rintro ⟨_, ⟨rfl, hsign⟩, hnew, rfl⟩
    exact ⟨(), by simpa using hsign, (), by simpa using hnew, rfl⟩

/-- Group after group, all devices are collected, and every group has the length asked for. -/
theorem foldlM_addGroup :
    groups.foldlM (addGroup size) seen = .ok found ↔
      (∀ group ∈ groups, group.length = size) ∧
        groups.flatten.foldlM addDevice seen = .ok found := by
  induction groups generalizing seen with
  | nil => simp
  | cons group groups ih =>
    simp only [List.foldlM_cons, List.flatten_cons, List.foldlM_append, List.forall_mem_cons,
      addGroup, bind_eq_ok, require_eq_ok, beq_iff_eq]
    constructor
    · rintro ⟨seen', ⟨_, hlength, hgroup⟩, hrest⟩
      obtain ⟨hlengths, hrest⟩ := ih.mp hrest
      exact ⟨⟨hlength, hlengths⟩, seen', hgroup, hrest⟩
    · rintro ⟨⟨hlength, hlengths⟩, seen', hgroup, hrest⟩
      exact ⟨seen', ⟨(), hlength, hgroup⟩, ih.mpr ⟨hlengths, hrest⟩⟩

theorem foldlM_addDevice {devices : List Int} :
    (∃ found, devices.foldlM addDevice [] = .ok found) ↔
      devices.Nodup ∧ ∀ device ∈ devices, 0 ≤ device :=
  foldlM_distinct_same (fun _ _ _ => addDevice_eq_ok)

/-- The common length of the groups, which is found when no device occurs twice. -/
theorem replicaGroupSize_eq_ok :
    replicaGroupSize groups = .ok size ↔
      groups ≠ [] ∧ size ≠ 0 ∧ (∀ group ∈ groups, group.length = size) ∧
        groups.flatten.Nodup ∧ ∀ device ∈ groups.flatten, 0 ≤ device := by
  cases groups with
  | nil => simp [replicaGroupSize]
  | cons first rest =>
    simp only [replicaGroupSize, bind_eq_ok, require_eq_ok, pure_eq_ok, Except.ok.injEq,
      ← foldlM_addDevice]
    constructor
    · rintro ⟨_, hfirst, found, hgroups, rfl⟩
      obtain ⟨hlengths, hdevices⟩ := foldlM_addGroup.mp hgroups
      exact ⟨by simp, by simpa using hfirst, hlengths, found, hdevices⟩
    · rintro ⟨_, hsize, hlengths, found, hdevices⟩
      obtain rfl : first.length = size := hlengths first List.mem_cons_self
      exact ⟨(), by simpa using hsize, found, foldlM_addGroup.mpr ⟨hlengths, hdevices⟩, rfl⟩

end TensorProgram.Inference
