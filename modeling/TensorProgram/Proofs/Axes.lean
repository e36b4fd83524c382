import Mathlib.Data.List.Nodup
import Mathlib.Data.List.Perm.Subperm
import TensorProgram.Proofs.Checks

/-!
# Axes counted from the front

An axis is normalized when it lies in the tensor after it has been counted from the front,
`normalizeAxis_eq_ok`, and a list of axes when besides no axis is listed twice,
`normalizeAxes_eq_ok`.  Axes that have been normalized once can be put in the place of those
they came from: they are in range, `InRange.of_normalizeAxes`, and are normalized to
themselves, `normalizeAxes_fromFront`.

A list in which entries are replaced one after the other holds what was written to each position,
if no position is written twice, `getElem?_writeAll`.

Leaving out one axis of a shape erases one extent, `extentsExcept_singleton`.
-/

namespace TensorProgram

/-- A rearrangement of the first numbers lists as many of them, each once. -/
theorem perm_range_iff {xs : List Nat} {n : Nat} :
    xs.Perm (List.range n) ↔ xs.length = n ∧ xs.Nodup ∧ ∀ x ∈ xs, x < n := by
  constructor
  · intro h
    exact ⟨by simpa using h.length_eq, h.nodup_iff.mpr List.nodup_range,
      fun x hx => List.mem_range.mp (h.mem_iff.mp hx)⟩
  · intro h
    obtain ⟨hlength, hnodup, hall⟩ := h
    have hsubset : xs ⊆ List.range n := fun x hx => List.mem_range.mpr (hall x hx)
    exact (hnodup.subperm hsubset).perm_of_length_le (by simp [hlength])

namespace Inference

/-- The axes lie in a tensor of the rank, and none counts from the end. -/
def InRange (axes : List Int) (rank : Nat) : Prop :=
  ∀ a ∈ axes, 0 ≤ a ∧ a < rank

/-! ## One axis -/

section Axis

variable {axis : Int} {rank a : Nat}

theorem normalizeAxis_eq_ok :
    normalizeAxis axis rank = .ok a ↔ fromFront axis rank = a ∧ a < rank := by
  unfold normalizeAxis
  split
  · rename_i h
    simp only [Except.ok.injEq]
    constructor
    · rintro rfl
      omega
    · rintro ⟨ha, _⟩
      omega
  · rename_i h
    simp only [reduceCtorEq, false_iff, not_and]
    intro ha
    omega

@[simp] theorem fromFront_natCast (a rank : Nat) : fromFront (a : Int) rank = a := by
  unfold fromFront
  rw [if_neg (by omega)]

theorem normalizeAxis_natCast (h : a < rank) : normalizeAxis (a : Int) rank = .ok a :=
  normalizeAxis_eq_ok.mpr ⟨fromFront_natCast a rank, h⟩

/-- An axis that was counted from the front is left alone. -/
theorem normalizeAxis_fromFront (h : normalizeAxis axis rank = .ok a) :
    normalizeAxis (fromFront axis rank) rank = .ok a := by
  obtain ⟨ha, hlt⟩ := normalizeAxis_eq_ok.mp h
  rw [ha]
  exact normalizeAxis_natCast hlt

theorem InRange.of_normalizeAxis (h : normalizeAxis axis rank = .ok a) :
    InRange [fromFront axis rank] rank := by
  intro b hb
  obtain ⟨ha, hlt⟩ := normalizeAxis_eq_ok.mp h
  obtain rfl := List.mem_singleton.mp hb
  omega

end Axis

/-! ## Lists of axes -/

section Axes

variable {parameter : String} {rank : Nat} {axes : List Int} {as seen : List Nat}

theorem addAxis_eq_ok {axis : Int} :
    addAxis parameter rank seen axis = .ok as ↔
      ∃ a, normalizeAxis axis rank = .ok a ∧ a ∉ seen ∧ as = seen ++ [a] := by
  simp only [addAxis, bind_eq_ok, require_eq_ok, pure_eq_ok, Except.ok.injEq]
  constructor
  · intro h
    obtain ⟨a, ha, _, hnew, rfl⟩ := h
    exact ⟨a, ha, by simpa using hnew, rfl⟩
  · intro h
    obtain ⟨a, ha, hnew, rfl⟩ := h
    exact ⟨a, ha, (), by simpa using hnew, rfl⟩

/-- Axes are added to those seen before as long as they differ from all of them. -/
theorem foldlM_addAxis_eq_ok (hseen : seen.Nodup) :
    axes.foldlM (addAxis parameter rank) seen = .ok as ↔
      ∃ new, as = seen ++ new ∧
        List.Forall₂ (fun axis a => normalizeAxis axis rank = .ok a) axes new ∧
        (seen ++ new).Nodup := by
  induction axes generalizing seen with
  | nil =>
    rw [List.foldlM_nil, pure_eq_ok, Except.ok.injEq]
    constructor
    · intro h
      exact ⟨[], by simp [h], .nil, by simpa using hseen⟩
    · intro h
      obtain ⟨new, rfl, hnew, _⟩ := h
      rw [List.forall₂_nil_left_iff.mp hnew, List.append_nil]
  | cons axis axes ih =>
    rw [List.foldlM_cons, bind_eq_ok]
    constructor
    · intro h
      obtain ⟨seen', hadd, hrest⟩ := h
      obtain ⟨a, ha, hnew, rfl⟩ := addAxis_eq_ok.mp hadd
      have hseen' : (seen ++ [a]).Nodup := by
        rw [← List.concat_eq_append]
        exact List.Nodup.concat hnew hseen
      obtain ⟨new, rfl, hall, hnodup⟩ := (ih hseen').mp hrest
      rw [List.append_assoc, List.singleton_append] at hnodup ⊢
      exact ⟨a :: new, rfl, .cons ha hall, hnodup⟩
    · intro h
      obtain ⟨new, rfl, hall, hnodup⟩ := h
      obtain ⟨a, rest, ha, hrest, rfl⟩ := List.forall₂_cons_left_iff.mp hall
      have hseen' : (seen ++ [a]).Nodup :=
        hnodup.sublist ((List.singleton_sublist.mpr List.mem_cons_self).append_left seen)
      refine ⟨seen ++ [a], addAxis_eq_ok.mpr ⟨a, ha, ?_, rfl⟩,
        (ih hseen').mpr ⟨rest, ?_, hrest, ?_⟩⟩
      · exact fun hmem => (List.nodup_append.mp hseen').2.2 a hmem a List.mem_cons_self rfl
      · simp
      · simpa using hnodup

/-- A list of axes is normalized one by one, and no axis may be listed twice. -/
theorem normalizeAxes_eq_ok : normalizeAxes parameter axes rank = .ok as ↔
    List.Forall₂ (fun axis a => normalizeAxis axis rank = .ok a) axes as ∧ as.Nodup := by
  rw [normalizeAxes, foldlM_addAxis_eq_ok List.nodup_nil]
  simp

/-- The axes counted from the front are positions in the tensor, each listed once. -/
theorem normalizeAxes_eq_ok_iff : normalizeAxes parameter axes rank = .ok as ↔
    axes.map (fromFront · rank) = as.map Int.ofNat ∧ (∀ a ∈ as, a < rank) ∧ as.Nodup := by
  rw [normalizeAxes_eq_ok, ← List.forall₂_eq_eq_eq, List.forall₂_map_left_iff,
    List.forall₂_map_right_iff, ← and_assoc, and_congr_left_iff]
  intro _
  constructor
  · intro h
    refine ⟨h.imp fun _ _ ha => (normalizeAxis_eq_ok.mp ha).1, ?_⟩
    exact forall_of_mapM (mapM_eq_ok.mpr h) fun _ _ _ ha => (normalizeAxis_eq_ok.mp ha).2
  · intro h
    refine ((List.forall₂_and_left _ _).mpr ⟨h.2, h.1.flip⟩).flip.imp fun _ _ ha => ?_
    exact normalizeAxis_eq_ok.mpr ⟨ha.2, ha.1⟩

/-- Different positions in the tensor are normalized to themselves. -/
theorem normalizeAxes_map_ofNat (hlt : ∀ a ∈ as, a < rank) (hnodup : as.Nodup) :
    normalizeAxes parameter (as.map Int.ofNat) rank = .ok as := by
  rw [normalizeAxes_eq_ok_iff]
  refine ⟨?_, hlt, hnodup⟩
  rw [List.map_map]
  apply List.map_congr_left
  intro a _
  exact fromFront_natCast a rank

theorem normalizeAxes_natCast {a : Nat} (h : a < rank) :
    normalizeAxes parameter [(a : Int)] rank = .ok [a] :=
  normalizeAxes_eq_ok.mpr ⟨.cons (normalizeAxis_natCast h) .nil, List.nodup_singleton a⟩

theorem InRange.of_normalizeAxes (h : normalizeAxes parameter axes rank = .ok as) :
    InRange (axes.map (fromFront · rank)) rank := by
  intro b hb
  obtain ⟨axis, haxis, rfl⟩ := List.mem_map.mp hb
  have hall := (normalizeAxes_eq_ok.mp h).1
  obtain ⟨a, ha⟩ : ∃ a, normalizeAxis axis rank = .ok a :=
    exists_ok_of_mem (mapM_eq_ok.mpr hall) haxis
  exact InRange.of_normalizeAxis ha _ (List.mem_singleton_self _)

/-- Axes that were counted from the front are left alone. -/
theorem normalizeAxes_fromFront (h : normalizeAxes parameter axes rank = .ok as) :
    normalizeAxes parameter (axes.map (fromFront · rank)) rank = .ok as := by
  obtain ⟨hall, hnodup⟩ := normalizeAxes_eq_ok.mp h
  rw [normalizeAxes_eq_ok, List.forall₂_map_left_iff]
  exact ⟨hall.imp fun _ _ => normalizeAxis_fromFront, hnodup⟩

/-- Sorted axes stay sorted. -/
theorem sortedAxes_fromFront (h : sortedAxes parameter axes rank = .ok as) :
    sortedAxes parameter (axes.map (fromFront · rank)) rank = .ok as := by
  obtain ⟨as', has, hsorted⟩ := bind_eq_ok.mp h
  exact bind_eq_ok.mpr ⟨as', normalizeAxes_fromFront has, hsorted⟩

/-- Neighbours in increasing order are in increasing order. -/
theorem all_zip_tail_iff :
    ((as.zip as.tail).all fun (a, b) => decide (a ≤ b)) = true ↔ as.IsChain (· ≤ ·) := by
  induction as with
  | nil => simp
  | cons a as ih =>
    cases as with
    | nil => simp
    | cons b as => simpa using fun _ => ih

/-- Sorted axes are positions in the tensor, in strictly increasing order. -/
theorem sortedAxes_eq_ok : sortedAxes parameter axes rank = .ok as ↔
    axes.map (fromFront · rank) = as.map Int.ofNat ∧ (∀ a ∈ as, a < rank) ∧
      as.Pairwise (· < ·) := by
  simp only [sortedAxes, bind_eq_ok, normalizeAxes_eq_ok_iff, require_eq_ok, all_zip_tail_iff,
    List.isChain_iff_pairwise, pure_eq_ok, Except.ok.injEq]
  constructor
  · intro h
    obtain ⟨_, ⟨hfront, hall, hnodup⟩, _, hsorted, rfl⟩ := h
    exact ⟨hfront, hall, hsorted.imp₂ (fun _ _ => Nat.lt_of_le_of_ne) hnodup⟩
  · intro h
    obtain ⟨hfront, hall, hsorted⟩ := h
    exact ⟨as, ⟨hfront, hall, hsorted.imp Nat.ne_of_lt⟩, (), hsorted.imp Nat.le_of_lt, rfl⟩

theorem InRange.of_sortedAxes (h : sortedAxes parameter axes rank = .ok as) :
    InRange (axes.map (fromFront · rank)) rank := by
  obtain ⟨_, has, _⟩ := bind_eq_ok.mp h
  exact .of_normalizeAxes has

/-- An extent is read at the axis counted from the front. -/
theorem dimension?_eq {s : Shape} {axis : Int} {a : Nat} (h : fromFront axis s.rank = a) :
    s.dimension? axis = s.dimensions[a]? := by
  have hfront : (if axis < 0 then axis + s.rank else axis) = (a : Int) := h
  simp only [Shape.dimension?, hfront]
  rw [if_neg (by omega), Int.toNat_natCast]

theorem map_dimension? {s : Shape} (h : axes.map (fromFront · s.rank) = as.map Int.ofNat) :
    axes.map s.dimension? = as.map (s.dimensions[·]?) := by
  rw [← List.forall₂_eq_eq_eq, List.forall₂_map_left_iff, List.forall₂_map_right_iff] at h ⊢
  exact h.imp fun _ _ => dimension?_eq

/-- Axes that are listed are compared as numbers from the front. -/
theorem natCast_mem_iff {axis : Nat} (h : axes.map (fromFront · rank) = as.map Int.ofNat) :
    (axis : Int) ∈ axes.map (fromFront · rank) ↔ axis ∈ as := by
  have hinjective : Function.Injective Int.ofNat := fun _ _ => Int.ofNat.inj
  rw [h]
  exact List.mem_map_of_injective hinjective

end Axes

/-! ## Lists with entries replaced -/

theorem replaceEntry_eq_ok {α : Type} {xs ys : List α} {position : Nat} {x : α} :
    replaceEntry xs position x = .ok ys ↔ position < xs.length ∧ xs.set position x = ys := by
  unfold replaceEntry
  split_ifs with h
  · simp [h]
  · simp [h]

theorem length_of_replaceEntry {α : Type} {xs ys : List α} {position : Nat} {x : α}
    (h : replaceEntry xs position x = .ok ys) : ys.length = xs.length := by
  rw [← (replaceEntry_eq_ok.mp h).2, List.length_set]

section Writes

variable {α : Type} {xs : List α} {writes : List (Nat × α)}

/-- The list after some entries have been written, each at its position. -/
def writeAll (xs : List α) (writes : List (Nat × α)) : List α :=
  writes.foldl (fun xs write => xs.set write.1 write.2) xs

@[simp] theorem writeAll_cons (write : Nat × α) :
    writeAll xs (write :: writes) = writeAll (xs.set write.1 write.2) writes := rfl

@[simp] theorem length_writeAll : (writeAll xs writes).length = xs.length := by
  induction writes generalizing xs with
  | nil => rfl
  | cons write writes ih => rw [writeAll_cons, ih, List.length_set]

theorem getElem?_writeAll_of_notMem {position : Nat} (h : position ∉ writes.map Prod.fst) :
    (writeAll xs writes)[position]? = xs[position]? := by
  induction writes generalizing xs with
  | nil => rfl
  | cons write writes ih =>
    rw [List.map_cons, List.mem_cons, not_or] at h
    rw [writeAll_cons, ih h.2, List.getElem?_set_ne (Ne.symm h.1)]

/-- What is written at a position stays there when no position is written twice. -/
theorem getElem?_writeAll (hnodup : (writes.map Prod.fst).Nodup) {write : Nat × α}
    (hmem : write ∈ writes) (hlt : write.1 < xs.length) :
    (writeAll xs writes)[write.1]? = some write.2 := by
  induction writes generalizing xs with
  | nil => cases hmem
  | cons first writes ih =>
    rw [List.map_cons, List.nodup_cons] at hnodup
    rw [writeAll_cons]
    rcases List.mem_cons.mp hmem with rfl | hmem
    · rw [getElem?_writeAll_of_notMem hnodup.1, List.getElem?_set_self hlt]
    · exact ih hnodup.2 hmem (by simpa using hlt)

/-- A fold whose steps each find a write and carry it out. -/
theorem foldlM_writes {β : Type} {step : List α → β → Check (List α)}
    {Finds : β → Nat × α → Prop}
    (hstep : ∀ xs b ys, step xs b = .ok ys ↔
      ∃ write, Finds b write ∧ write.1 < xs.length ∧ xs.set write.1 write.2 = ys)
    {bs : List β} {ys : List α} :
    bs.foldlM step xs = .ok ys ↔
      ∃ writes, List.Forall₂ Finds bs writes ∧ (∀ write ∈ writes, write.1 < xs.length) ∧
        writeAll xs writes = ys := by
  induction bs generalizing xs with
  | nil =>
    rw [List.foldlM_nil, pure_eq_ok, Except.ok.injEq]
    constructor
    · intro h
      exact ⟨[], .nil, by simp, h⟩
    · intro h
      obtain ⟨writes, hfinds, _, hys⟩ := h
      obtain rfl := List.forall₂_nil_left_iff.mp hfinds
      exact hys
  | cons b bs ih =>
    simp only [List.foldlM_cons, bind_eq_ok, hstep, ih]
    constructor
    · intro h
      obtain ⟨_, ⟨write, hfind, hlt, rfl⟩, writes, hfinds, hall, hys⟩ := h
      refine ⟨write :: writes, .cons hfind hfinds, ?_, hys⟩
      rw [List.forall_mem_cons]
      exact ⟨hlt, fun other hother => by simpa using hall other hother⟩
    · intro h
      obtain ⟨_, hfinds, hall, hys⟩ := h
      obtain ⟨write, writes, hfind, hrest, rfl⟩ := List.forall₂_cons_left_iff.mp hfinds
      rw [List.forall_mem_cons] at hall
      exact ⟨_, ⟨write, hfind, hall.1, rfl⟩, writes, hrest,
        fun other hother => by simpa using hall.2 other hother, hys⟩

end Writes

/-! ## Lists of extents -/

/-- Reading some positions of a list, in order, is leaving out the other entries. -/
theorem map_getElem?_filter_range {α : Type} (p : Nat → Bool) (xs : List α) :
    ((List.range xs.length).filter p).map (xs[·]?) =
      ((((List.range xs.length).zip xs).filter (p ·.1)).map Prod.snd).map some := by
  have hpositions : ((List.range xs.length).zip xs).map Prod.fst = List.range xs.length :=
    List.map_fst_zip (by simp)
  have hentry : ∀ entry ∈ (List.range xs.length).zip xs, xs[entry.1]? = some entry.2 := by
    intro entry hmem
    obtain ⟨i, hi⟩ := List.mem_iff_getElem?.mp hmem
    obtain ⟨hposition, hvalue⟩ := List.getElem?_zip_eq_some.mp hi
    obtain ⟨hlt, heq⟩ := List.getElem?_eq_some_iff.mp hposition
    rw [← heq, List.getElem_range]
    exact hvalue
  conv_lhs => rw [← hpositions]
  rw [List.filter_map, List.map_map, List.map_map]
  refine List.map_congr_left fun entry hentry' => ?_
  exact hentry entry (List.mem_of_mem_filter hentry')

/-- One entry of a numbered list is left out by its number. -/
theorem map_fst_filter_zipIdx {α : Type} (xs : List α) (i start : Nat) :
    ((xs.zipIdx start).filter fun entry => entry.2 != start + i).map Prod.fst = xs.eraseIdx i := by
  induction xs generalizing i start with
  | nil => rfl
  | cons x xs ih =>
    rw [List.zipIdx_cons, List.filter_cons]
    cases i with
    | zero =>
      -- all the later entries are kept
      have hkeep : (xs.zipIdx (start + 1)).filter (fun entry => entry.2 != start + 0) =
          xs.zipIdx (start + 1) := by
        rw [List.filter_eq_self]
        intro entry hentry
        have := (List.mem_zipIdx hentry).1
        rw [bne_iff_ne]
        omega
      rw [hkeep]
      simp
    | succ i =>
      have hne : (start != start + (i + 1)) = true := by
        rw [bne_iff_ne]
        omega
      have hrest := ih i (start + 1)
      rw [Nat.add_assoc, Nat.add_comm 1 i] at hrest
      rw [if_pos hne, List.map_cons, hrest, List.eraseIdx_cons_succ]

/-- Leaving out one axis is erasing its extent. -/
theorem extentsExcept_singleton (dimensions : List Nat) (a : Nat) :
    extentsExcept dimensions [a] = dimensions.eraseIdx a := by
  rw [← map_fst_filter_zipIdx dimensions a 0]
  simp only [extentsExcept, List.contains_cons, List.contains_nil, Bool.or_false, Nat.zero_add, bne]

end Inference

end TensorProgram
