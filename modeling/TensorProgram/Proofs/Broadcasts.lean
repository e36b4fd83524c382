import TensorProgram.Inference.Layout
import TensorProgram.Proofs.AxisMaps
import TensorProgram.Proofs.BroadcastOrder
import TensorProgram.Proofs.Faults

/-!
# Broadcasts along axes

A broadcast maps the axes of a valid operand to different axes of the result, which have the same
extents unless those of the operand are one, `broadcastInDim_eq_ok`.  Two broadcasts one after the
other are the broadcast by the composition of their maps, also where the first one has replaced an
extent of one, `broadcastInDim_trans`.

What an operation on two operands broadcasts them to is above both in the order of broadcasting, so
each of them can be broadcast to it with every axis in its place, `broadcastInDim_of_le`.
-/

namespace TensorProgram.Inference

/-- The extent stretches to that of an axis. -/
def StretchesAt (ds : List Nat) (m a : Nat) : Prop :=
  ∃ n, ds[a]? = some n ∧ Stretches m n

section Rule

variable {x y z : Shape} {ds es : List Nat} {axes outer inner : List Int} {m a : Nat}

theorem stretch_eq_ok {otherwise : ShapeError.Cause} (ha : a < ds.length) :
    (do
      let target ← if m = 1 then pure 1 else entry ds a
      require (m == target) otherwise) = .ok () ↔ StretchesAt ds m a := by
  have hentry : ds[a]? = some ds[a] := List.getElem?_eq_getElem ha
  unfold StretchesAt Stretches
  by_cases hm : m = 1
  · simp [hm, require_eq_ok, hentry]
  · simp [hm, bind_eq_ok, entry_eq_ok, require_eq_ok, hentry]

/-- The axes of a valid operand are mapped to different axes of the result, to whose extents the
extents of the operand stretch. -/
theorem broadcastInDim_eq_ok :
    broadcastInDim x ds axes = .ok y ↔
      (x.isValid = true ∧ y.elementType? = x.elementType? ∧ y.dimensions = ds) ∧
        ∃ as, normalizeAxes "broadcast_dimensions" axes ds.length = .ok as ∧
          List.Forall₂ (StretchesAt ds) x.dimensions as := by
  unfold broadcastInDim
  simp only [bind_eq_ok, elementType_eq_ok, require_eq_ok, requireLength_eq_ok, pure_eq_ok,
    Except.ok.injEq, of_eq_iff]
  constructor
  · intro h
    obtain ⟨t, ht, _, _, _, hlength, as, has, _, hall, htype, rfl⟩ := h
    refine ⟨⟨Option.isSome_iff_exists.mpr ⟨t, ht⟩, htype.trans ht.symm, rfl⟩, as, has, ?_⟩
    rw [List.forall₂_iff_zip]
    refine ⟨hlength.trans (length_of_normalizeAxes has).symm, fun hmem => ?_⟩
    have ha := lt_of_normalizeAxes has _ (List.of_mem_zip hmem).2
    exact (stretch_eq_ok ha).mp (forM_eq_ok.mp hall _ hmem)
  · intro h
    obtain ⟨⟨hvalid, htype, rfl⟩, as, has, hall⟩ := h
    obtain ⟨t, ht⟩ := Option.isSome_iff_exists.mp hvalid
    have hrank : x.rank = as.length := hall.length_eq
    -- different axes are no more than there are
    have hfits : as.length ≤ y.dimensions.length := by
      have hsubset : as ⊆ List.range y.dimensions.length :=
        fun a ha => List.mem_range.mpr (lt_of_normalizeAxes has a ha)
      simpa using ((normalizeAxes_eq_ok_iff.mp has).2.2.subperm hsubset).length_le
    refine ⟨t, ht, (), ?_, (), hrank.trans (length_of_normalizeAxes has), as, has, (), ?_,
      htype.trans ht, rfl⟩
    · rw [decide_eq_true_eq, hrank]
      exact hfits
    · rw [forM_eq_ok]
      intro entry hmem
      obtain ⟨m, a⟩ := entry
      have ha := lt_of_normalizeAxes has a (List.of_mem_zip hmem).2
      exact (stretch_eq_ok ha).mpr ((List.forall₂_iff_zip.mp hall).2 hmem)

/-- Two broadcasts one after the other. -/
theorem broadcastInDim_trans (hy : broadcastInDim x ds inner = .ok y)
    (hz : broadcastInDim y es outer = .ok z) :
    broadcastInDim x es (composeAxes outer inner es.length) = .ok z := by
  obtain ⟨⟨hvalid, htype, rfl⟩, as, has, hx⟩ := broadcastInDim_eq_ok.mp hy
  obtain ⟨⟨_, htype', rfl⟩, bs, hbs, hy⟩ := broadcastInDim_eq_ok.mp hz
  have hinner : normalizeAxes "broadcast_dimensions" inner outer.length = .ok as := by
    rwa [← length_of_normalizeAxes hbs, ← hy.length_eq]
  refine broadcastInDim_eq_ok.mpr ⟨⟨hvalid, htype'.trans htype, rfl⟩, as.map (bs.getD · 0),
    normalizeAxes_composeAxes hbs hinner, ?_⟩
  rw [List.forall₂_map_right_iff]
  refine hx.imp fun m a hma => ?_
  obtain ⟨n, hn, hmn⟩ := hma
  obtain ⟨ha, rfl⟩ := List.getElem?_eq_some_iff.mp hn
  have hb : a < bs.length := hy.length_eq ▸ ha
  obtain ⟨k, hk, hnk⟩ := hy.get ha hb
  rw [List.getD_eq_getElem _ _ hb]
  exact ⟨k, hk, hmn.trans hnk⟩

/-- A shape is broadcast to all that are above it with every axis in its place. -/
theorem broadcastInDim_of_le (hvalid : x.isValid = true) (h : x ≤ z) :
    broadcastInDim x z.dimensions (identityAxes x.rank) = .ok z := by
  obtain ⟨htype, hexpands⟩ := Shape.le_iff.mp h
  rw [broadcastInDim_eq_ok]
  refine ⟨⟨hvalid, htype.symm, rfl⟩, List.range x.rank, ?_, ?_⟩
  · apply normalizeAxes_map_ofNat _ List.nodup_range
    intro a ha
    have ha : a < x.dimensions.length := List.mem_range.mp ha
    rcases hexpands with hnil | hall
    · simp [hnil] at ha
    · rwa [← hall.length_eq]
  · rcases hexpands with hnil | hall
    · simp [Shape.rank, hnil]
    · rw [List.forall₂_iff_get]
      refine ⟨by simp [Shape.rank], fun a ha _ => ?_⟩
      have hz : a < z.dimensions.length := hall.length_eq ▸ ha
      refine ⟨z.dimensions[a], ?_, hall.get ha hz⟩
      simp [hz]

end Rule

/-- Broadcasts one after the other are one broadcast, whose axes are those of the second one at the
positions that the first one lists.  The operands of an operation that is accepted, other than the
one that makes complex numbers, can be broadcast to its result with every axis in its place, and
then the operation is accepted with the same result. -/
theorem broadcastInDim_composes :
    (∀ (x y z : Shape) (ds es : List Nat) (inner outer : List Int),
      broadcastInDim x ds inner = .ok y → broadcastInDim y es outer = .ok z →
        broadcastInDim x es (composeAxes outer inner es.length) = .ok z) ∧
    ∀ (b : BinaryOp) (x y z : Shape), b ≠ .complex → binary (.binary b) x y = .ok z →
      broadcastInDim x z.dimensions (identityAxes x.rank) = .ok z ∧
        broadcastInDim y z.dimensions (identityAxes y.rank) = .ok z ∧
        binary (.binary b) z z = .ok z := by
  constructor
  · intro x y z ds es inner outer hy hz
    exact broadcastInDim_trans hy hz
  · intro b x y z hop h
    obtain ⟨t, hadmits, hx, hy, hz, _⟩ := (binary_eq_ok hop).mp h
    have hxvalid : x.isValid = true := Option.isSome_iff_exists.mpr ⟨t, hx⟩
    have hyvalid : y.isValid = true := Option.isSome_iff_exists.mpr ⟨t, hy⟩
    have habove := (isLUB_of_binary hop h).1
    have hxz : x ≤ z := habove (Set.mem_insert x {y})
    have hyz : y ≤ z := habove (Set.mem_insert_of_mem x rfl)
    exact ⟨broadcastInDim_of_le hxvalid hxz, broadcastInDim_of_le hyvalid hyz,
      binary_of_le hop hadmits hz le_rfl⟩

/-- One element is repeated along a row, and the row for all rows of two matrices.  A column without
elements and a scalar are broadcast to their sums with a row. -/
theorem broadcastInDim_composes_row :
    let s := Shape.of (.real .f32)
    broadcastInDim (s [1]) [1, 3] [-1] = .ok (s [1, 3]) ∧
      broadcastInDim (s [1, 3]) [2, 4, 3] [1, -1] = .ok (s [2, 4, 3]) ∧
      broadcastInDim (s [1]) [2, 4, 3] [2] = .ok (s [2, 4, 3]) ∧
      BinaryOp.add ≠ .complex ∧ binary (.binary .add) (s [0, 1]) (s [1, 3]) = .ok (s [0, 3]) ∧
      broadcastInDim (s [0, 1]) [0, 3] [0, 1] = .ok (s [0, 3]) ∧
      binary (.binary .add) (s []) (s [1, 3]) = .ok (s [1, 3]) ∧
      broadcastInDim (s []) [1, 3] [] = .ok (s [1, 3]) := by
  intro s
  have hadd : BinaryOp.add ≠ .complex := by decide
  have hfirst : broadcastInDim (s [1]) [1, 3] [-1] = .ok (s [1, 3]) := by decide
  have hsecond : broadcastInDim (s [1, 3]) [2, 4, 3] [1, -1] = .ok (s [2, 4, 3]) := by decide
  have hcolumn : binary (.binary .add) (s [0, 1]) (s [1, 3]) = .ok (s [0, 3]) := by decide
  have hscalar : binary (.binary .add) (s []) (s [1, 3]) = .ok (s [1, 3]) := by decide
  have hcompose : composeAxes [1, -1] [-1] 3 = [2] := by decide
  obtain ⟨htrans, hoperands⟩ := broadcastInDim_composes
  have htwo := htrans _ _ _ _ _ _ _ hfirst hsecond
  rw [List.length_cons, List.length_cons, List.length_singleton, hcompose] at htwo
  exact ⟨hfirst, hsecond, htwo, hadd, hcolumn, (hoperands _ _ _ _ hadd hcolumn).1, hscalar,
    (hoperands _ _ _ _ hadd hscalar).1⟩

end TensorProgram.Inference
