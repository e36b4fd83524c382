import Mathlib.Order.Bounds.Basic
import Mathlib.Tactic.Tauto
import TensorProgram.Inference.Elementwise
import TensorProgram.Proofs.Checks

/-!
# The order of broadcasting

Shapes of one element type are ordered by broadcasting: a scalar is below all of them, and otherwise
a shape is below those of the same rank that differ from it only where its extent is one.  The two
operands of an operation are broadcast to the least shape that is above both, `isLUB_of_binary`, and
there is one as soon as any shape is above both, `exists_binary`.

So the result does not depend on the order of the operands, nor on the brackets when there are more
of them: however they are combined, they are broadcast to the least shape above all of them,
`Bracketing.infer_eq_ok_iff_isLUB`.
-/

namespace TensorProgram

/-! ## The order -/

/-- An extent is broadcast to any other one if it is one, and to itself. -/
def Stretches (m n : Nat) : Prop :=
  m = 1 ∨ m = n

/-- Without axes there is nothing to keep, and otherwise every axis stays in its place. -/
def Expands (ds es : List Nat) : Prop :=
  ds = [] ∨ List.Forall₂ Stretches ds es

section Extents

variable {k m n : Nat} {ds es gs : List Nat}

theorem Stretches.refl (n : Nat) : Stretches n n :=
  .inr rfl

theorem Stretches.trans (h : Stretches k m) (h' : Stretches m n) : Stretches k n := by
  unfold Stretches at *
  omega

theorem Stretches.antisymm (h : Stretches m n) (h' : Stretches n m) : m = n := by
  unfold Stretches at *
  omega

theorem forall₂_stretches_antisymm (h : List.Forall₂ Stretches ds es)
    (h' : List.Forall₂ Stretches es ds) : ds = es := by
  induction h with
  | nil => rfl
  | cons hhead _ ih =>
    obtain ⟨hhead', hrest'⟩ := List.forall₂_cons.mp h'
    rw [hhead.antisymm hhead', ih hrest']

theorem Expands.refl (ds : List Nat) : Expands ds ds :=
  .inr (List.forall₂_same.mpr fun n _ => .refl n)

theorem expands_nil_right : Expands ds [] ↔ ds = [] := by
  simp [Expands]

theorem expands_iff_of_ne_nil (h : ds ≠ []) : Expands ds es ↔ List.Forall₂ Stretches ds es :=
  or_iff_right h

theorem Expands.trans (h : Expands ds es) (h' : Expands es gs) : Expands ds gs := by
  rcases h with hnil | hall
  · exact .inl hnil
  · rcases h' with rfl | hall'
    · exact .inl (List.forall₂_nil_right_iff.mp hall)
    · exact .inr (forall₂_trans (fun _ _ _ => .trans) hall hall')

theorem Expands.antisymm (h : Expands ds es) (h' : Expands es ds) : ds = es := by
  rcases h with rfl | hall
  · exact (expands_nil_right.mp h').symm
  · rcases h' with rfl | hall'
    · exact List.forall₂_nil_right_iff.mp hall
    · exact forall₂_stretches_antisymm hall hall'

end Extents

/-- A shape is below those that it can be broadcast to with every axis in its place. -/
instance : PartialOrder Shape where
  le s s' := s.elementType? = s'.elementType? ∧ Expands s.dimensions s'.dimensions
  le_refl s := ⟨rfl, .refl s.dimensions⟩
  le_trans _ _ _ h h' := ⟨h.1.trans h'.1, h.2.trans h'.2⟩
  le_antisymm := by
    intro s s' h h'
    have hdimensions : s.dimensions = s'.dimensions := h.2.antisymm h'.2
    cases s
    cases s'
    rw [Shape.mk.injEq]
    exact ⟨h.1, hdimensions⟩

namespace Shape

theorem le_iff {s s' : Shape} :
    s ≤ s' ↔ s.elementType? = s'.elementType? ∧ Expands s.dimensions s'.dimensions :=
  Iff.rfl

/-- A least upper bound of two shapes is below all that both are below. -/
theorem isLUB_pair_iff {x y z : Shape} : IsLUB {x, y} z ↔ ∀ u, z ≤ u ↔ x ≤ u ∧ y ≤ u := by
  rw [isLUB_iff_le_iff]
  apply forall_congr'
  intro u
  rw [upperBounds_insert, upperBounds_singleton]
  rfl

theorem scalar_le {s : Shape} {t : ElementType} (h : s.elementType? = some t) : scalar t ≤ s :=
  ⟨h.symm, .inl rfl⟩

end Shape

namespace Inference

/-! ## Two operands -/

section Extents

variable {m n k l : Nat} {ds es gs ks : List Nat}

/-- Two extents are broadcast to one that both stretch to, and that stretches to all such. -/
theorem stretches_of_broadcastExtent? (h : broadcastExtent? m n = some k) :
    Stretches k l ↔ Stretches m l ∧ Stretches n l := by
  unfold broadcastExtent? at h
  unfold Stretches
  split_ifs at h with hsame hm hn
  all_goals
    have := Option.some.inj h
    omega

theorem exists_broadcastExtent? (hm : Stretches m l) (hn : Stretches n l) :
    ∃ k, broadcastExtent? m n = some k := by
  unfold broadcastExtent?
  split_ifs with hsame hone hone'
  · exact ⟨_, rfl⟩
  · exact ⟨_, rfl⟩
  · exact ⟨_, rfl⟩
  · unfold Stretches at hm hn
    omega

theorem stretches_of_mapM (hlength : ds.length = es.length)
    (h : ((ds.zip es).mapM fun (m, n) => broadcastExtent? m n) = some gs) :
    List.Forall₂ Stretches gs ks ↔
      List.Forall₂ Stretches ds ks ∧ List.Forall₂ Stretches es ks := by
  induction ds generalizing es gs ks with
  | nil =>
    obtain rfl := List.length_eq_zero_iff.mp hlength.symm
    obtain rfl : [] = gs := by simpa using h
    simp
  | cons m ds ih =>
    cases es with
    | nil => cases hlength
    | cons n es =>
      simp only [List.zip_cons_cons, List.mapM_cons, Option.bind_eq_bind, Option.bind_eq_some_iff,
        Option.pure_def, Option.some.injEq] at h
      obtain ⟨k, hk, gs, hgs, rfl⟩ := h
      cases ks with
      | nil => simp
      | cons l ks =>
        simp only [List.forall₂_cons, stretches_of_broadcastExtent? hk,
          ih (Nat.succ.inj hlength) hgs]
        tauto

theorem exists_mapM_broadcastExtent? (hds : List.Forall₂ Stretches ds ks)
    (hes : List.Forall₂ Stretches es ks) :
    ∃ gs, ((ds.zip es).mapM fun (m, n) => broadcastExtent? m n) = some gs := by
  induction hds generalizing es with
  | nil => exact ⟨[], by simp⟩
  | cons hm _ ih =>
    obtain ⟨n, es, hn, hrest, rfl⟩ := List.forall₂_cons_right_iff.mp hes
    obtain ⟨k, hk⟩ := exists_broadcastExtent? hm hn
    obtain ⟨gs, hgs⟩ := ih hrest
    exact ⟨k :: gs, by simp [hk, hgs]⟩

/-- What two lists of extents are broadcast to is below all that both are below. -/
theorem expands_of_broadcastDimensions? (h : broadcastDimensions? ds es = some gs) :
    Expands gs ks ↔ Expands ds ks ∧ Expands es ks := by
  unfold broadcastDimensions? at h
  split_ifs at h with hds hes hlength
  · obtain rfl := Option.some.inj h
    simp [Expands, hds]
  · obtain rfl := Option.some.inj h
    simp [Expands, hes]
  · have hself : List.Forall₂ Stretches ds gs :=
      ((stretches_of_mapM hlength h).mp (List.forall₂_same.mpr fun n _ => .refl n)).1
    have hgs : gs ≠ [] := by
      intro hnil
      exact hds (List.forall₂_nil_right_iff.mp (hnil ▸ hself))
    rw [expands_iff_of_ne_nil hds, expands_iff_of_ne_nil hes, expands_iff_of_ne_nil hgs]
    exact stretches_of_mapM hlength h

theorem exists_broadcastDimensions? (hds : Expands ds ks) (hes : Expands es ks) :
    ∃ gs, broadcastDimensions? ds es = some gs := by
  unfold broadcastDimensions?
  split_ifs with hds' hes' hlength
  · exact ⟨_, rfl⟩
  · exact ⟨_, rfl⟩
  · exact exists_mapM_broadcastExtent? (hds.resolve_left hds') (hes.resolve_left hes')
  · have hsame := (hds.resolve_left hds').length_eq.trans (hes.resolve_left hes').length_eq.symm
    exact absurd hsame hlength

end Extents

section Rule

variable {b : BinaryOp} {t : ElementType} {x y z u : Shape}

theorem binary_eq_ok (hop : b ≠ .complex) :
    binary (.binary b) x y = .ok z ↔
      ∃ t, requireCapabilities (.binary b) t = .ok () ∧ x.elementType? = some t ∧
        y.elementType? = some t ∧ z.elementType? = some t ∧
        broadcastDimensions? x.dimensions y.dimensions = some z.dimensions := by
  have htype (t : ElementType) : binaryElementType b t = .ok t := by
    unfold binaryElementType
    split
    · exact absurd rfl hop
    · rfl
  have hdimensions (ds : List Nat) : broadcastDimensions x y = .ok ds ↔
      broadcastDimensions? x.dimensions y.dimensions = some ds := by
    unfold broadcastDimensions
    cases broadcastDimensions? x.dimensions y.dimensions with
    | none => simp
    | some _ => simp
  simp only [binary, bind_eq_ok, commonElementType_eq_ok, htype, hdimensions, pure_eq_ok,
    Except.ok.injEq, of_eq_iff]
  constructor
  · intro h
    obtain ⟨t, ⟨hx, hy⟩, _, hadmits, _, rfl, _, hds, hz, rfl⟩ := h
    exact ⟨t, hadmits, hx, hy, hz, hds⟩
  · intro h
    obtain ⟨t, hadmits, hx, hy, hz, hds⟩ := h
    exact ⟨t, ⟨hx, hy⟩, (), hadmits, t, rfl, z.dimensions, hds, hz, rfl⟩

/-- The result is the least shape that both operands can be broadcast to. -/
theorem isLUB_of_binary (hop : b ≠ .complex) (h : binary (.binary b) x y = .ok z) :
    IsLUB {x, y} z := by
  obtain ⟨t, _, hx, hy, hz, hds⟩ := (binary_eq_ok hop).mp h
  rw [Shape.isLUB_pair_iff]
  intro u
  rw [Shape.le_iff, Shape.le_iff, Shape.le_iff, expands_of_broadcastDimensions? hds, hx, hy, hz]
  tauto

/-- Operands that can be broadcast to a common shape are accepted. -/
theorem exists_binary (hop : b ≠ .complex) (hadmits : requireCapabilities (.binary b) t = .ok ())
    (hu : u.elementType? = some t) (hx : x ≤ u) (hy : y ≤ u) :
    ∃ z, binary (.binary b) x y = .ok z := by
  obtain ⟨gs, hgs⟩ := exists_broadcastDimensions? hx.2 hy.2
  exact ⟨.of t gs, (binary_eq_ok hop).mpr ⟨t, hadmits, hx.1.trans hu, hy.1.trans hu, rfl, hgs⟩⟩

theorem binary_eq_ok_iff_isLUB (hop : b ≠ .complex)
    (hadmits : requireCapabilities (.binary b) t = .ok ()) (hx : x.elementType? = some t) :
    binary (.binary b) x y = .ok z ↔ IsLUB {x, y} z := by
  constructor
  · exact isLUB_of_binary hop
  · intro h
    have hxz : x ≤ z := h.1 (Set.mem_insert x {y})
    have hyz : y ≤ z := h.1 (Set.mem_insert_of_mem x rfl)
    obtain ⟨z', hz'⟩ := exists_binary hop hadmits (hxz.1.symm.trans hx) hxz hyz
    rw [hz', (isLUB_of_binary hop hz').unique h]

/-- An operand that can be broadcast to the other one leaves it as it is. -/
theorem binary_of_le (hop : b ≠ .complex) (hadmits : requireCapabilities (.binary b) t = .ok ())
    (hx : x.elementType? = some t) (h : x ≤ y) : binary (.binary b) x y = .ok y := by
  rw [binary_eq_ok_iff_isLUB hop hadmits hx, Shape.isLUB_pair_iff]
  intro u
  exact ⟨fun hyu => ⟨h.trans hyu, hyu⟩, fun hu => hu.2⟩

theorem binary_comm (hop : b ≠ .complex) (h : binary (.binary b) x y = .ok z) :
    binary (.binary b) y x = .ok z := by
  obtain ⟨t, hadmits, _, hy, _⟩ := (binary_eq_ok hop).mp h
  rw [binary_eq_ok_iff_isLUB hop hadmits hy, Set.pair_comm]
  exact isLUB_of_binary hop h

end Rule

/-! ## More operands -/

/-- Operands that are combined two by two, with brackets. -/
inductive Bracketing
  | operand (s : Shape)
  | pair (lhs rhs : Bracketing)
  deriving Repr

namespace Bracketing

/-- The operands from left to right. -/
def operands : Bracketing → List Shape
  | operand s => [s]
  | pair lhs rhs => lhs.operands ++ rhs.operands

/-- The shape of all operands together. -/
def infer (op : OpKind) : Bracketing → Check Shape
  | operand s => .ok s
  | pair lhs rhs => do binary op (← lhs.infer op) (← rhs.infer op)

variable {b : BinaryOp} {t : ElementType} {e : Bracketing} {u z : Shape}

theorem operands_ne_nil (e : Bracketing) : e.operands ≠ [] := by
  induction e with
  | operand s => exact List.cons_ne_nil s []
  | pair lhs rhs ihl _ => exact List.append_ne_nil_of_left_ne_nil ihl _

/-- The result is the least shape that all operands can be broadcast to. -/
theorem isLUB_of_infer (hop : b ≠ .complex) (h : e.infer (.binary b) = .ok z) :
    IsLUB {s | s ∈ e.operands} z := by
  induction e generalizing z with
  | operand s =>
    obtain rfl := Except.ok.inj h
    simp [operands]
  | pair lhs rhs ihl ihr =>
    simp only [infer, bind_eq_ok] at h
    obtain ⟨x, hx, y, hy, hz⟩ := h
    have hset : {s | s ∈ (pair lhs rhs).operands} =
        {s | s ∈ lhs.operands} ∪ {s | s ∈ rhs.operands} := by
      ext s
      simp [operands]
    rw [isLUB_iff_le_iff]
    intro u
    calc z ≤ u ↔ x ≤ u ∧ y ≤ u := Shape.isLUB_pair_iff.mp (isLUB_of_binary hop hz) u
      _ ↔ u ∈ upperBounds {s | s ∈ (pair lhs rhs).operands} := by
        rw [hset, upperBounds_union, isLUB_le_iff (ihl hx), isLUB_le_iff (ihr hy)]
        rfl

/-- Operands that can all be broadcast to a common shape are accepted with any brackets. -/
theorem exists_infer (hop : b ≠ .complex) (hadmits : requireCapabilities (.binary b) t = .ok ())
    (hu : u.elementType? = some t) (hall : ∀ s ∈ e.operands, s ≤ u) :
    ∃ z, e.infer (.binary b) = .ok z := by
  induction e with
  | operand s => exact ⟨s, rfl⟩
  | pair lhs rhs ihl ihr =>
    simp only [operands, List.forall_mem_append] at hall
    obtain ⟨x, hx⟩ := ihl hall.1
    obtain ⟨y, hy⟩ := ihr hall.2
    have hxu : x ≤ u := (isLUB_of_infer hop hx).2 hall.1
    have hyu : y ≤ u := (isLUB_of_infer hop hy).2 hall.2
    obtain ⟨z, hz⟩ := exists_binary hop hadmits hu hxu hyu
    exact ⟨z, by simp only [infer, hx, hy, ok_bind, hz]⟩

theorem infer_eq_ok_iff_isLUB (hop : b ≠ .complex)
    (hadmits : requireCapabilities (.binary b) t = .ok ())
    (htypes : ∀ s ∈ e.operands, s.elementType? = some t) :
    e.infer (.binary b) = .ok z ↔ IsLUB {s | s ∈ e.operands} z := by
  constructor
  · exact isLUB_of_infer hop
  · intro h
    obtain ⟨s, hs⟩ := List.exists_mem_of_ne_nil _ e.operands_ne_nil
    have hz : z.elementType? = some t := (h.1 hs).1.symm.trans (htypes s hs)
    obtain ⟨z', hz'⟩ := exists_infer hop hadmits hz fun s hs => h.1 hs
    rw [hz', (isLUB_of_infer hop hz').unique h]

/-- Neither the brackets nor the order of the operands matter. -/
theorem infer_perm (e e' : Bracketing) (hop : b ≠ .complex)
    (hadmits : requireCapabilities (.binary b) t = .ok ())
    (htypes : ∀ s ∈ e.operands, s.elementType? = some t) (hperm : e.operands.Perm e'.operands) :
    e.infer (.binary b) = .ok z ↔ e'.infer (.binary b) = .ok z := by
  have htypes' : ∀ s ∈ e'.operands, s.elementType? = some t := by
    intro s hs
    exact htypes s (hperm.mem_iff.mpr hs)
  have hset : {s | s ∈ e.operands} = {s | s ∈ e'.operands} := by
    ext s
    exact hperm.mem_iff
  rw [infer_eq_ok_iff_isLUB hop hadmits htypes, infer_eq_ok_iff_isLUB hop hadmits htypes', hset]

end Bracketing

theorem binary_assoc {b : BinaryOp} {t : ElementType} {x y w z : Shape} (hop : b ≠ .complex)
    (hadmits : requireCapabilities (.binary b) t = .ok ()) (hx : x.elementType? = some t)
    (hy : y.elementType? = some t) (hw : w.elementType? = some t) :
    (binary (.binary b) y w >>= fun s => binary (.binary b) x s) = .ok z ↔
      (binary (.binary b) x y >>= fun s => binary (.binary b) s w) = .ok z := by
  have htypes : ∀ s ∈ [x, y, w], s.elementType? = some t := by simp [hx, hy, hw]
  exact Bracketing.infer_perm (.pair (.operand x) (.pair (.operand y) (.operand w)))
    (.pair (.pair (.operand x) (.operand y)) (.operand w)) hop hadmits htypes (.refl _)

/-- For all operations on two operands except the one that makes complex numbers, and all element
types that they admit: the operands are broadcast to the least shape that both can be broadcast to.
This is commutative and associative where it is defined, a shape is broadcast to itself, and a
scalar to any other shape.  So operands may be listed in any order and with any brackets. -/
theorem binary_broadcasts {b : BinaryOp} {t : ElementType} (hop : b ≠ .complex)
    (hadmits : requireCapabilities (.binary b) t = .ok ()) :
    (∀ x y z : Shape, x.elementType? = some t →
      (binary (.binary b) x y = .ok z ↔ IsLUB {x, y} z)) ∧
    (∀ x y z : Shape, binary (.binary b) x y = .ok z ↔ binary (.binary b) y x = .ok z) ∧
    (∀ x : Shape, x.elementType? = some t →
      binary (.binary b) x x = .ok x ∧ binary (.binary b) (.scalar t) x = .ok x) ∧
    (∀ x y w z : Shape, x.elementType? = some t → y.elementType? = some t →
      w.elementType? = some t →
      ((binary (.binary b) y w >>= fun s => binary (.binary b) x s) = .ok z ↔
        (binary (.binary b) x y >>= fun s => binary (.binary b) s w) = .ok z)) ∧
    ∀ e e' : Bracketing, (∀ s ∈ e.operands, s.elementType? = some t) →
      e.operands.Perm e'.operands →
      ∀ z, e.infer (.binary b) = .ok z ↔ e'.infer (.binary b) = .ok z := by
  refine ⟨?least, ?comm, ?neutral, ?assoc, ?any⟩
  case least => exact fun x y z hx => binary_eq_ok_iff_isLUB hop hadmits hx
  case comm => exact fun x y z => ⟨binary_comm hop, binary_comm hop⟩
  case neutral =>
    intro x hx
    exact ⟨binary_of_le hop hadmits hx le_rfl, binary_of_le hop hadmits rfl (Shape.scalar_le hx)⟩
  case assoc => exact fun x y w z hx hy hw => binary_assoc hop hadmits hx hy hw
  case any => exact fun e e' htypes hperm z => Bracketing.infer_perm e e' hop hadmits htypes hperm

/-- A row, a column without elements and a scalar are added in different orders. -/
theorem binary_broadcasts_empty :
    let row := Shape.of (.real .f32) [1, 3]
    let column := Shape.of (.real .f32) [0, 1]
    let scalar := Shape.scalar (.real .f32)
    let all := Shape.of (.real .f32) [0, 3]
    BinaryOp.add ≠ .complex ∧ requireCapabilities (.binary .add) (.real .f32) = .ok () ∧
      IsLUB {row, column} all ∧ binary (.binary .add) column row = .ok all ∧
      binary (.binary .add) row row = .ok row ∧ binary (.binary .add) scalar row = .ok row ∧
      (binary (.binary .add) row scalar >>= fun s => binary (.binary .add) s column) = .ok all ∧
      (Bracketing.pair (.pair (.operand column) (.operand scalar)) (.operand row)).infer
        (.binary .add) = .ok all := by
  intro row column scalar all
  have hadd : BinaryOp.add ≠ .complex := by decide
  have hadmits : requireCapabilities (.binary .add) (.real .f32) = .ok () := by decide
  obtain ⟨hleast, hcomm, hneutral, hassoc, hany⟩ := binary_broadcasts hadd hadmits
  have htwo : binary (.binary .add) row column = .ok all := by decide
  have hright : (binary (.binary .add) scalar column >>= fun s => binary (.binary .add) row s) =
      .ok all := by
    decide
  have htypes : ∀ s ∈ (Bracketing.pair (.operand row) (.pair (.operand scalar)
      (.operand column))).operands, s.elementType? = some (.real .f32) := by
    decide
  exact ⟨hadd, hadmits, (hleast _ _ _ rfl).mp htwo, (hcomm _ _ _).mp htwo,
    (hneutral _ rfl).1, (hneutral _ rfl).2, (hassoc _ _ _ _ rfl rfl rfl).mp hright,
    (hany _ _ htypes (by decide) _).mp hright⟩

end Inference

end TensorProgram
