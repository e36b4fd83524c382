import TensorProgram.Proofs.Extents
import TensorProgram.Inference.Outputs

/-!
# Faults of checks

`Inference.FailsOnlyWith` bounds the causes that a check may end in, and a chain of checks is
followed with `FailsOnlyWith.bind`: what has succeeded before is known when a list is read.

A check that ends in a fault has come to no answer: a list was read past its end, a size was
divided by zero or taken from a smaller one, or a result left the range of 64-bit arithmetic.
`Inference.StopsOnlyFor` bounds only the faults that a check may end in, with the same rules.

The checks that the rules are made of come with the condition under which they do not stop:
`stops_entry` for a list that is read, `stops_sizeDiv` for a quotient, `stops_sizeSub` for a
difference.  Sums and products stop for an overflow.
-/

namespace TensorProgram

namespace Inference

open ShapeError (Cause)

/-- Every cause that the check may end in is allowed. -/
def FailsOnlyWith (allowed : Cause → Prop) {α : Type} (x : Check α) : Prop :=
  ∀ cause, x = .error cause → allowed cause

/-- Every fault that the check may end in is allowed. -/
def StopsOnlyFor (allowed : Fault → Prop) {α : Type} (x : Check α) : Prop :=
  ∀ fault, x = .error (.fault fault) → allowed fault

variable {α β : Type}

/-! ## Chains of checks -/

section Causes

variable {allowed : Cause → Prop}

theorem FailsOnlyWith.pure (a : α) : FailsOnlyWith allowed (pure a : Check α) := by
  intro cause h
  cases h

theorem FailsOnlyWith.error {cause : Cause} (h : allowed cause) :
    FailsOnlyWith allowed (.error cause : Check α) := by
  intro cause' hcause
  rwa [← Except.error.inj hcause]

/-- The second check may rely on what the first one has found. -/
theorem FailsOnlyWith.bind {x : Check α} {next : α → Check β} (hx : FailsOnlyWith allowed x)
    (h : ∀ a, x = .ok a → FailsOnlyWith allowed (next a)) :
    FailsOnlyWith allowed (x >>= next) := by
  intro cause hcause
  cases hcase : x with
  | error first =>
    rw [hcase, error_bind] at hcause
    exact hx cause (by rw [hcase, Except.error.inj hcause])
  | ok a =>
    rw [hcase, ok_bind] at hcause
    exact h a hcase cause hcause

theorem FailsOnlyWith.mapM {f : α → Check β} {xs : List α}
    (h : ∀ x ∈ xs, FailsOnlyWith allowed (f x)) : FailsOnlyWith allowed (xs.mapM f) := by
  induction xs with
  | nil => exact .pure _
  | cons x xs ih =>
    rw [List.forall_mem_cons] at h
    rw [List.mapM_cons]
    exact .bind h.1 fun _ _ => .bind (ih h.2) fun _ _ => .pure _

theorem FailsOnlyWith.forM {f : α → Check Unit} {xs : List α}
    (h : ∀ x ∈ xs, FailsOnlyWith allowed (f x)) : FailsOnlyWith allowed (xs.forM f) := by
  induction xs with
  | nil => exact .pure ()
  | cons x xs ih =>
    rw [List.forall_mem_cons] at h
    exact .bind h.1 fun _ _ => ih h.2

/-- A fold whose steps keep what the later steps rely on. -/
theorem FailsOnlyWith.foldlM {P : β → Prop} {f : β → α → Check β} {xs : List α}
    (h : ∀ b, P b → ∀ x ∈ xs, FailsOnlyWith allowed (f b x))
    (hkeep : ∀ b, P b → ∀ x c, f b x = .ok c → P c) {b : β} (hb : P b) :
    FailsOnlyWith allowed (xs.foldlM f b) := by
  induction xs generalizing b with
  | nil => exact .pure b
  | cons x xs ih =>
    rw [List.foldlM_cons]
    refine .bind (h b hb x List.mem_cons_self) fun c hc => ?_
    exact ih (fun b hb y hy => h b hb y (List.mem_cons_of_mem x hy)) (hkeep b hb x c hc)

/-- A fold whose steps rely on nothing. -/
theorem FailsOnlyWith.foldlM_of_forall {f : β → α → Check β} {xs : List α}
    (h : ∀ b x, FailsOnlyWith allowed (f b x)) (b : β) : FailsOnlyWith allowed (xs.foldlM f b) :=
  .foldlM (P := fun _ => True) (fun b _ x _ => h b x) (fun _ _ _ _ _ => trivial) trivial

theorem FailsOnlyWith.require {condition : Bool} {otherwise : Cause} (h : allowed otherwise) :
    FailsOnlyWith allowed (require condition otherwise) := by
  unfold Inference.require
  split_ifs
  · exact .pure ()
  · exact .error h

theorem FailsOnlyWith.entry {xs : List α} {position : Nat}
    (h : allowed (.fault (.outOfBounds xs.length position))) :
    FailsOnlyWith allowed (entry xs position) := by
  unfold Inference.entry
  split
  · exact .pure _
  · exact .error h

end Causes

variable {allowed : Fault → Prop}

/-- Causes that are no faults are left open. -/
theorem stopsOnlyFor_iff {x : Check α} :
    StopsOnlyFor allowed x ↔
      FailsOnlyWith (fun cause => ∀ fault, cause = .fault fault → allowed fault) x := by
  constructor
  · intro h cause hcause fault hfault
    exact h fault (hfault ▸ hcause)
  · intro h fault hfault
    exact h _ hfault fault rfl

theorem stops_pure (a : α) : StopsOnlyFor allowed (pure a : Check α) := nofun

/-- A verdict is no fault. -/
theorem stops_error {cause : Cause} (h : ∀ fault, cause ≠ .fault fault) :
    StopsOnlyFor allowed (.error cause : Check α) :=
  stopsOnlyFor_iff.mpr (.error fun fault hfault => absurd hfault (h fault))

theorem StopsOnlyFor.bind {x : Check α} {next : α → Check β} (hx : StopsOnlyFor allowed x)
    (h : ∀ a, x = .ok a → StopsOnlyFor allowed (next a)) : StopsOnlyFor allowed (x >>= next) := by
  simp only [stopsOnlyFor_iff] at *
  exact .bind hx h

theorem StopsOnlyFor.mapM {f : α → Check β} {xs : List α}
    (h : ∀ x ∈ xs, StopsOnlyFor allowed (f x)) : StopsOnlyFor allowed (xs.mapM f) := by
  simp only [stopsOnlyFor_iff] at *
  exact .mapM h

theorem StopsOnlyFor.forM {f : α → Check Unit} {xs : List α}
    (h : ∀ x ∈ xs, StopsOnlyFor allowed (f x)) : StopsOnlyFor allowed (xs.forM f) := by
  simp only [stopsOnlyFor_iff] at *
  exact .forM h

theorem StopsOnlyFor.foldlM {P : β → Prop} {f : β → α → Check β} {xs : List α}
    (h : ∀ b, P b → ∀ x ∈ xs, StopsOnlyFor allowed (f b x))
    (hkeep : ∀ b, P b → ∀ x c, f b x = .ok c → P c) {b : β} (hb : P b) :
    StopsOnlyFor allowed (xs.foldlM f b) := by
  simp only [stopsOnlyFor_iff] at *
  exact .foldlM h hkeep hb

theorem StopsOnlyFor.foldlM_of_forall {f : β → α → Check β} {xs : List α}
    (h : ∀ b x, StopsOnlyFor allowed (f b x)) (b : β) : StopsOnlyFor allowed (xs.foldlM f b) := by
  simp only [stopsOnlyFor_iff] at *
  exact .foldlM_of_forall h b

/-! ## Single checks -/

section Checks

variable {s lhs rhs : Shape} {t : ElementType} {op : OpKind} {parameter : String}

theorem stops_require {condition : Bool} {otherwise : Cause}
    (h : ∀ fault, otherwise ≠ .fault fault) :
    StopsOnlyFor allowed (require condition otherwise) := by
  unfold require
  split_ifs
  · exact stops_pure ()
  · exact stops_error h

theorem stops_entry {xs : List α} {position : Nat} (h : position < xs.length) :
    StopsOnlyFor allowed (entry xs position) := by
  unfold entry
  rw [List.getElem?_eq_getElem h]
  exact stops_pure _

theorem stops_replaceEntry {xs : List α} {position : Nat} {x : α} (h : position < xs.length) :
    StopsOnlyFor allowed (replaceEntry xs position x) := by
  unfold replaceEntry
  rw [if_pos h]
  exact stops_pure _

theorem stops_elementType : StopsOnlyFor allowed (elementType s) := by
  unfold elementType
  split
  · exact stops_pure _
  · exact stops_error nofun

theorem stops_requireClass {c : ElementClass} : StopsOnlyFor allowed (requireClass t c) :=
  stops_require nofun

theorem stops_requireCapabilities : StopsOnlyFor allowed (requireCapabilities op t) :=
  .forM fun _ _ => stops_requireClass

theorem stops_scalarElementType : StopsOnlyFor allowed (scalarElementType s) :=
  .bind stops_elementType fun _ _ => .bind (stops_require nofun) fun _ _ => stops_pure _

theorem stops_commonElementType : StopsOnlyFor allowed (commonElementType lhs rhs) := by
  refine .bind stops_elementType fun _ _ => .bind stops_elementType fun _ _ => ?_
  exact .bind (stops_require nofun) fun _ _ => stops_pure _

theorem stops_indexElementType : StopsOnlyFor allowed (indexElementType s) :=
  .bind stops_elementType fun _ _ => .bind stops_requireClass fun _ _ => stops_pure _

theorem stops_requireLength {expected actual : Nat} :
    StopsOnlyFor allowed (requireLength parameter expected actual) :=
  stops_require nofun

theorem requireLength_eq_ok {expected actual : Nat} {u : Unit} :
    requireLength parameter expected actual = .ok u ↔ expected = actual := by
  rw [requireLength, require_eq_ok, beq_iff_eq]

theorem length_of_requireLength {expected actual : Nat} {u : Unit}
    (h : requireLength parameter expected actual = .ok u) : actual = expected := by
  have hequal : expected = actual := by simpa using require_eq_ok.mp h
  exact hequal.symm

/-- A list of the expected length can be read at every expected position. -/
theorem lt_of_requireLength {expected actual position : Nat} {u : Unit}
    (h : requireLength parameter expected actual = .ok u) (hposition : position < expected) :
    position < actual := by
  rwa [length_of_requireLength h]

theorem lt_of_mem_zipIdx {xs : List α} {x : α} {i : Nat} (h : (x, i) ∈ xs.zipIdx) :
    i < xs.length := by
  simpa using (List.mem_zipIdx h).2.1

theorem stops_requireScalarLike {suits : ElementType → ElementType → Bool} {position : Nat} :
    StopsOnlyFor allowed (requireScalarLike suits t position s) :=
  .bind stops_elementType fun _ _ => stops_require nofun

/-- The signature has been found to have as many entries as are looked at. -/
theorem stops_requireCombinator {suits : ElementType → ElementType → Bool} {signature : Signature}
    {types : List ElementType} :
    StopsOnlyFor allowed (requireCombinator suits signature types) := by
  refine .bind (stops_require nofun) fun _ hcounts => .forM fun entry hentry => ?_
  obtain ⟨hinputs, houtputs⟩ : signature.inputs.length = 2 * types.length ∧
      signature.outputs.length = types.length := by
    simpa using require_eq_ok.mp hcounts
  have hposition : entry.2 < types.length := lt_of_mem_zipIdx hentry
  refine .bind (stops_entry (by omega)) fun _ _ => .bind stops_requireScalarLike fun _ _ => ?_
  refine .bind (stops_entry (by omega)) fun _ _ => .bind stops_requireScalarLike fun _ _ => ?_
  exact .bind (stops_entry (by omega)) fun _ _ => stops_requireScalarLike

end Checks

/-! ## Axes -/

section Axes

variable {parameter : String} {axis : Int} {axes : List Int} {rank : Nat} {as : List Nat}

theorem stops_normalizeAxis : StopsOnlyFor allowed (normalizeAxis axis rank) := by
  unfold normalizeAxis
  split_ifs
  · exact stops_pure _
  · exact stops_error nofun

theorem stops_normalizeAxes : StopsOnlyFor allowed (normalizeAxes parameter axes rank) := by
  refine .foldlM_of_forall (fun _ _ => ?_) []
  exact .bind stops_normalizeAxis fun _ _ => .bind (stops_require nofun) fun _ _ => stops_pure _

theorem lt_of_normalizeAxis {a : Nat} (h : normalizeAxis axis rank = .ok a) : a < rank :=
  (normalizeAxis_eq_ok.mp h).2

theorem lt_of_normalizeAxes (h : normalizeAxes parameter axes rank = .ok as) :
    ∀ a ∈ as, a < rank :=
  forall_of_mapM (mapM_eq_ok.mpr (normalizeAxes_eq_ok.mp h).1) fun _ _ _ => lt_of_normalizeAxis

theorem length_of_normalizeAxes (h : normalizeAxes parameter axes rank = .ok as) :
    as.length = axes.length :=
  (normalizeAxes_eq_ok.mp h).1.length_eq.symm

theorem stops_sortedAxes : StopsOnlyFor allowed (sortedAxes parameter axes rank) :=
  .bind stops_normalizeAxes fun _ _ => .bind (stops_require nofun) fun _ _ => stops_pure _

/-- Axes that lie in the tensor can be looked up. -/
theorem stops_mapM_entry {xs : List α} (h : ∀ a ∈ as, a < xs.length) :
    StopsOnlyFor allowed (as.mapM (entry xs)) :=
  .mapM fun a ha => stops_entry (h a ha)

end Axes

/-! ## Sizes and offsets -/

section Sizes

variable {m n : Nat} {x y : Int}

theorem stops_sizeDiv (h : n ≠ 0) : StopsOnlyFor allowed (Size.div m n) := by
  unfold Size.div
  rw [if_neg h]
  exact stops_pure _

theorem stops_sizeMod (h : n ≠ 0) : StopsOnlyFor allowed (Size.mod m n) := by
  unfold Size.mod
  rw [if_neg h]
  exact stops_pure _

theorem stops_sizeSub (h : n ≤ m) : StopsOnlyFor allowed (Size.sub m n) := by
  unfold Size.sub
  rw [if_pos h]
  exact stops_pure _

theorem eq_of_sizeSub {k : Nat} (h : Size.sub m n = .ok k) : k = m - n := by
  unfold Size.sub at h
  split_ifs at h
  simpa using h.symm

theorem stops_sizeBounded {operation : Arithmetic} (hoverflow : allowed (.overflow operation)) :
    StopsOnlyFor allowed (Size.bounded operation n) := by
  unfold Size.bounded
  split_ifs
  · exact stops_pure _
  · intro fault hfault
    cases hfault
    exact hoverflow

theorem stops_sizeProduct {extents : List Nat} (hoverflow : allowed (.overflow .multiply)) :
    StopsOnlyFor allowed (Size.product extents) :=
  .foldlM_of_forall (fun _ _ => stops_sizeBounded hoverflow) 1

theorem stops_offsetBounded {operation : Arithmetic} (hoverflow : allowed (.overflow operation)) :
    StopsOnlyFor allowed (Offset.bounded operation x) := by
  unfold Offset.bounded
  split_ifs
  · exact stops_pure _
  · intro fault hfault
    cases hfault
    exact hoverflow

theorem stops_offsetDiv (h : y ≠ 0) (hzero : 0 ≤ x) (hlimit : x < Offset.limit) :
    StopsOnlyFor allowed (Offset.div x y) := by
  rw [Offset.div_of_nonneg h hzero hlimit]
  exact stops_pure _

end Sizes

/-- The bits of a size other than zero are no offset of zero. -/
theorem ofSize_ne_zero {n : Nat} (hzero : n ≠ 0) (hlimit : n < Size.limit) :
    Offset.ofSize n ≠ 0 := by
  intro h
  have hdvd : (Size.limit : Int) ∣ n := Int.dvd_of_bmod_eq_zero h
  have := Nat.le_of_dvd (Nat.pos_of_ne_zero hzero) (Int.natCast_dvd_natCast.mp hdvd)
  omega

theorem bits_ne_zero (t : ElementType) : t.bits ≠ 0 := by
  cases t with
  | boolean => decide
  | signed w => cases w <;> decide
  | unsigned w => cases w <;> decide
  | real f => cases f <;> decide
  | complex p => cases p <;> decide

/-! ## Axes of indexed access -/

section IndexedAxes

variable {operand indices : Shape} {access : IndexedAccess} {axes : IndexedAxes}

theorem stops_requireDisjoint {xs others : List Nat} {otherwise : Nat → Cause}
    (h : ∀ axis fault, otherwise axis ≠ .fault fault) :
    StopsOnlyFor allowed (requireDisjoint xs others otherwise) := by
  unfold requireDisjoint
  split
  · exact stops_error (h _)
  · exact stops_pure ()

theorem stops_requireBatchingPair {parameter : String} {indexVector : Nat} {pair : Nat × Nat}
    (hoperand : pair.1 < operand.rank) (hindices : pair.2 < indices.rank) :
    StopsOnlyFor allowed (requireBatchingPair operand indices parameter indexVector pair) := by
  refine .bind (stops_require nofun) fun _ _ => .bind (stops_entry hoperand) fun _ _ => ?_
  exact .bind (stops_entry hindices) fun _ _ => stops_require nofun

/-- The batching axes have been normalized before their extents are compared. -/
theorem stops_indexedAxes : StopsOnlyFor allowed (indexedAxes operand indices access) := by
  refine .bind stops_normalizeAxis fun _ _ => .bind stops_normalizeAxes fun _ _ => ?_
  refine .bind stops_normalizeAxes fun bs hbs => .bind (stops_requireDisjoint nofun) fun _ _ => ?_
  refine .bind stops_normalizeAxes fun is his => .bind stops_requireLength fun _ _ => ?_
  refine .bind (.forM fun pair hpair => ?_) fun _ _ => ?_
  · obtain ⟨hb, hi⟩ := List.of_mem_zip hpair
    exact stops_requireBatchingPair (lt_of_normalizeAxes hbs _ hb) (lt_of_normalizeAxes his _ hi)
  · refine .bind stops_requireLength fun _ _ => .bind stops_normalizeAxes fun _ _ => ?_
    exact .bind (stops_requireDisjoint nofun) fun _ _ => stops_pure _

/-- The axes that a window lacks are axes of the operand. -/
theorem lt_of_indexedAxes (h : indexedAxes operand indices access = .ok axes) :
    ∀ a ∈ axes.dropped ++ axes.batching, a < operand.rank := by
  simp only [indexedAxes, bind_eq_ok, pure_eq_ok, Except.ok.injEq] at h
  obtain ⟨_, _, ds, hds, bs, hbs, _, _, _, _, _, _, _, _, _, _, _, _, _, _, rfl⟩ := h
  exact List.forall_mem_append.mpr ⟨lt_of_normalizeAxes hds, lt_of_normalizeAxes hbs⟩

theorem lt_of_mem_windowAxes {rank : Nat} : ∀ a ∈ axes.windowAxes rank, a < rank :=
  fun _ ha => List.mem_range.mp (List.mem_of_mem_filter ha)

theorem stops_requireSliceSizes {sizes extents : List Nat} :
    StopsOnlyFor allowed (requireSliceSizes sizes extents) :=
  .forM fun _ _ => stops_require nofun

/-- Whoever looks at a start index knows that there is a first one. -/
theorem stops_requireStarts {starts : List Shape} :
    StopsOnlyFor allowed (requireStarts operand starts) := by
  refine .bind stops_requireLength fun _ _ => .forM fun start hstart => ?_
  refine .bind (stops_entry (List.length_pos_of_mem hstart)) fun _ _ => ?_
  refine .bind stops_indexElementType fun _ _ => .bind (stops_require nofun) fun _ _ => ?_
  exact .bind stops_commonElementType fun _ _ => stops_pure ()

end IndexedAxes

/-! ## Inputs of reductions -/

section Reductions

variable {inputs initials : List Shape}

theorem stops_reducedElementTypes : StopsOnlyFor allowed (reducedElementTypes inputs initials) := by
  unfold reducedElementTypes
  split
  · exact stops_error nofun
  · refine .bind (stops_require nofun) fun _ _ => .mapM fun _ _ => ?_
    refine .bind stops_elementType fun _ _ => .bind (stops_require nofun) fun _ _ => ?_
    refine .bind stops_scalarElementType fun _ _ => .bind (stops_require nofun) fun _ _ => ?_
    exact stops_pure _

/-- A reduction has a first input. -/
theorem length_pos_of_reducedElementTypes {types : List ElementType}
    (h : reducedElementTypes inputs initials = .ok types) : 0 < inputs.length := by
  cases inputs with
  | nil => cases h
  | cons first rest => exact Nat.zero_lt_succ _

end Reductions

/-! ## Windows -/

section Windows

variable {w : Window} {axis extent : Nat}

/-- The window has an entry for the axis in every list. -/
theorem stops_windowOnAxis (hpadding : axis < w.padding.length)
    (hdimensions : axis < w.dimensions.length) (hstrides : axis < w.strides.length)
    (hbase : axis < w.baseDilations.length) (hwindow : axis < w.windowDilations.length) :
    StopsOnlyFor allowed (windowOnAxis w axis extent) := by
  refine .bind (stops_entry hpadding) fun _ _ => .bind (stops_entry hdimensions) fun _ _ => ?_
  refine .bind (stops_entry hstrides) fun _ _ => .bind (stops_entry hbase) fun _ _ => ?_
  exact .bind (stops_entry hwindow) fun _ _ => stops_pure _

theorem stride_mem_of_windowOnAxis {a : WindowedAxis} (h : windowOnAxis w axis extent = .ok a) :
    a.stride ∈ w.strides := by
  simp only [windowOnAxis, bind_eq_ok, entry_eq_ok, pure_eq_ok, Except.ok.injEq] at h
  obtain ⟨_, _, _, _, _, hstride, _, _, _, _, rfl⟩ := h
  exact List.mem_of_getElem? hstride

variable (hoverflow : ∀ operation, operation ≠ Arithmetic.divide → allowed (.overflow operation))

include hoverflow

/-- One of the elements is the last one, so that one element less is no negative number. -/
theorem stops_dilated {n dilation : Nat} (hn : n ≠ 0) :
    StopsOnlyFor allowed (dilated n dilation) := by
  refine .bind (stops_sizeSub (Nat.pos_of_ne_zero hn)) fun _ _ => ?_
  refine .bind (stops_sizeBounded (hoverflow .multiply nofun)) fun _ _ => ?_
  exact .bind (stops_sizeBounded (hoverflow .add nofun)) fun _ _ => stops_pure _

theorem stops_dilatedInput {dilation : Nat} :
    StopsOnlyFor allowed (dilatedInput extent dilation) := by
  unfold dilatedInput
  split_ifs with hextent
  · exact stops_pure _
  · exact stops_dilated hoverflow hextent

/-- The window has been found to have elements, and the divisor is a stride that has been found
to be no zero. -/
theorem stops_windowedExtent {a : WindowedAxis} (hstride : a.stride < Size.limit) :
    StopsOnlyFor allowed (windowedExtent axis a) := by
  have hadd := hoverflow .add nofun
  refine .bind (stops_require nofun) fun _ hsizes => ?_
  obtain ⟨hwindow, hpositive⟩ : a.window ≠ 0 ∧ a.stride ≠ 0 := by
    have hsizes := require_eq_ok.mp hsizes
    simp only [Bool.and_eq_true, bne_iff_ne] at hsizes
    exact hsizes.1.1
  refine .bind (stops_dilatedInput hoverflow) fun _ _ => ?_
  refine .bind (stops_dilated hoverflow hwindow) fun _ _ => ?_
  refine .bind (stops_offsetBounded hadd) fun _ _ => .bind (stops_offsetBounded hadd) fun _ _ => ?_
  refine .bind (stops_require nofun) fun _ hfits => ?_
  refine .bind (stops_offsetBounded (hoverflow .subtract nofun)) fun _ hroom => ?_
  obtain ⟨hlimits, rfl⟩ := Offset.bounded_eq_ok.mp hroom
  have hfits := Int.sub_nonneg.mpr (of_decide_eq_true (require_eq_ok.mp hfits))
  have hdivisor := ofSize_ne_zero hpositive hstride
  refine .bind (stops_offsetDiv hdivisor hfits hlimits.2) fun _ _ => ?_
  exact .bind (stops_offsetBounded hadd) fun _ _ => stops_pure _

end Windows

/-! ## Axes of convolutions -/

section Convolutions

/-- The roles belong to axes of a tensor of the rank, and all axes but two are spatial. -/
structure AxisRoles.Within (roles : AxisRoles) (rank : Nat) : Prop where
  hbatch : roles.batch < rank
  hfeature : roles.feature < rank
  hspatial : ∀ a ∈ roles.spatial, a < rank
  hlength : roles.spatial.length = rank - 2

variable {parameter : String} {rank : Nat} {l : ConvolutionLayout} {roles : AxisRoles}

/-- Of the axes that have been normalized the first two are no spatial axes. -/
theorem stops_axisRoles (hrank : 2 ≤ rank) : StopsOnlyFor allowed (axisRoles parameter rank l) := by
  refine .bind (stops_sizeSub hrank) fun _ _ => .bind stops_requireLength fun _ _ => ?_
  refine .bind stops_normalizeAxes fun as has => ?_
  have hlength : as.length = l.spatial.length + 2 := length_of_normalizeAxes has
  refine .bind (stops_entry (by omega)) fun _ _ => .bind (stops_entry (by omega)) fun _ _ => ?_
  exact stops_pure _

theorem AxisRoles.Within.of_axisRoles (h : axisRoles parameter rank l = .ok roles) :
    roles.Within rank := by
  simp only [axisRoles, bind_eq_ok, entry_eq_ok, pure_eq_ok, Except.ok.injEq] at h
  obtain ⟨n, hn, _, hspatial, as, has, batch, hbatch, feature, hfeature, rfl⟩ := h
  have hlt := lt_of_normalizeAxes has
  have hlength : as.length = l.spatial.length + 2 := length_of_normalizeAxes has
  refine ⟨hlt _ (List.mem_of_getElem? hbatch), hlt _ (List.mem_of_getElem? hfeature),
    fun a ha => hlt a (List.mem_of_mem_drop ha), ?_⟩
  rw [List.length_drop, hlength, length_of_requireLength hspatial, eq_of_sizeSub hn]
  omega

variable {lhs rhs : Shape} {input kernel output : AxisRoles} {featureGroups batchGroups : Nat}

theorem stops_requireGroupCounts :
    StopsOnlyFor allowed (requireGroupCounts featureGroups batchGroups) :=
  .bind (stops_require nofun) fun _ _ => stops_require nofun

theorem ne_zero_of_requireGroupCounts {u : Unit}
    (h : requireGroupCounts featureGroups batchGroups = .ok u) :
    featureGroups ≠ 0 ∧ batchGroups ≠ 0 := by
  obtain ⟨_, hcounts, _⟩ := bind_eq_ok.mp h
  simpa using require_eq_ok.mp hcounts

theorem stops_requireGroups (hinput : input.Within lhs.rank) (hkernel : kernel.Within rhs.rank)
    (hfeature : featureGroups ≠ 0) (hbatch : batchGroups ≠ 0) :
    StopsOnlyFor allowed (requireGroups lhs rhs input kernel featureGroups batchGroups) := by
  refine .bind (stops_entry hinput.hbatch) fun _ _ => ?_
  refine .bind (stops_entry hinput.hfeature) fun _ _ => ?_
  refine .bind (stops_entry hkernel.hbatch) fun _ _ => ?_
  refine .bind (stops_entry hkernel.hfeature) fun _ _ => ?_
  refine .bind (stops_sizeMod hfeature) fun _ _ => .bind (stops_sizeDiv hfeature) fun _ _ => ?_
  refine .bind (stops_require nofun) fun _ _ => .bind (stops_sizeMod hfeature) fun _ _ => ?_
  refine .bind (stops_sizeMod hbatch) fun _ _ => .bind (stops_require nofun) fun _ _ => ?_
  exact .bind (stops_sizeMod hbatch) fun _ _ => stops_require nofun

/-- What a convolution knows of its parameters when it comes to the spatial axes. -/
structure SpatialAxes (lhs rhs : Shape) (c : ConvolutionConfiguration)
    (input kernel output : AxisRoles) : Prop where
  hrhs : rhs.rank = lhs.rank
  hinput : input.Within lhs.rank
  hkernel : kernel.Within lhs.rank
  houtput : output.Within lhs.rank
  hstrides : c.windowStrides.length = lhs.rank - 2
  hpadding : c.padding.length = lhs.rank - 2
  hlhsDilation : c.lhsDilation.length = lhs.rank - 2
  hrhsDilation : c.rhsDilation.length = lhs.rank - 2

theorem stops_addSpatialExtent {c : ConvolutionConfiguration}
    (hoverflow : ∀ operation, operation ≠ Arithmetic.divide → allowed (.overflow operation))
    (h : SpatialAxes lhs rhs c input kernel output)
    (hstrides : ∀ stride ∈ c.windowStrides, stride < Size.limit) {dimensions : List Nat}
    (hdimensions : dimensions.length = lhs.rank) {position : Nat}
    (hposition : position < lhs.rank - 2) :
    StopsOnlyFor allowed
      (addSpatialExtent lhs rhs c input kernel output dimensions position) := by
  refine .bind (stops_entry (by rw [h.hinput.hlength]; exact hposition)) fun inputAxis hi => ?_
  have hinput := h.hinput.hspatial _ (List.mem_of_getElem? (entry_eq_ok.mp hi))
  refine .bind (stops_entry (by rw [h.hpadding]; exact hposition)) fun _ _ => ?_
  refine .bind (stops_entry hinput) fun _ _ => ?_
  refine .bind (stops_entry (by rw [h.hkernel.hlength]; exact hposition)) fun kernelAxis hk => ?_
  have hkernel := h.hkernel.hspatial _ (List.mem_of_getElem? (entry_eq_ok.mp hk))
  rw [← h.hrhs] at hkernel
  refine .bind (stops_entry hkernel) fun _ _ => ?_
  refine .bind (stops_entry (by rw [h.hstrides]; exact hposition)) fun stride hs => ?_
  have hstride := hstrides _ (List.mem_of_getElem? (entry_eq_ok.mp hs))
  refine .bind (stops_entry (by rw [h.hlhsDilation]; exact hposition)) fun _ _ => ?_
  refine .bind (stops_entry (by rw [h.hrhsDilation]; exact hposition)) fun _ _ => ?_
  refine .bind (stops_windowedExtent hoverflow hstride) fun _ _ => ?_
  refine .bind (stops_entry (by rw [h.houtput.hlength]; exact hposition)) fun outputAxis ho => ?_
  have houtput := h.houtput.hspatial _ (List.mem_of_getElem? (entry_eq_ok.mp ho))
  rw [← hdimensions] at houtput
  exact stops_replaceEntry houtput

end Convolutions

/-! ## Collectives -/

section Collectives

variable {groups : List (List Int)} {operands : List Shape}

/-- The groups are looked at one by one, and so are their devices. -/
theorem stops_replicaGroupSize : StopsOnlyFor allowed (replicaGroupSize groups) := by
  unfold replicaGroupSize
  split
  · exact stops_error nofun
  · refine .bind (stops_require nofun) fun _ _ => ?_
    refine .bind (.foldlM_of_forall (fun seen group => ?_) []) fun _ _ => stops_pure _
    refine .bind (stops_require nofun) fun _ _ => .foldlM_of_forall (fun seen device => ?_) seen
    refine .bind (stops_require nofun) fun _ _ => .bind (stops_require nofun) fun _ _ => ?_
    exact stops_pure _

theorem stops_operandElementTypes : StopsOnlyFor allowed (operandElementTypes operands) :=
  .bind (stops_require nofun) fun _ _ => .mapM fun _ _ => stops_elementType

variable (hoverflow : allowed (.overflow .multiply)) {operand : Shape}
  {axis splitAxis concatAxis : Int} {count : Nat}

include hoverflow

theorem stops_gatheredShape : StopsOnlyFor allowed (gatheredShape axis count operand) := by
  refine .bind stops_normalizeAxis fun _ ha => ?_
  have hlt := lt_of_normalizeAxis ha
  refine .bind (stops_entry hlt) fun _ _ => .bind (stops_sizeBounded hoverflow) fun _ _ => ?_
  exact .bind (stops_replaceEntry hlt) fun _ _ => stops_pure _

/-- Replacing the extent that is split leaves all axes in their places. -/
theorem stops_exchangedShape (hcount : count ≠ 0) :
    StopsOnlyFor allowed (exchangedShape splitAxis concatAxis count operand) := by
  refine .bind stops_normalizeAxis fun _ hsplit => .bind stops_normalizeAxis fun b hconcat => ?_
  have hsplit := lt_of_normalizeAxis hsplit
  have hconcat := lt_of_normalizeAxis hconcat
  refine .bind (stops_entry hsplit) fun _ _ => .bind (stops_sizeMod hcount) fun _ _ => ?_
  refine .bind (stops_require nofun) fun _ _ => .bind (stops_sizeDiv hcount) fun _ _ => ?_
  refine .bind (stops_replaceEntry hsplit) fun split hreplace => ?_
  have hconcat : b < split.length := by
    rw [length_of_replaceEntry hreplace]
    exact hconcat
  refine .bind (stops_entry hconcat) fun _ _ => .bind (stops_sizeBounded hoverflow) fun _ _ => ?_
  exact .bind (stops_replaceEntry hconcat) fun _ _ => stops_pure _

end Collectives

end Inference

end TensorProgram
