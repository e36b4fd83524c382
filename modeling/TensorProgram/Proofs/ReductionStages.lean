import TensorProgram.Proofs.Reductions
import TensorProgram.Proofs.RemainingAxes
import TensorProgram.Proofs.Search

/-!
# Reductions in stages

What a reduction asks of its inputs, initial values and computation has nothing to do with the axes,
`Reducible`, and the outputs of a reduction can be reduced again, `Reducible.outputs`.

When some axes have been reduced, the others have new positions: an axis that remains is found at
its position among all that remain.  Leaving out entries by these positions is the same as leaving
out the axes themselves, `extentsExcept_extentsExcept`.  So a reduction over two sets of axes can be
made in two stages, `reduce_in_stages`.
-/

namespace TensorProgram.Inference

/-! ## Axes in other forms and orders -/

section Axes

variable {axes axes' : List Int} {rank : Nat} {as : List Nat} {parameter : String}

/-- The listed axes are different axes of a tensor of the rank, whether they count from the front or
from the end. -/
def DistinctAxes (axes : List Int) (rank : Nat) : Prop :=
  (axes.map (fromFront · rank)).Nodup ∧ ∀ axis ∈ axes, -(rank : Int) ≤ axis ∧ axis < rank

/-- Both lists name the same axes, in whatever order and form. -/
def SameAxes (axes axes' : List Int) (rank : Nat) : Prop :=
  (axes.map (fromFront · rank)).Perm (axes'.map (fromFront · rank))

theorem DistinctAxes.left {more : List Int} (h : DistinctAxes (axes ++ more) rank) :
    DistinctAxes axes rank := by
  have hnodup := h.1
  rw [List.map_append] at hnodup
  exact ⟨(List.nodup_append.mp hnodup).1, fun axis haxis =>
    h.2 axis (List.mem_append_left more haxis)⟩

theorem SameAxes.of_perm (h : axes.Perm axes') : SameAxes axes axes' rank :=
  h.map (fromFront · rank)

/-- Axes of the tensor are positions when they are counted from the front. -/
theorem map_fromFront_of_inRange (h : ∀ axis ∈ axes, -(rank : Int) ≤ axis ∧ axis < rank) :
    axes.map (fromFront · rank) =
      (axes.map fun axis => (fromFront axis rank).toNat).map Int.ofNat := by
  rw [List.map_map]
  apply List.map_congr_left
  intro axis haxis
  have := h axis haxis
  show fromFront axis rank = ((fromFront axis rank).toNat : Int)
  unfold fromFront
  split_ifs
  · omega
  · omega

theorem DistinctAxes.exists_normalizeAxes (h : DistinctAxes axes rank) :
    ∃ as, ∀ parameter, normalizeAxes parameter axes rank = .ok as := by
  have hfront := map_fromFront_of_inRange h.2
  refine ⟨_, fun parameter => normalizeAxes_eq_ok_iff.mpr ⟨hfront, ?_, ?_⟩⟩
  · intro a ha
    obtain ⟨axis, haxis, rfl⟩ := List.mem_map.mp ha
    have := h.2 axis haxis
    unfold fromFront
    split_ifs
    · omega
    · omega
  · have hnodup := h.1
    rw [hfront] at hnodup
    exact hnodup.of_map Int.ofNat

/-- Lists that name the same axes have the same positions in another order. -/
theorem SameAxes.exists_normalizeAxes (h : SameAxes axes axes' rank)
    (has : normalizeAxes parameter axes rank = .ok as) :
    ∃ as', as'.Perm as ∧ normalizeAxes parameter axes' rank = .ok as' := by
  obtain ⟨hfront, hlt, hnodup⟩ := normalizeAxes_eq_ok_iff.mp has
  have hperm : (axes'.map (fromFront · rank)).Perm (as.map Int.ofNat) := hfront ▸ h.symm
  have hposition : ∀ x ∈ axes'.map (fromFront · rank), (x.toNat : Int) = x := by
    intro x hx
    obtain ⟨a, _, rfl⟩ := List.mem_map.mp (hperm.mem_iff.mp hx)
    rfl
  have hnat : ((axes'.map (fromFront · rank)).map Int.toNat).Perm as := by
    have hround : (as.map Int.ofNat).map Int.toNat = as := by
      rw [List.map_map]
      exact List.map_id as
    exact hround ▸ hperm.map Int.toNat
  refine ⟨_, hnat, normalizeAxes_eq_ok_iff.mpr ⟨?_, ?_, hnat.nodup_iff.mpr hnodup⟩⟩
  · rw [List.map_map (f := Int.toNat)]
    exact (List.map_id _).symm.trans (List.map_congr_left fun x hx => (hposition x hx).symm)
  · intro a ha
    exact hlt a (hnat.mem_iff.mp ha)

end Axes

/-! ## Extents left out twice -/

section Extents

variable {dimensions remaining as bs positions : List Nat}

/-- Only which axes are listed matters for the extents that remain. -/
theorem extentsExcept_congr (h : ∀ a, a ∈ as ↔ a ∈ bs) :
    extentsExcept dimensions as = extentsExcept dimensions bs := by
  unfold extentsExcept
  congr 1
  apply List.filter_congr
  intro entry _
  simp [h]

/-- Leaving out entries by their positions is leaving out the entries. -/
theorem extentsExcept_idxOf (hremaining : remaining.Nodup) (hbs : ∀ b ∈ bs, b ∈ remaining)
    (hpositions : ∀ i, i ∈ positions ↔ i ∈ bs.map remaining.idxOf) :
    extentsExcept remaining positions = remaining.filter (!bs.contains ·) := by
  have hlisted : ∀ entry ∈ remaining.zipIdx, entry.2 ∈ positions ↔ entry.1 ∈ bs := by
    intro entry hentry
    obtain ⟨hlt, hget⟩ := List.getElem?_eq_some_iff.mp (List.mem_zipIdx_iff_getElem?.mp hentry)
    rw [hpositions, List.mem_map]
    constructor
    · intro h
      obtain ⟨b, hb, hidx⟩ := h
      have hbGet := List.getElem_idxOf (List.idxOf_lt_length_of_mem (hbs b hb))
      simp only [hidx, hget] at hbGet
      rwa [hbGet]
    · intro h
      refine ⟨entry.1, h, ?_⟩
      rw [← hget]
      exact hremaining.idxOf_getElem entry.2 hlt
  have hfilter : extentsExcept remaining positions =
      (remaining.zipIdx.filter fun entry => !bs.contains entry.1).map Prod.fst := by
    unfold extentsExcept
    congr 1
    apply List.filter_congr
    intro entry hentry
    simp [hlisted entry hentry]
  rw [hfilter]
  conv_rhs => rw [← List.zipIdx_map_fst 0 remaining, List.filter_map]
  rfl

/-- Some axes are left out, and then others by the positions that they have among those that
remain. -/
theorem extentsExcept_extentsExcept
    (hremaining : remaining = (List.range dimensions.length).filter (!as.contains ·))
    (hbs : ∀ b ∈ bs, b ∈ remaining)
    (hpositions : ∀ i, i ∈ positions ↔ i ∈ bs.map remaining.idxOf) :
    extentsExcept (extentsExcept dimensions as) positions =
      extentsExcept dimensions (as ++ bs) := by
  have hnodup : remaining.Nodup := hremaining ▸ List.nodup_range.filter _
  have hextents : (extentsExcept dimensions as).map some = remaining.map (dimensions[·]?) := by
    rw [hremaining, map_getElem?_remaining]
  have hlength : (extentsExcept dimensions as).length = remaining.length := by
    simpa using congrArg List.length hextents
  have hget (i : Nat) : (extentsExcept dimensions as)[i]? =
      (remaining[i]?).bind (dimensions[·]?) := by
    have hentry : ((extentsExcept dimensions as)[i]?).map some =
        (remaining[i]?).map (dimensions[·]?) := by
      rw [← List.getElem?_map, ← List.getElem?_map, hextents]
    cases hposition : remaining[i]? with
    | none => simpa [hposition] using hentry
    | some a =>
      rw [hposition, Option.map_some] at hentry
      obtain ⟨n, hn, hextent⟩ := Option.map_eq_some_iff.mp hentry
      rw [hn]
      exact hextent
  apply List.map_injective_iff.mpr (Option.some_injective Nat)
  calc (extentsExcept (extentsExcept dimensions as) positions).map some
      = ((List.range (extentsExcept dimensions as).length).filter (!positions.contains ·)).map
          ((extentsExcept dimensions as)[·]?) := (map_getElem?_remaining _ positions).symm
    _ = ((List.range remaining.length).filter (!positions.contains ·)).map
          fun i => (remaining[i]?).bind (dimensions[·]?) := by
        rw [hlength]
        exact List.map_congr_left fun i _ => hget i
    _ = (((List.range remaining.length).filter (!positions.contains ·)).map
          (remaining[·]?)).map (·.bind (dimensions[·]?)) := by
        rw [List.map_map]
        rfl
    _ = (extentsExcept remaining positions).map (dimensions[·]?) := by
        rw [map_getElem?_remaining, List.map_map]
        rfl
    _ = (remaining.filter (!bs.contains ·)).map (dimensions[·]?) := by
        rw [extentsExcept_idxOf hnodup hbs hpositions]
    _ = ((List.range dimensions.length).filter (!(as ++ bs).contains ·)).map
          (dimensions[·]?) := by
        rw [hremaining, List.filter_filter]
        congr 1
        apply List.filter_congr
        intro a _
        simp [Bool.and_comm]
    _ = (extentsExcept dimensions (as ++ bs)).map some := map_getElem?_remaining _ _

end Extents

/-! ## Reductions -/

section Reductions

variable {inputs initials outputs : List Shape} {c : Signature} {types : List ElementType}
  {dimensions dimensions' : List Nat} {axes axes' : List Int}

/-- What reductions over any axes ask of their inputs, their initial values and their
computation. -/
structure Reducible (inputs initials : List Shape) (c : Signature) (types : List ElementType)
    (dimensions : List Nat) : Prop where
  first : inputs[0]?.map Shape.dimensions = some dimensions
  elementTypes : reducedElementTypes inputs initials = .ok types
  combinator : requireCombinator (· == ·) c types = .ok ()

theorem Reducible.firstRank_eq (h : Reducible inputs initials c types dimensions) :
    Operation.firstRank inputs = dimensions.length := by
  obtain ⟨first, hfirst, rfl⟩ := Option.map_eq_some_iff.mp h.first
  rw [Operation.firstRank, List.head?_eq_getElem?, hfirst]
  rfl

theorem Reducible.reduce_eq_ok (h : Reducible inputs initials c types dimensions) :
    reduce inputs initials axes c = .ok outputs ↔
      ∃ as, normalizeAxes "dimensions" axes dimensions.length = .ok as ∧
        outputs = types.map (.of · (extentsExcept dimensions as)) := by
  obtain ⟨first, hfirst, rfl⟩ := Option.map_eq_some_iff.mp h.first
  simp only [reduce, h.elementTypes, ok_bind, bind_eq_ok, entry_eq_ok, hfirst, Option.some.injEq,
    exists_eq_left', pure_eq_ok, Except.ok.injEq]
  constructor
  · intro hreduce
    obtain ⟨as, has, _, _, houtputs⟩ := hreduce
    exact ⟨as, has, houtputs.symm⟩
  · intro hreduce
    obtain ⟨as, has, houtputs⟩ := hreduce
    exact ⟨as, has, (), h.combinator, houtputs.symm⟩

theorem reducible_of_reduce (h : reduce inputs initials axes c = .ok outputs) :
    ∃ types dimensions, Reducible inputs initials c types dimensions := by
  simp only [reduce, bind_eq_ok, entry_eq_ok] at h
  obtain ⟨types, htypes, first, hfirst, _, _, _, hc, _⟩ := h
  exact ⟨types, first.dimensions, by rw [hfirst]; rfl, htypes, hc⟩

/-- What was asked of the inputs. -/
theorem Reducible.inputs_eq (h : Reducible inputs initials c types dimensions) :
    List.Forall₂ (fun input t => elementType input = .ok t) inputs types ∧
      (∀ input ∈ inputs, input.dimensions = dimensions) ∧
      List.Forall₂ (fun initial t => scalarElementType initial = .ok t) initials types := by
  obtain ⟨first, hfirst, rfl⟩ := Option.map_eq_some_iff.mp h.first
  cases inputs with
  | nil => cases hfirst
  | cons input rest =>
    obtain rfl : input = first := by simpa using hfirst
    exact reducedElementTypes_eq_ok.mp h.elementTypes

/-- Outputs of a reduction can be reduced again, with the same initial values and the same
computation. -/
theorem Reducible.again (h : Reducible inputs initials c types dimensions)
    (dimensions' : List Nat) :
    Reducible (types.map (.of · dimensions')) initials c types dimensions' := by
  obtain ⟨htypes, _, hinitials⟩ := h.inputs_eq
  obtain ⟨first, hfirst, _⟩ := Option.map_eq_some_iff.mp h.first
  cases htypes with
  | nil => cases hfirst
  | @cons _ t _ rest _ _ =>
    refine ⟨rfl, reducedElementTypes_eq_ok.mpr ⟨?_, ?_, hinitials⟩, h.combinator⟩
    · rw [← List.map_cons (f := fun t => Shape.of t dimensions'), List.forall₂_map_left_iff,
        List.forall₂_same]
      exact fun _ _ => rfl
    · rw [← List.map_cons (f := fun t => Shape.of t dimensions'), List.forall_mem_map]
      exact fun _ _ => rfl

theorem Reducible.exists_reduce (h : Reducible inputs initials c types dimensions)
    (haxes : DistinctAxes axes dimensions.length) :
    ∃ outputs, reduce inputs initials axes c = .ok outputs := by
  obtain ⟨as, has⟩ := haxes.exists_normalizeAxes
  exact ⟨_, h.reduce_eq_ok.mpr ⟨as, has "dimensions", rfl⟩⟩

/-- The order and the form in which axes are listed does not matter. -/
theorem reduce_of_sameAxes (haxes : SameAxes axes axes' (Operation.firstRank inputs))
    (h : reduce inputs initials axes c = .ok outputs) :
    reduce inputs initials axes' c = .ok outputs := by
  obtain ⟨types, dimensions, hinputs⟩ := reducible_of_reduce h
  obtain ⟨as, has, rfl⟩ := hinputs.reduce_eq_ok.mp h
  rw [hinputs.firstRank_eq] at haxes
  obtain ⟨as', hperm, has'⟩ := haxes.exists_normalizeAxes has
  refine hinputs.reduce_eq_ok.mpr ⟨as', has', ?_⟩
  rw [extentsExcept_congr fun a => hperm.mem_iff]

/-- Every output has the element type of its input and, together with the extents of the reduced
axes, as many elements. -/
theorem Reducible.size_outputs (h : Reducible inputs initials c types dimensions)
    (hreduce : reduce inputs initials axes c = .ok outputs) :
    ∃ reduced : List Nat, (∀ input ∈ inputs, axes.map input.dimension? = reduced.map some) ∧
      List.Forall₂ (fun input output => output.elementType? = input.elementType? ∧
        output.size * reduced.prod = input.size) inputs outputs := by
  obtain ⟨as, has, rfl⟩ := h.reduce_eq_ok.mp hreduce
  obtain ⟨hfront, hlt, hnodup⟩ := normalizeAxes_eq_ok_iff.mp has
  obtain ⟨reduced, hreduced⟩ := exists_extents hlt
  obtain ⟨htypes, hdimensions, _⟩ := h.inputs_eq
  refine ⟨reduced, ?_, ?_⟩
  · intro input hinput
    obtain rfl := hdimensions input hinput
    exact (map_dimension? hfront).trans hreduced
  · rw [List.forall₂_map_right_iff]
    refine ((List.forall₂_and_left _ _).mpr ⟨hdimensions, htypes⟩).imp ?_
    intro input t hinput
    refine ⟨(elementType_eq_ok.mp hinput.2).symm, ?_⟩
    rw [Shape.size_eq_prod, Shape.size_eq_prod, hinput.1, Nat.mul_comm]
    exact prod_extentsExcept hnodup hreduced

/-- A reduction over one axis has the extents that a search along this axis has. -/
theorem Reducible.reduce_searched (h : Reducible inputs initials c types dimensions)
    {input result : Shape} {axis : Int} {positionType : ElementType} (hinput : input ∈ inputs)
    (hsearch : argMinMax input axis positionType = .ok result) :
    ∃ outputs, reduce inputs initials [axis] c = .ok outputs ∧
      ∀ output ∈ outputs, output.dimensions = result.dimensions := by
  obtain ⟨_, _, a, ha, hlt, rfl⟩ := argMinMax_eq_ok hsearch
  obtain ⟨_, hdimensions, _⟩ := h.inputs_eq
  obtain rfl := hdimensions input hinput
  have has : normalizeAxes "dimensions" [axis] input.dimensions.length = .ok [a] :=
    normalizeAxes_eq_ok.mpr ⟨.cons (normalizeAxis_eq_ok.mpr ⟨ha, hlt⟩) .nil,
      List.nodup_singleton a⟩
  refine ⟨_, h.reduce_eq_ok.mpr ⟨[a], has, rfl⟩, ?_⟩
  rw [List.forall_mem_map]
  intro t _
  exact extentsExcept_singleton input.dimensions a

/-! ## Two stages -/

/-- The positions that the axes of the second list have among those that remain without the axes of
the first list. -/
def positionsWithout (first second : List Int) (rank : Nat) : List Int :=
  second.map fun axis => ((axesExcept first rank).idxOf (fromFront axis rank).toNat : Int)

section Stages

variable {first second positions : List Int} {rank : Nat} {as bs : List Nat}

theorem DistinctAxes.append (h : DistinctAxes (first ++ second) rank) :
    ∃ as bs, (∀ parameter, normalizeAxes parameter first rank = .ok as) ∧
      (∀ parameter, normalizeAxes parameter second rank = .ok bs) ∧
      (∀ parameter, normalizeAxes parameter (first ++ second) rank = .ok (as ++ bs)) ∧
      (as ++ bs).Nodup := by
  obtain ⟨hnodup, hrange⟩ := h
  rw [List.forall_mem_append] at hrange
  rw [List.map_append] at hnodup
  obtain ⟨hfirst, hsecond, _⟩ := List.nodup_append.mp hnodup
  obtain ⟨as, has⟩ := DistinctAxes.exists_normalizeAxes ⟨hfirst, hrange.1⟩
  obtain ⟨bs, hbs⟩ := DistinctAxes.exists_normalizeAxes ⟨hsecond, hrange.2⟩
  obtain ⟨hasFront, hasLt, _⟩ := normalizeAxes_eq_ok_iff.mp (has "")
  obtain ⟨hbsFront, hbsLt, _⟩ := normalizeAxes_eq_ok_iff.mp (hbs "")
  have hall : (as ++ bs).Nodup := by
    rw [hasFront, hbsFront, ← List.map_append] at hnodup
    exact hnodup.of_map Int.ofNat
  refine ⟨as, bs, has, hbs, fun parameter => normalizeAxes_eq_ok_iff.mpr ⟨?_, ?_, hall⟩, hall⟩
  · rw [List.map_append, List.map_append, hasFront, hbsFront]
  · rw [List.forall_mem_append]
    exact ⟨hasLt, hbsLt⟩

/-- The positions of axes that remain are normalized to where they stand. -/
theorem normalizeAxes_positionsWithout
    (hfirst : first.map (fromFront · rank) = as.map Int.ofNat)
    (hsecond : second.map (fromFront · rank) = bs.map Int.ofNat) (hnodup : (as ++ bs).Nodup)
    (hlt : ∀ b ∈ bs, b < rank) :
    (∀ b ∈ bs, b ∈ axesExcept first rank) ∧
      ∀ parameter, normalizeAxes parameter (positionsWithout first second rank)
        (axesExcept first rank).length = .ok (bs.map (axesExcept first rank).idxOf) := by
  obtain ⟨_, hbs, hdisjoint⟩ := List.nodup_append.mp hnodup
  have hremaining : ∀ b ∈ bs, b ∈ axesExcept first rank := by
    intro b hb
    rw [axesExcept_eq hfirst, List.mem_filter, List.mem_range]
    refine ⟨hlt b hb, ?_⟩
    have : b ∉ as := fun ha => hdisjoint b ha b hb rfl
    simpa using this
  have hpositions : positionsWithout first second rank =
      (bs.map (axesExcept first rank).idxOf).map Int.ofNat := by
    have := congrArg (List.map fun x : Int => ((axesExcept first rank).idxOf x.toNat : Int)) hsecond
    rw [List.map_map, List.map_map] at this
    rw [List.map_map]
    exact this
  refine ⟨hremaining, fun parameter => ?_⟩
  rw [hpositions]
  apply normalizeAxes_map_ofNat
  · rw [List.forall_mem_map]
    intro b hb
    exact List.idxOf_lt_length_of_mem (hremaining b hb)
  · apply hbs.map_on
    intro b hb b' hb' hidx
    exact (List.idxOf_inj (hremaining b hb)).mp hidx

/-- The axes of the second list can be reduced after those of the first list. -/
theorem Reducible.reduce_positions (h : Reducible inputs initials c types dimensions)
    (haxes : DistinctAxes (first ++ second) dimensions.length)
    (hpositions : SameAxes positions (positionsWithout first second dimensions.length)
      (axesExcept first dimensions.length).length)
    {halfway : List Shape} (hfirst : reduce inputs initials first c = .ok halfway)
    (hboth : reduce inputs initials (first ++ second) c = .ok outputs) :
    reduce halfway initials positions c = .ok outputs := by
  obtain ⟨as, bs, has, hbs, hall, hnodup⟩ := haxes.append
  obtain ⟨as', has', rfl⟩ := h.reduce_eq_ok.mp hfirst
  obtain rfl : as = as' := Except.ok.inj ((has _).symm.trans has')
  obtain ⟨all, hall', rfl⟩ := h.reduce_eq_ok.mp hboth
  obtain rfl : as ++ bs = all := Except.ok.inj ((hall _).symm.trans hall')
  obtain ⟨hasFront, _, _⟩ := normalizeAxes_eq_ok_iff.mp has'
  obtain ⟨hbsFront, hbsLt, _⟩ := normalizeAxes_eq_ok_iff.mp (hbs "")
  obtain ⟨hremaining, hnormalized⟩ :=
    normalizeAxes_positionsWithout hasFront hbsFront hnodup hbsLt
  obtain ⟨found, hperm, hfound⟩ := SameAxes.exists_normalizeAxes hpositions.symm
    (hnormalized "dimensions")
  have hlength : (extentsExcept dimensions as).length =
      (axesExcept first dimensions.length).length := by
    rw [length_extentsExcept, axesExcept_eq hasFront]
  refine (h.again (extentsExcept dimensions as)).reduce_eq_ok.mpr ⟨found, hlength ▸ hfound, ?_⟩
  rw [extentsExcept_extentsExcept (axesExcept_eq hasFront) hremaining fun i => hperm.mem_iff]

end Stages

/-- Reductions compose.  Inputs, initial values and a computation that are accepted with some axes
are accepted with any distinct axes, and two disjoint sets of axes can be reduced together or one
after the other, the second by the positions that its axes have among those that remain.  The order
and the form of the listed axes does not matter, no element is lost, and one axis leaves the extents
that a search along it leaves. -/
theorem reduce_in_stages {accepted : List Shape}
    (haccepted : reduce inputs initials axes c = .ok accepted) :
    (∀ first second, DistinctAxes (first ++ second) (Operation.firstRank inputs) →
      ∃ halfway outputs, reduce inputs initials first c = .ok halfway ∧
        reduce inputs initials (first ++ second) c = .ok outputs ∧
        ∀ positions, SameAxes positions
            (positionsWithout first second (Operation.firstRank inputs))
            (axesExcept first (Operation.firstRank inputs)).length →
          reduce halfway initials positions c = .ok outputs) ∧
    (∀ listed reordered outputs, SameAxes listed reordered (Operation.firstRank inputs) →
      (reduce inputs initials listed c = .ok outputs ↔
        reduce inputs initials reordered c = .ok outputs)) ∧
    (∀ listed outputs, reduce inputs initials listed c = .ok outputs →
      ∃ reduced : List Nat, (∀ input ∈ inputs, listed.map input.dimension? = reduced.map some) ∧
        List.Forall₂ (fun input output => output.elementType? = input.elementType? ∧
          output.size * reduced.prod = input.size) inputs outputs) ∧
    ∀ input ∈ inputs, ∀ axis positionType result,
      argMinMax input axis positionType = .ok result →
        ∃ outputs, reduce inputs initials [axis] c = .ok outputs ∧
          ∀ output ∈ outputs, output.dimensions = result.dimensions := by
  obtain ⟨types, dimensions, hinputs⟩ := reducible_of_reduce haccepted
  refine ⟨?_, ?_, fun _ _ => hinputs.size_outputs, fun _ h _ _ _ => hinputs.reduce_searched h⟩
  · rw [hinputs.firstRank_eq]
    intro first second haxes
    obtain ⟨halfway, hfirst⟩ := hinputs.exists_reduce haxes.left
    obtain ⟨outputs, hboth⟩ := hinputs.exists_reduce haxes
    exact ⟨halfway, outputs, hfirst, hboth, fun positions hpositions =>
      hinputs.reduce_positions haxes hpositions hfirst hboth⟩
  · intro listed reordered outputs hsame
    exact ⟨reduce_of_sameAxes hsame, reduce_of_sameAxes hsame.symm⟩

/-- A pair of inputs, whose axes `-1` and `1` are reduced before the axis `0`, and whose three axes
are reduced at once in another order. -/
theorem reduce_in_stages_pair :
    let inputs := [Shape.of (.real .f32) [2, 3, 4, 5], Shape.of (.signed .w32) [2, 3, 4, 5]]
    let initials := [Shape.of (.real .f32) [], Shape.of (.signed .w32) []]
    let c : Signature := { inputs := initials ++ initials, outputs := initials }
    let outputs := [Shape.of (.real .f32) [4], Shape.of (.signed .w32) [4]]
    reduce inputs initials [] c = .ok inputs ∧ DistinctAxes [-1, 1, 0] 4 ∧
      reduce inputs initials [0, 1, -1] c = .ok outputs ∧
      ∃ halfway, reduce inputs initials [-1, 1] c = .ok halfway ∧
        reduce halfway initials [-2] c = .ok outputs := by
  intro inputs initials c outputs
  have haccepted : reduce inputs initials [] c = .ok inputs := by decide
  have haxes : DistinctAxes [-1, 1, 0] 4 := ⟨by decide, by decide⟩
  obtain ⟨hstages, hreorder, _⟩ := reduce_in_stages haccepted
  obtain ⟨halfway, reduced, hfirst, hboth, hsecond⟩ := hstages [-1, 1] [0] haxes
  have hreduced : reduce inputs initials [-1, 1, 0] c = .ok outputs := by decide
  obtain rfl : outputs = reduced := Except.ok.inj (hreduced.symm.trans hboth)
  have hperm : [-1, 1, 0].Perm [0, 1, (-1 : Int)] := by decide
  have hpositions : SameAxes [-2] (positionsWithout [-1, 1] [0] 4) 2 := by
    unfold SameAxes
    decide
  exact ⟨haccepted, haxes, (hreorder _ _ outputs (.of_perm hperm)).mp hreduced, halfway, hfirst,
    hsecond [-2] hpositions⟩

end Reductions

end TensorProgram.Inference
